import ClearCore.Isa.Memory
import Mathlib.Tactic.Common

namespace ClearCore.Isa.Memory

theorem and_three_eq_zero (addr : Word) : addr &&& 0x3#32 = 0#32 ↔ addr.toNat % 4 = 0 := by
  have h : (addr &&& 0x3#32).toNat = addr.toNat % 4 := by
    rw [BitVec.toNat_and]
    exact Nat.and_two_pow_sub_one_eq_mod addr.toNat 2
  rw [← h, ← BitVec.toNat_inj]
  rfl

-- The bytes of an aligned word do not wrap around the address space.
theorem toNat_add_of_aligned (addr : Word) (k : Nat) (ha : addr.toNat % 4 = 0) (hk : k < 4) :
    (addr + BitVec.ofNat 32 k).toNat = addr.toNat + k := by
  have hlt := addr.isLt
  rw [BitVec.toNat_add, BitVec.toNat_ofNat]
  omega

@[simp] theorem size_setByte (mem : Memory) (addr : Word) (value : Byte) :
    (mem.setByte addr value).size = mem.size := by
  simp [setByte, size]

@[simp] theorem size_setWord (mem : Memory) (addr value : Word) :
    (mem.setWord addr value).size = mem.size := by
  simp [setWord]

@[simp] theorem size_ofSize (sizeBytes : Nat) : (ofSize sizeBytes).size = sizeBytes := by
  simp [ofSize, size]

theorem byteAt_ofSize (sizeBytes : Nat) (addr : Word) : (ofSize sizeBytes).byteAt addr = 0 := by
  simp [byteAt, ofSize, Array.getD_eq_getD_getElem?, Array.getElem?_replicate]
  split <;> rfl

-- A fresh memory holds the word 0 everywhere.
theorem wordAt_ofSize (sizeBytes : Nat) (addr : Word) : (ofSize sizeBytes).wordAt addr = 0#32 := by
  simp only [wordAt, byteAt_ofSize]
  rfl

theorem byteAt_setByte (mem : Memory) (addr other : Word) (value : Byte) :
    (mem.setByte addr value).byteAt other =
      if addr = other ∧ addr.toNat < mem.size then value else mem.byteAt other := by
  simp only [setByte, byteAt, size, Array.getD_eq_getD_getElem?, Array.getElem?_setIfInBounds]
  by_cases he : addr = other
  · subst he
    by_cases hs : addr.toNat < mem.data.size <;> simp [hs]
  · have hn : addr.toNat ≠ other.toNat := fun h => he (BitVec.eq_of_toNat_eq h)
    simp [he, hn]

-- A word write changes no byte outside its word.
theorem byteAt_setWord_ne (mem : Memory) (addr other value : Word)
    (hne : ∀ k < 4, addr + BitVec.ofNat 32 k ≠ other) :
    (mem.setWord addr value).byteAt other = mem.byteAt other := by
  have h0 := hne 0 (by omega)
  have h1 := hne 1 (by omega)
  have h2 := hne 2 (by omega)
  have h3 := hne 3 (by omega)
  simp only [BitVec.add_zero] at h0 h1 h2 h3
  simp [setWord, byteAt_setByte, h0, h1, h2, h3]

theorem wordAt_setWord_ne (mem : Memory) (addr other value : Word)
    (ha : addr.toNat % 4 = 0) (ho : other.toNat % 4 = 0) (hne : addr ≠ other) :
    (mem.setWord addr value).wordAt other = mem.wordAt other := by
  have hbyte : ∀ k < 4, (mem.setWord addr value).byteAt (other + BitVec.ofNat 32 k) =
      mem.byteAt (other + BitVec.ofNat 32 k) := by
    intro k hk
    apply byteAt_setWord_ne
    intro j hj he
    have hn : addr.toNat ≠ other.toNat := fun h => hne (BitVec.eq_of_toNat_eq h)
    have ht := congrArg BitVec.toNat he
    rw [toNat_add_of_aligned addr j ha hj, toNat_add_of_aligned other k ho hk] at ht
    omega
  have h0 := hbyte 0 (by omega)
  have h1 := hbyte 1 (by omega)
  have h2 := hbyte 2 (by omega)
  have h3 := hbyte 3 (by omega)
  simp only [BitVec.add_zero] at h0 h1 h2 h3
  simp [wordAt, h0, h1, h2, h3]

theorem readWord_eq_some {mem : Memory} {addr word : Word} (h : mem.readWord addr = some word) :
    addr.toNat % 4 = 0 ∧ addr.toNat + 4 ≤ mem.size ∧ mem.wordAt addr = word := by
  unfold readWord at h
  split at h
  · cases h
  · rename_i hc
    rw [not_or] at hc
    refine ⟨(and_three_eq_zero addr).mp (by simpa using hc.1), ?_, Option.some.inj h⟩
    simpa [inBounds, size] using hc.2

theorem writeWord_eq_some {mem mem' : Memory} {addr value : Word}
    (h : mem.writeWord addr value = some mem') :
    addr.toNat % 4 = 0 ∧ addr.toNat + 4 ≤ mem.size ∧ mem' = mem.setWord addr value := by
  unfold writeWord at h
  split at h
  · cases h
  · rename_i hc
    rw [not_or] at hc
    refine ⟨(and_three_eq_zero addr).mp (by simpa using hc.1), ?_, (Option.some.inj h).symm⟩
    simpa [inBounds, size] using hc.2

theorem readWord_of_aligned {mem : Memory} {addr : Word} (ha : addr.toNat % 4 = 0)
    (hb : addr.toNat + 4 ≤ mem.size) : mem.readWord addr = some (mem.wordAt addr) := by
  have h := (and_three_eq_zero addr).mpr ha
  simp only [size] at hb
  simp [readWord, inBounds, h, hb]

theorem writeWord_of_aligned {mem : Memory} {addr : Word} (ha : addr.toNat % 4 = 0)
    (hb : addr.toNat + 4 ≤ mem.size) (value : Word) :
    mem.writeWord addr value = some (mem.setWord addr value) := by
  have h := (and_three_eq_zero addr).mpr ha
  simp only [size] at hb
  simp [writeWord, inBounds, h, hb]

theorem size_writeWord {mem mem' : Memory} {addr value : Word}
    (h : mem.writeWord addr value = some mem') : mem'.size = mem.size := by
  obtain ⟨_, _, rfl⟩ := writeWord_eq_some h
  exact size_setWord mem addr value

-- A word write is invisible to a read at any other word address.
theorem readWord_writeWord_ne {mem mem' : Memory} {addr other value : Word}
    (h : mem.writeWord addr value = some mem') (hne : addr ≠ other) :
    mem'.readWord other = mem.readWord other := by
  obtain ⟨ha, -, rfl⟩ := writeWord_eq_some h
  have hsize := size_setWord mem addr value
  simp only [size] at hsize
  by_cases ho : other &&& 0x3#32 = 0#32
  · simp [readWord, inBounds, hsize,
      wordAt_setWord_ne mem addr other value ha ((and_three_eq_zero other).mp ho) hne]
  · simp [readWord, ho]

-- Whether an access succeeds depends on the size alone.
theorem readWord_isSome_congr {mem mem' : Memory} (hs : mem.size = mem'.size) (addr : Word) :
    (mem.readWord addr).isSome = (mem'.readWord addr).isSome := by
  simp only [size] at hs
  by_cases ha : addr &&& 3#32 = 0#32 <;> by_cases hb : addr.toNat + 4 ≤ mem'.data.size <;>
    simp [readWord, inBounds, hs, ha, hb]

theorem readHalf_isSome_congr {mem mem' : Memory} (hs : mem.size = mem'.size) (addr : Word) :
    (mem.readHalf addr).isSome = (mem'.readHalf addr).isSome := by
  simp only [size] at hs
  by_cases ha : addr &&& 1#32 = 0#32 <;> by_cases hb : addr.toNat + 2 ≤ mem'.data.size <;>
    simp [readHalf, inBounds, hs, ha, hb]

theorem readByte_isSome_congr {mem mem' : Memory} (hs : mem.size = mem'.size) (addr : Word) :
    (mem.readByte addr).isSome = (mem'.readByte addr).isSome := by
  have hb : mem.inBounds addr 1 = mem'.inBounds addr 1 := by
    simp only [size] at hs
    rw [inBounds, inBounds, hs]
  simp only [readByte, hb]
  split <;> rfl

theorem writeWord_isSome_congr {mem mem' : Memory} (hs : mem.size = mem'.size)
    (addr value : Word) :
    (mem.writeWord addr value).isSome = (mem'.writeWord addr value).isSome := by
  simp only [size] at hs
  by_cases ha : addr &&& 3#32 = 0#32 <;> by_cases hb : addr.toNat + 4 ≤ mem'.data.size <;>
    simp [writeWord, inBounds, hs, ha, hb]

theorem size_loadWordsFrom (addr : Word) (i : Nat) (words : List Word) (mem : Memory) :
    (loadWordsFrom addr i words mem).size = mem.size := by
  induction words generalizing i mem with
  | nil => rfl
  | cons word words ih =>
    rw [loadWordsFrom, ih]
    cases hw : mem.writeWord (addr + BitVec.ofNat 32 (i * 4)) word with
    | none => rfl
    | some mem' => exact size_writeWord hw

theorem size_loadWords {mem mem' : Memory} {addr : Word} {words : List Word} {fits : Bool}
    (h : mem.loadWords addr words = some (fits, mem')) : mem'.size = mem.size := by
  unfold loadWords at h
  split at h
  · cases h
  · simp only [loadWordsFits, Option.some.injEq] at h
    split at h
    · obtain ⟨-, rfl⟩ := Prod.mk.inj h
      rfl
    · obtain ⟨-, rfl⟩ := Prod.mk.inj h
      exact size_loadWordsFrom addr 0 words mem

-- Byte `k` of a word in memory order.
def wordByte (value : Word) (k : Nat) : Byte := ((value >>> (8 * k)) &&& 0xFF#32).setWidth 8

theorem getElem_wordByte (value : Word) (k i : Nat) (hi : i < 8) :
    (wordByte value k)[i] = value.getLsbD (8 * k + i) := by
  have hall : ∀ j : Fin 8, (255#8).getLsbD j.val = true := by decide
  have h255 : (255#8)[i] = true := by
    rw [← BitVec.getLsbD_eq_getElem hi]
    exact hall ⟨i, hi⟩
  simp [wordByte, BitVec.getElem_setWidth, h255]

-- The bytes of a word put together from four bytes.
theorem wordByte_bytes (a b c d : Byte) :
    let w : Word := a.setWidth 32 ||| b.setWidth 32 <<< 8 ||| c.setWidth 32 <<< 16 |||
      d.setWidth 32 <<< 24
    wordByte w 0 = a ∧ wordByte w 1 = b ∧ wordByte w 2 = c ∧ wordByte w 3 = d := by
  have hge : ∀ (x : Byte) (j : Nat), 8 ≤ j → x.getLsbD j = false :=
    fun x j hj => BitVec.getLsbD_of_ge x j hj
  refine ⟨?_, ?_, ?_, ?_⟩
  all_goals
    ext i hi
    rw [getElem_wordByte _ _ _ hi]
    simp only [BitVec.getLsbD_or, BitVec.getLsbD_shiftLeft, BitVec.getLsbD_setWidth,
      ← BitVec.getLsbD_eq_getElem]
  · simp [show i < 24 by omega, show i < 16 by omega, show i < 32 by omega, hi]
  · simp [show 8 + i < 24 by omega, show 8 + i < 16 by omega, show 8 + i < 32 by omega,
      show i < 32 by omega]
  · simp [hge a (16 + i) (by omega), hge b (16 + i - 8) (by omega), show 16 + i < 24 by omega,
      show 16 + i < 32 by omega, show i < 32 by omega]
  · simp [hge a (24 + i) (by omega), hge b (24 + i - 8) (by omega),
      hge c (24 + i - 16) (by omega), show 24 + i < 32 by omega, show i < 32 by omega]

theorem wordByte_wordAt (mem : Memory) (addr : Word) {k : Nat} (hk : k < 4) :
    wordByte (mem.wordAt addr) k = mem.byteAt (addr + BitVec.ofNat 32 k) := by
  obtain ⟨h0, h1, h2, h3⟩ := wordByte_bytes (mem.byteAt addr) (mem.byteAt (addr + 1))
    (mem.byteAt (addr + 2)) (mem.byteAt (addr + 3))
  have hcases : k = 0 ∨ k = 1 ∨ k = 2 ∨ k = 3 := by omega
  rcases hcases with rfl | rfl | rfl | rfl
  · rw [BitVec.add_zero]
    exact h0
  · exact h1
  · exact h2
  · exact h3

theorem eq_of_getElem? {mem mem' : Memory} (h : ∀ n : Nat, mem.data[n]? = mem'.data[n]?) :
    mem = mem' := by
  cases mem
  cases mem'
  rw [mk.injEq]
  exact Array.ext_getElem? h

theorem getElem?_byteAt {mem : Memory} {addr : Word} (h : addr.toNat < mem.size) :
    mem.data[addr.toNat]? = some (mem.byteAt addr) := by
  simp only [size] at h
  simp [byteAt, h]

theorem getElem?_setByte {mem : Memory} {addr : Word} (h : addr.toNat < mem.size) (value : Byte)
    (n : Nat) :
    (mem.setByte addr value).data[n]? =
      if n = addr.toNat then some value else mem.data[n]? := by
  simp only [size] at h
  rw [setByte, Array.getElem?_setIfInBounds]
  by_cases hn : n = addr.toNat
  · subst hn
    simp [h]
  · rw [if_neg hn, if_neg (Ne.symm hn)]

-- A word write sets the four bytes of its word.
theorem getElem?_setWord {mem : Memory} {addr : Word} (ha : addr.toNat % 4 = 0)
    (hb : addr.toNat + 4 ≤ mem.size) (value : Word) (n : Nat) :
    (mem.setWord addr value).data[n]? =
      if addr.toNat ≤ n ∧ n < addr.toNat + 4 then some (wordByte value (n - addr.toNat))
      else mem.data[n]? := by
  have h1 : (addr + 1).toNat = addr.toNat + 1 := toNat_add_of_aligned addr 1 ha (by omega)
  have h2 : (addr + 2).toNat = addr.toNat + 2 := toNat_add_of_aligned addr 2 ha (by omega)
  have h3 : (addr + 3).toNat = addr.toNat + 3 := toNat_add_of_aligned addr 3 ha (by omega)
  rw [setWord, getElem?_setByte (by simp only [size_setByte]; omega),
    getElem?_setByte (by simp only [size_setByte]; omega),
    getElem?_setByte (by simp only [size_setByte]; omega), getElem?_setByte (by omega), h1, h2, h3]
  by_cases hn : addr.toNat ≤ n ∧ n < addr.toNat + 4
  · have hcases : n = addr.toNat ∨ n = addr.toNat + 1 ∨ n = addr.toNat + 2 ∨
        n = addr.toNat + 3 := by omega
    rcases hcases with rfl | rfl | rfl | rfl <;> simp [wordByte]
  · rw [if_neg hn, if_neg (by omega), if_neg (by omega), if_neg (by omega), if_neg (by omega)]

-- A word is its four bytes.
theorem eq_of_wordByte {v w : Word} (h : ∀ k < 4, wordByte v k = wordByte w k) : v = w := by
  apply BitVec.eq_of_getLsbD_eq
  intro i hi
  have hk : i / 8 < 4 := by omega
  have hj : i % 8 < 8 := by omega
  have hbit : (wordByte v (i / 8))[i % 8] = (wordByte w (i / 8))[i % 8] := by rw [h _ hk]
  rwa [getElem_wordByte _ _ _ hj, getElem_wordByte _ _ _ hj, Nat.div_add_mod] at hbit

-- A word read back where it was written.
theorem readWord_writeWord {mem mem' : Memory} {addr value : Word}
    (h : mem.writeWord addr value = some mem') : mem'.readWord addr = some value := by
  obtain ⟨ha, hb, rfl⟩ := writeWord_eq_some h
  rw [readWord_of_aligned ha (by rw [size_setWord]; exact hb), Option.some.injEq]
  apply eq_of_wordByte
  intro k hk
  have haddr := toNat_add_of_aligned addr k ha hk
  have hin : (addr + BitVec.ofNat 32 k).toNat < (mem.setWord addr value).size := by
    rw [haddr, size_setWord]
    omega
  have hbyte := getElem?_byteAt hin
  rw [getElem?_setWord ha hb, haddr, if_pos (by omega), Option.some.injEq] at hbyte
  rw [wordByte_wordAt _ _ hk, ← hbyte, Nat.add_sub_cancel_left]

section LoadWords

variable {addr : Word}

theorem toNat_loadAddr {k : Nat} (h : addr.toNat + k * 4 < 2 ^ 32) :
    (addr + BitVec.ofNat 32 (k * 4)).toNat = addr.toNat + k * 4 := by
  rw [BitVec.toNat_add, BitVec.toNat_ofNat]
  omega

-- load_words leaves the words before the one it has reached.
theorem readWord_loadWordsFrom_before {i k : Nat} {words : List Word} (mem : Memory) (hk : k < i)
    (hlt : addr.toNat + (i + words.length) * 4 ≤ 2 ^ 32) :
    (loadWordsFrom addr i words mem).readWord (addr + BitVec.ofNat 32 (k * 4)) =
      mem.readWord (addr + BitVec.ofNat 32 (k * 4)) := by
  induction words generalizing i mem with
  | nil => rfl
  | cons word words ih =>
    rw [List.length_cons] at hlt
    rw [loadWordsFrom, ih _ (by omega) (by omega)]
    cases hw : mem.writeWord (addr + BitVec.ofNat 32 (i * 4)) word with
    | none => rfl
    | some mem' =>
      refine readWord_writeWord_ne hw fun heq => ?_
      have hnat := congrArg BitVec.toNat heq
      rw [toNat_loadAddr (by omega), toNat_loadAddr (by omega)] at hnat
      omega

-- Every word that load_words has stored is there.
theorem readWord_loadWordsFrom (ha : addr.toNat % 4 = 0) {i j : Nat} {words : List Word} {word : Word}
    (mem : Memory) (hsize : addr.toNat + (i + words.length) * 4 ≤ mem.size)
    (hlt : addr.toNat + (i + words.length) * 4 ≤ 2 ^ 32) (hj : words[j]? = some word) :
    (loadWordsFrom addr i words mem).readWord (addr + BitVec.ofNat 32 ((i + j) * 4)) =
      some word := by
  induction words generalizing i j mem with
  | nil => cases hj
  | cons first words ih =>
    rw [List.length_cons] at hsize hlt
    have haddr : (addr + BitVec.ofNat 32 (i * 4)).toNat = addr.toNat + i * 4 :=
      toNat_loadAddr (by omega)
    have hw : mem.writeWord (addr + BitVec.ofNat 32 (i * 4)) first =
        some (mem.setWord (addr + BitVec.ofNat 32 (i * 4)) first) :=
      writeWord_of_aligned (by omega) (by omega) first
    rw [loadWordsFrom, hw, Option.getD_some]
    cases j with
    | zero =>
      obtain rfl := Option.some.inj hj
      rw [readWord_loadWordsFrom_before _ (by omega) (by omega)]
      exact readWord_writeWord hw
    | succ j =>
      have hindex : i + (j + 1) = i + 1 + j := by omega
      rw [hindex]
      exact ih _ (by rw [size_setWord]; omega) (by omega) hj

theorem loadWords_zero (mem : Memory) (words : List Word) :
    mem.loadWords 0#32 words =
      some (if words.length * 4 ≤ mem.size then (true, loadWordsFrom 0#32 0 words mem)
        else (false, mem)) := by
  have hin : mem.inBounds 0#32 (words.length * 4) = decide (words.length * 4 ≤ mem.size) := by
    rw [inBounds, BitVec.toNat_ofNat, Nat.zero_mod, Nat.zero_add]
    rfl
  rw [loadWords, if_neg (by decide), loadWordsFits, hin]
  by_cases hfits : words.length * 4 ≤ mem.size
  · simp [hfits]
  · simp [hfits]

theorem loadWords_ofSize {sizeBytes : Nat} {words : List Word}
    (hfits : words.length * 4 ≤ sizeBytes) : (ofSize sizeBytes).loadWords 0#32 words =
      some (true, loadWordsFrom 0#32 0 words (.ofSize sizeBytes)) := by
  rw [loadWords_zero, size_ofSize, if_pos hfits]

end LoadWords

end ClearCore.Isa.Memory
