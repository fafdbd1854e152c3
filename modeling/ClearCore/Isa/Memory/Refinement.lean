import ClearCore.Isa.Memory.Lemmas
import ClearCore.Library.ByteMap

-- Memory as a little-endian byte array: what any sequence of calls answers and leaves behind.

namespace ClearCore.Isa

namespace Memory

inductive Call
  | readWord (addr : Word)
  | readHalf (addr : Word)
  | readByte (addr : Word)
  | writeWord (addr value : Word)
  | writeHalf (addr : Word) (value : Half)
  | writeByte (addr : Word) (value : Byte)
  | loadWords (addr : Word) (words : List Word)
deriving DecidableEq, Repr

inductive Reply
  | word (value : Option Word)
  | half (value : Option Half)
  | byte (value : Option Byte)
  | ok (ok : Bool)
deriving DecidableEq, Repr

-- A write answers whether it succeeded; the memory of a failed one is the old one.
def written (mem : Memory) (out : Option Memory) : Reply × Memory := (.ok out.isSome, out.getD mem)

-- `none` is a failed Expects, which ends the program.
def perform (mem : Memory) : Call → Option (Reply × Memory)
  | .readWord addr => some (.word (mem.readWord addr), mem)
  | .readHalf addr => some (.half (mem.readHalf addr), mem)
  | .readByte addr => some (.byte (mem.readByte addr), mem)
  | .writeWord addr value => some (mem.written (mem.writeWord addr value))
  | .writeHalf addr value => some (mem.written (mem.writeHalf addr value))
  | .writeByte addr value => some (mem.written (mem.writeByte addr value))
  | .loadWords addr words => (mem.loadWords addr words).map (Prod.map Reply.ok id)

def performAll (mem : Memory) : List Call → Option (List Reply × Memory)
  | [] => some ([], mem)
  | call :: calls =>
      (mem.perform call).bind fun (reply, next) =>
        (next.performAll calls).map fun (replies, last) => (reply :: replies, last)

-- The calls that meet the precondition of load_words.
def Call.Allowed : Call → Prop
  | .loadWords addr _ => 4 ∣ addr.toNat
  | _ => True

-- The bytes a call stores if it succeeds, with its alignment and its address.
def Call.stores : Call → Option (ℕ × ℕ × List Byte)
  | .writeWord addr value => some (4, addr.toNat, bytesOf 4 value.toNat)
  | .writeHalf addr value => some (2, addr.toNat, bytesOf 2 value.toNat)
  | .writeByte addr value => some (1, addr.toNat, bytesOf 1 value.toNat)
  | .loadWords addr words => some (4, addr.toNat, words.flatMap fun word => bytesOf 4 word.toNat)
  | _ => none

end Memory

-- What the calls do to a byte array.
namespace ByteArraySpec

open Memory

def reply (m : ByteMap) : Call → Reply
  | .readWord addr => .word ((m.load 4 addr.toNat).map (BitVec.ofNat 32))
  | .readHalf addr => .half ((m.load 2 addr.toNat).map (BitVec.ofNat 16))
  | .readByte addr => .byte ((m.load 1 addr.toNat).map (BitVec.ofNat 8))
  | call => .ok (call.stores.any fun (align, addr, bytes) => (m.store align addr bytes).1)

def after (m : ByteMap) (call : Call) : ByteMap :=
  match call.stores with
  | none => m
  | some (align, addr, bytes) => (m.store align addr bytes).2

def replies (m : ByteMap) : List Call → List Reply
  | [] => []
  | call :: calls => reply m call :: replies (after m call) calls

-- The byte a call leaves at `a`, if it succeeds and stores there.
def storedAt (size : ℕ) (a : ℕ) (call : Call) : Option Byte :=
  call.stores.bind fun (align, addr, bytes) =>
    if align ∣ addr ∧ addr + bytes.length ≤ size then ByteMap.covering addr bytes a else none

-- The byte most recently written to `a`, or the one that was there.
def latest (m : ByteMap) (calls : List Call) (a : ℕ) : Byte :=
  ((calls.filterMap (storedAt m.size a)).getLast?).getD (m.byte a)

end ByteArraySpec

namespace Memory

-- The byte array a memory stands for.
def bytes (mem : Memory) : ByteMap where
  size := mem.size
  byte a := mem.data.getD a 0

section Bytes

variable (mem : Memory)

theorem size_bytes : mem.bytes.size = mem.size := rfl

theorem byteAt_eq (addr : Word) : mem.byteAt addr = mem.bytes.byte addr.toNat := rfl

-- A byte stored in bounds.
theorem bytes_setByte {addr : Word} (h : addr.toNat < mem.size) (value : Byte) :
    (mem.setByte addr value).bytes = mem.bytes.put addr.toNat [value] := by
  unfold bytes ByteMap.put
  rw [ByteMap.mk.injEq]
  refine ⟨size_setByte mem addr value, funext fun a => ?_⟩
  dsimp only
  rw [Array.getD_eq_getD_getElem?, getElem?_setByte h, Array.getD_eq_getD_getElem?]
  unfold ByteMap.covering
  by_cases ha : a = addr.toNat
  · subst ha
    simp
  · rw [if_neg ha]
    by_cases hle : addr.toNat ≤ a
    · rw [if_pos hle, List.getElem?_eq_none (by simp only [List.length_singleton]; omega)]
      rfl
    · rw [if_neg hle]
      rfl

-- Byte `k` of a value.
theorem setWidth_shift {w : ℕ} (hw : 8 ≤ w) (value : BitVec w) (k : ℕ) :
    ((value >>> k) &&& BitVec.ofNat w 0xFF).setWidth 8 = BitVec.ofNat 8 (value.toNat / 2 ^ k) := by
  have hlow : 255 < 2 ^ w := lt_of_lt_of_le (by decide) (Nat.pow_le_pow_right (by decide) hw)
  have hmask : ∀ n : ℕ, n &&& 255 = n % 2 ^ 8 := fun n => Nat.and_two_pow_sub_one_eq_mod n 8
  apply BitVec.eq_of_toNat_eq
  rw [BitVec.toNat_setWidth, BitVec.toNat_and, BitVec.toNat_ushiftRight, BitVec.toNat_ofNat,
    BitVec.toNat_ofNat, Nat.mod_eq_of_lt hlow, hmask, Nat.mod_mod, Nat.shiftRight_eq_div_pow]

theorem and_one_eq_zero (addr : Word) : addr &&& 0x1#32 = 0#32 ↔ 2 ∣ addr.toNat := by
  have h : (addr &&& 0x1#32).toNat = addr.toNat % 2 := by
    rw [BitVec.toNat_and]
    exact Nat.and_two_pow_sub_one_eq_mod addr.toNat 1
  rw [Nat.dvd_iff_mod_eq_zero, ← h, ← BitVec.toNat_inj]
  rfl

-- The guards of the accesses.
theorem word_accessible (addr : Word) :
    (addr &&& 3 ≠ 0 ∨ ¬mem.inBounds addr 4) ↔ ¬mem.bytes.Accessible 4 addr.toNat 4 := by
  change (addr &&& 0x3#32 ≠ 0#32 ∨ ¬mem.inBounds addr 4 = true) ↔ _
  rw [ByteMap.Accessible, Nat.dvd_iff_mod_eq_zero, ← and_three_eq_zero, not_and_or, inBounds,
    decide_eq_true_iff, size_bytes, size]

theorem half_accessible (addr : Word) :
    (addr &&& 1 ≠ 0 ∨ ¬mem.inBounds addr 2) ↔ ¬mem.bytes.Accessible 2 addr.toNat 2 := by
  change (addr &&& 0x1#32 ≠ 0#32 ∨ ¬mem.inBounds addr 2 = true) ↔ _
  rw [ByteMap.Accessible, ← and_one_eq_zero, not_and_or, inBounds, decide_eq_true_iff, size_bytes,
    size]

theorem byte_accessible (addr : Word) :
    (¬mem.inBounds addr 1) ↔ ¬mem.bytes.Accessible 1 addr.toNat 1 := by
  rw [ByteMap.Accessible, inBounds, decide_eq_true_iff, size_bytes, size]
  simp

-- Putting a byte in front of what lies above it.
theorem or_shiftLeft {a k : ℕ} (h : a < 2 ^ k) (b : ℕ) : a ||| b <<< k = a + 2 ^ k * b := by
  rw [Nat.or_comm, ← Nat.shiftLeft_add_eq_or_of_lt h, Nat.shiftLeft_eq, Nat.mul_comm, Nat.add_comm]

-- A byte moved up inside a wider value.
theorem toNat_setWidth_shiftLeft {w : ℕ} (b : Byte) {k : ℕ} (h : k + 8 ≤ w) :
    (b.setWidth w <<< k).toNat = b.toNat <<< k := by
  have hb : b.toNat < 2 ^ 8 := b.isLt
  have hle : 2 ^ 8 ≤ 2 ^ w := Nat.pow_le_pow_right (by decide) (by omega)
  have hlt : b.toNat * 2 ^ k < 2 ^ w :=
    calc b.toNat * 2 ^ k < 2 ^ 8 * 2 ^ k := Nat.mul_lt_mul_of_pos_right hb (Nat.two_pow_pos k)
      _ = 2 ^ (k + 8) := by rw [Nat.pow_add, Nat.mul_comm]
      _ ≤ 2 ^ w := Nat.pow_le_pow_right (by decide) h
  rw [BitVec.toNat_shiftLeft, BitVec.toNat_setWidth, Nat.mod_eq_of_lt (Nat.lt_of_lt_of_le hb hle),
    Nat.shiftLeft_eq, Nat.mod_eq_of_lt hlt]

theorem word_eq (a b c d : Byte) :
    a.setWidth 32 ||| b.setWidth 32 <<< 8 ||| c.setWidth 32 <<< 16 ||| d.setWidth 32 <<< 24 =
      BitVec.ofNat 32 (littleEndian [a, b, c, d]) := by
  have ha := a.isLt
  have hb := b.isLt
  have hc := c.isLt
  have hd := d.isLt
  apply BitVec.eq_of_toNat_eq
  simp only [BitVec.toNat_or, littleEndian_cons, littleEndian_nil, BitVec.toNat_ofNat]
  rw [toNat_setWidth_shiftLeft b (by decide), toNat_setWidth_shiftLeft c (by decide),
    toNat_setWidth_shiftLeft d (by decide), BitVec.toNat_setWidth, Nat.mod_eq_of_lt (by omega),
    or_shiftLeft ha, or_shiftLeft (k := 16) (by omega), or_shiftLeft (k := 24) (by omega)]
  omega

theorem half_eq (a b : Byte) :
    a.setWidth 16 ||| b.setWidth 16 <<< 8 = BitVec.ofNat 16 (littleEndian [a, b]) := by
  have ha := a.isLt
  have hb := b.isLt
  apply BitVec.eq_of_toNat_eq
  simp only [BitVec.toNat_or, littleEndian_cons, littleEndian_nil, BitVec.toNat_ofNat]
  rw [toNat_setWidth_shiftLeft b (by decide), BitVec.toNat_setWidth, Nat.mod_eq_of_lt (by omega),
    or_shiftLeft (by omega)]
  omega

theorem toNat_succ {addr : Word} (h : 2 ∣ addr.toNat) : (addr + 1).toNat = addr.toNat + 1 := by
  have hlt := addr.isLt
  rw [BitVec.toNat_add]
  change (addr.toNat + 1) % 2 ^ 32 = _
  omega

-- The reads.
theorem readWord_bytes (addr : Word) :
    mem.readWord addr = (mem.bytes.load 4 addr.toNat).map (BitVec.ofNat 32) := by
  rw [readWord, ByteMap.load]
  by_cases h : mem.bytes.Accessible 4 addr.toNat 4
  · have h4 : addr.toNat % 4 = 0 := Nat.mod_eq_zero_of_dvd h.1
    have h1 : (addr + 1).toNat = addr.toNat + 1 := toNat_add_of_aligned addr 1 h4 (by decide)
    have h2 : (addr + 2).toNat = addr.toNat + 2 := toNat_add_of_aligned addr 2 h4 (by decide)
    have h3 : (addr + 3).toNat = addr.toNat + 3 := toNat_add_of_aligned addr 3 h4 (by decide)
    have hlist : mem.bytes.bytes addr.toNat 4 = [mem.byteAt addr, mem.byteAt (addr + 1),
        mem.byteAt (addr + 2), mem.byteAt (addr + 3)] := by
      simp only [byteAt_eq, h1, h2, h3]
      rfl
    rw [if_neg (by rw [word_accessible]; exact not_not_intro h), if_pos h, hlist, wordAt, word_eq]
    rfl
  · rw [if_pos ((mem.word_accessible addr).mpr h), if_neg h]
    rfl

theorem readHalf_bytes (addr : Word) :
    mem.readHalf addr = (mem.bytes.load 2 addr.toNat).map (BitVec.ofNat 16) := by
  rw [readHalf, ByteMap.load]
  by_cases h : mem.bytes.Accessible 2 addr.toNat 2
  · have hlist : mem.bytes.bytes addr.toNat 2 = [mem.byteAt addr, mem.byteAt (addr + 1)] := by
      simp only [byteAt_eq, toNat_succ h.1]
      rfl
    rw [if_neg (by rw [half_accessible]; exact not_not_intro h), if_pos h, hlist, half_eq]
    rfl
  · rw [if_pos ((mem.half_accessible addr).mpr h), if_neg h]
    rfl

theorem readByte_bytes (addr : Word) :
    mem.readByte addr = (mem.bytes.load 1 addr.toNat).map (BitVec.ofNat 8) := by
  rw [readByte, ByteMap.load]
  by_cases h : mem.bytes.Accessible 1 addr.toNat 1
  · have hlist : mem.bytes.bytes addr.toNat 1 = [mem.byteAt addr] := rfl
    rw [if_neg (by rw [byte_accessible]; exact not_not_intro h), if_pos h, hlist]
    simp
  · rw [if_pos ((mem.byte_accessible addr).mpr h), if_neg h]
    rfl

-- Byte 0 of a value.
theorem setWidth_low {w : ℕ} (hw : 8 ≤ w) (value : BitVec w) :
    (value &&& BitVec.ofNat w 0xFF).setWidth 8 = BitVec.ofNat 8 value.toNat := by
  have h := setWidth_shift hw value 0
  rwa [BitVec.ushiftRight_zero, Nat.pow_zero, Nat.div_one] at h

-- The bytes of a word, as setWord stores them.
theorem bytes_setWord {addr : Word} (h : mem.bytes.Accessible 4 addr.toNat 4) (value : Word) :
    (mem.setWord addr value).bytes = mem.bytes.put addr.toNat (bytesOf 4 value.toNat) := by
  obtain ⟨hdvd, hle⟩ := h
  rw [size_bytes] at hle
  have h4 : addr.toNat % 4 = 0 := Nat.mod_eq_zero_of_dvd hdvd
  have h1 : (addr + 1).toNat = addr.toNat + 1 := toNat_add_of_aligned addr 1 h4 (by decide)
  have h2 : (addr + 2).toNat = addr.toNat + 2 := toNat_add_of_aligned addr 2 h4 (by decide)
  have h3 : (addr + 3).toNat = addr.toNat + 3 := toNat_add_of_aligned addr 3 h4 (by decide)
  have hlist : bytesOf 4 value.toNat =
      [(value &&& 0xFF).setWidth 8, ((value >>> 8) &&& 0xFF).setWidth 8,
        ((value >>> 16) &&& 0xFF).setWidth 8, ((value >>> 24) &&& 0xFF).setWidth 8] := by
    have b0 := setWidth_low (w := 32) (by decide) value
    have b1 := setWidth_shift (w := 32) (by decide) value 8
    have b2 := setWidth_shift (w := 32) (by decide) value 16
    have b3 := setWidth_shift (w := 32) (by decide) value 24
    simp only [bytesOf, Nat.div_div_eq_div_mul, Nat.reduceMul]
    exact congrArg₂ _ b0.symm (congrArg₂ _ b1.symm (congrArg₂ _ b2.symm (congrArg₂ _ b3.symm rfl)))
  have hput := ByteMap.put_four mem.bytes addr.toNat ((value &&& 0xFF).setWidth 8)
    (((value >>> 8) &&& 0xFF).setWidth 8) (((value >>> 16) &&& 0xFF).setWidth 8)
    (((value >>> 24) &&& 0xFF).setWidth 8)
  rw [hlist, hput, setWord, bytes_setByte, bytes_setByte, bytes_setByte, bytes_setByte, h1, h2, h3]
  all_goals
    repeat rw [size_setByte]
    omega

theorem bytes_setHalf {addr : Word} (h : mem.bytes.Accessible 2 addr.toNat 2) (value : Half) :
    ((mem.setByte addr ((value &&& 0xFF).setWidth 8)).setByte (addr + 1)
      (((value >>> 8) &&& 0xFF).setWidth 8)).bytes =
      mem.bytes.put addr.toNat (bytesOf 2 value.toNat) := by
  obtain ⟨hdvd, hle⟩ := h
  rw [size_bytes] at hle
  have h1 := toNat_succ hdvd
  have hlist : bytesOf 2 value.toNat =
      [(value &&& 0xFF).setWidth 8, ((value >>> 8) &&& 0xFF).setWidth 8] := by
    have b0 := setWidth_low (w := 16) (by decide) value
    have b1 := setWidth_shift (w := 16) (by decide) value 8
    exact congrArg₂ _ b0.symm (congrArg₂ _ b1.symm rfl)
  rw [hlist, ByteMap.put_cons, bytes_setByte, bytes_setByte, h1]
  all_goals
    repeat rw [size_setByte]
    omega

-- The writes.
theorem writeWord_bytes (addr value : Word) :
    (mem.written (mem.writeWord addr value)).map id bytes =
      (mem.bytes.store 4 addr.toNat (bytesOf 4 value.toNat)).map Reply.ok id := by
  rw [writeWord, ByteMap.store, length_bytesOf]
  by_cases h : mem.bytes.Accessible 4 addr.toNat 4
  · rw [if_neg (by rw [word_accessible]; exact not_not_intro h), if_pos h]
    exact congrArg (Prod.mk _) (mem.bytes_setWord h value)
  · rw [if_pos ((mem.word_accessible addr).mpr h), if_neg h]
    rfl

theorem writeHalf_bytes (addr : Word) (value : Half) :
    (mem.written (mem.writeHalf addr value)).map id bytes =
      (mem.bytes.store 2 addr.toNat (bytesOf 2 value.toNat)).map Reply.ok id := by
  rw [writeHalf, ByteMap.store, length_bytesOf]
  by_cases h : mem.bytes.Accessible 2 addr.toNat 2
  · rw [if_neg (by rw [half_accessible]; exact not_not_intro h), if_pos h]
    exact congrArg (Prod.mk _) (mem.bytes_setHalf h value)
  · rw [if_pos ((mem.half_accessible addr).mpr h), if_neg h]
    rfl

theorem writeByte_bytes (addr : Word) (value : Byte) :
    (mem.written (mem.writeByte addr value)).map id bytes =
      (mem.bytes.store 1 addr.toNat (bytesOf 1 value.toNat)).map Reply.ok id := by
  have hlist : bytesOf 1 value.toNat = [value] := by simp [bytesOf]
  rw [writeByte, ByteMap.store, hlist]
  by_cases h : mem.bytes.Accessible 1 addr.toNat 1
  · rw [if_neg (by rw [byte_accessible]; exact not_not_intro h), List.length_singleton, if_pos h]
    exact congrArg (Prod.mk _) (mem.bytes_setByte h.2 value)
  · rw [if_pos ((mem.byte_accessible addr).mpr h), List.length_singleton, if_neg h]
    rfl

-- load_words, from element `i` on.
theorem bytes_loadWordsFrom {addr : Word} (ha : 4 ∣ addr.toNat) (words : List Word) {i : ℕ}
    (hmem : addr.toNat + (i + words.length) * 4 ≤ mem.size)
    (hlt : addr.toNat + (i + words.length) * 4 ≤ 2 ^ 32) :
    (loadWordsFrom addr i words mem).bytes =
      mem.bytes.put (addr.toNat + i * 4) (words.flatMap fun word => bytesOf 4 word.toNat) := by
  induction words generalizing i mem with
  | nil => rw [List.flatMap_nil, ByteMap.put_nil, loadWordsFrom]
  | cons word words ih =>
    rw [List.length_cons] at hmem hlt
    have haddr : (addr + BitVec.ofNat 32 (i * 4)).toNat = addr.toNat + i * 4 :=
      toNat_loadAddr (by omega)
    have hacc : mem.bytes.Accessible 4 (addr + BitVec.ofNat 32 (i * 4)).toNat 4 := by
      rw [haddr]
      exact ⟨by omega, by rw [size_bytes]; omega⟩
    have hw := writeWord_of_aligned (Nat.mod_eq_zero_of_dvd hacc.1) hacc.2 word
    rw [loadWordsFrom, hw, Option.getD_some, ih _ (by rw [size_setWord]; omega) (by omega),
      mem.bytes_setWord hacc, haddr, List.flatMap_cons, ByteMap.put_append, length_bytesOf,
      Nat.add_mul, Nat.one_mul, Nat.add_assoc]

theorem length_wordBytes (words : List Word) :
    (words.flatMap fun word => bytesOf 4 word.toNat).length = words.length * 4 := by
  induction words with
  | nil => rfl
  | cons word words ih =>
    rw [List.flatMap_cons, List.length_append, length_bytesOf, ih, List.length_cons]
    omega

theorem loadWords_bytes {addr : Word} (hsize : mem.size ≤ 2 ^ 32) (ha : 4 ∣ addr.toNat)
    (words : List Word) :
    (mem.loadWordsFits addr words).map Reply.ok bytes =
      (mem.bytes.store 4 addr.toNat (words.flatMap fun word => bytesOf 4 word.toNat)).map
        Reply.ok id := by
  have hbound : mem.inBounds addr (words.length * 4) = true ↔
      mem.bytes.Accessible 4 addr.toNat (words.length * 4) := by
    rw [ByteMap.Accessible, and_iff_right ha, inBounds, decide_eq_true_iff, size_bytes, size]
  rw [loadWordsFits, ByteMap.store, length_wordBytes]
  by_cases h : mem.bytes.Accessible 4 addr.toNat (words.length * 4)
  · have hle : addr.toNat + words.length * 4 ≤ mem.size := h.2
    have hbytes := mem.bytes_loadWordsFrom ha words (i := 0) (by omega) (by omega)
    rw [Nat.zero_mul, Nat.add_zero] at hbytes
    rw [if_neg (not_not_intro (hbound.mpr h)), if_pos h]
    exact congrArg (Prod.mk _) hbytes
  · rw [if_pos (fun hb => h (hbound.mp hb)), if_neg h]
    rfl

-- One call.
theorem perform_bytes (hsize : mem.size ≤ 2 ^ 32) {call : Call} (hcall : call.Allowed) :
    (mem.perform call).map (Prod.map id bytes) =
      some (ByteArraySpec.reply mem.bytes call, ByteArraySpec.after mem.bytes call) := by
  cases call with
  | readWord addr => exact congrArg (fun r => some (Reply.word r, mem.bytes)) (mem.readWord_bytes addr)
  | readHalf addr => exact congrArg (fun r => some (Reply.half r, mem.bytes)) (mem.readHalf_bytes addr)
  | readByte addr => exact congrArg (fun r => some (Reply.byte r, mem.bytes)) (mem.readByte_bytes addr)
  | writeWord addr value => exact congrArg some (mem.writeWord_bytes addr value)
  | writeHalf addr value => exact congrArg some (mem.writeHalf_bytes addr value)
  | writeByte addr value => exact congrArg some (mem.writeByte_bytes addr value)
  | loadWords addr words =>
    have hz : addr &&& 0x3#32 = 0#32 := (and_three_eq_zero addr).mpr (Nat.mod_eq_zero_of_dvd hcall)
    have hloads : mem.loadWords addr words = some (mem.loadWordsFits addr words) :=
      if_neg (not_not_intro hz)
    rw [perform, hloads]
    exact congrArg some (mem.loadWords_bytes hsize hcall words)

end Bytes

end Memory

namespace ByteArraySpec

open Memory

theorem size_after (m : ByteMap) (call : Call) : (after m call).size = m.size := by
  unfold after ByteMap.store
  cases call.stores with
  | none => rfl
  | some store =>
    dsimp only
    split <;> rfl

theorem byte_after (m : ByteMap) (call : Call) (a : ℕ) :
    (after m call).byte a = (storedAt m.size a call).getD (m.byte a) := by
  unfold after storedAt
  cases call.stores with
  | none => rfl
  | some store =>
    obtain ⟨align, addr, bytes⟩ := store
    dsimp only [Option.bind_some]
    rw [ByteMap.store]
    by_cases h : m.Accessible align addr bytes.length
    · rw [if_pos h, if_pos (show align ∣ addr ∧ addr + bytes.length ≤ m.size from h)]
      rfl
    · rw [if_neg h, if_neg (show ¬(align ∣ addr ∧ addr + bytes.length ≤ m.size) from h)]
      rfl

-- After any calls every byte is the one most recently written.
theorem byte_foldl_after (m : ByteMap) (calls : List Call) (a : ℕ) :
    (calls.foldl after m).byte a = latest m calls a := by
  induction calls generalizing m with
  | nil => rfl
  | cons call calls ih =>
    rw [List.foldl_cons, ih, latest, latest, size_after, byte_after, List.filterMap_cons]
    cases storedAt m.size a call with
    | none => rfl
    | some b => rw [List.getLast?_cons, Option.getD_some, Option.getD_some]

end ByteArraySpec

-- Whatever calls a memory gets, it answers like the byte array and stays like it; a byte is the
-- one most recently written there.
theorem Memory.performAll_bytes {mem : Memory} (hsize : mem.size ≤ 2 ^ 32) {calls : List Memory.Call}
    (hcalls : ∀ call ∈ calls, call.Allowed) :
    ∃ last, mem.performAll calls = some (ByteArraySpec.replies mem.bytes calls, last) ∧
      last.bytes = calls.foldl ByteArraySpec.after mem.bytes ∧
      ∀ a, last.bytes.byte a = ByteArraySpec.latest mem.bytes calls a := by
  suffices hrun : ∃ last, mem.performAll calls = some (ByteArraySpec.replies mem.bytes calls, last) ∧
      last.bytes = calls.foldl ByteArraySpec.after mem.bytes by
    obtain ⟨last, hrun, hbytes⟩ := hrun
    exact ⟨last, hrun, hbytes, fun a => by rw [hbytes, ByteArraySpec.byte_foldl_after]⟩
  induction calls generalizing mem with
  | nil => exact ⟨mem, rfl, rfl⟩
  | cons call calls ih =>
    rw [List.forall_mem_cons] at hcalls
    obtain ⟨⟨reply, next⟩, hperform, heq⟩ :=
      Option.map_eq_some_iff.mp (mem.perform_bytes hsize hcalls.1)
    obtain ⟨hreply, hnext⟩ := Prod.mk.inj heq
    have hnextSize : next.size = mem.size := by
      rw [← size_bytes, hnext, ByteArraySpec.size_after, size_bytes]
    obtain ⟨last, hrun, hlast⟩ := ih (by rw [hnextSize]; exact hsize) hcalls.2
    refine ⟨last, ?_, ?_⟩
    · rw [performAll, hperform, Option.bind_some]
      dsimp only
      rw [hrun, hnext, ByteArraySpec.replies, ← hreply]
      rfl
    · rw [hlast, hnext, List.foldl_cons]

-- A word, the halves and bytes in it, and two writes that fail.
theorem Memory.performAll_bytes_mixed :
    let mem := Memory.ofSize 8
    let calls : List Memory.Call :=
      [.writeWord 4#32 0x11223344#32, .writeByte 5#32 0xAA#8, .writeHalf 7#32 0x5555#16,
        .loadWords 4#32 [1#32, 2#32], .readWord 4#32, .readHalf 6#32]
    mem.size ≤ 2 ^ 32 ∧ (∀ call ∈ calls, call.Allowed) ∧
      ∃ last, mem.performAll calls = some (ByteArraySpec.replies mem.bytes calls, last) ∧
        last.bytes = calls.foldl ByteArraySpec.after mem.bytes ∧
        ∀ a, last.bytes.byte a = ByteArraySpec.latest mem.bytes calls a := by
  have hsize : (Memory.ofSize 8).size ≤ 2 ^ 32 := by decide
  have hcalls : ∀ call ∈ ([.writeWord 4#32 0x11223344#32, .writeByte 5#32 0xAA#8,
      .writeHalf 7#32 0x5555#16, .loadWords 4#32 [1#32, 2#32], .readWord 4#32,
      .readHalf 6#32] : List Memory.Call), call.Allowed := by
    simp [Memory.Call.Allowed]
  exact ⟨hsize, hcalls, Memory.performAll_bytes hsize hcalls⟩

end ClearCore.Isa
