import ClearCore.Isa.Memory.Lemmas
import ClearCore.Mips.Reference

-- The operations of the ALU and the memory as functions on integers.

namespace ClearCore.Mips.Reference

open Isa

section Words

theorem wrap_toNat (w : Word) : wrap w.toNat = w := by
  rw [wrap, BitVec.ofInt_natCast, BitVec.ofNat_toNat, BitVec.setWidth_eq]

theorem wrap_natCast (n : ℕ) : wrap n = BitVec.ofNat 32 n := BitVec.ofInt_natCast 32 n

theorem wrap_toInt (w : Word) : wrap w.toInt = w := BitVec.ofInt_toInt

theorem wrap_add (m n : ℤ) : wrap (m + n) = wrap m + wrap n := BitVec.ofInt_add m n

theorem wrap_sub (m n : ℤ) : wrap (m - n) = wrap m - wrap n := by
  rw [wrap, wrap, wrap, Int.sub_eq_add_neg, BitVec.ofInt_add, BitVec.ofInt_neg,
    BitVec.sub_eq_add_neg]

theorem msb_iff_shift (w : Word) : w >>> 31 ≠ 0#32 ↔ w.msb = true := by
  rw [BitVec.msb_eq_decide, decide_eq_true_eq, ne_eq, ← BitVec.toNat_inj, BitVec.toNat_ushiftRight,
    Nat.shiftRight_eq_div_pow]
  have hlt := w.isLt
  simp only [BitVec.toNat_ofNat]
  omega

end Words

section Overflow

variable (a b : Word)

theorem overflowAdd_iff : Alu.overflowAdd a b (a + b) = true ↔ ¬InRange (a.toInt + b.toInt) := by
  have hover : a.saddOverflow b = true ↔ ¬InRange (a.toInt + b.toInt) := by
    simp only [BitVec.saddOverflow, Bool.or_eq_true, decide_eq_true_eq, InRange]
    omega
  rw [← hover, BitVec.saddOverflow_eq, Alu.overflowAdd, decide_eq_true_eq, msb_iff_shift,
    BitVec.msb_and, BitVec.msb_not, BitVec.msb_xor, BitVec.msb_xor]
  cases a.msb <;> cases b.msb <;> cases (a + b).msb <;> decide

theorem overflowSub_iff : Alu.overflowSub a b (a - b) = true ↔ ¬InRange (a.toInt - b.toInt) := by
  have hover : a.ssubOverflow b = true ↔ ¬InRange (a.toInt - b.toInt) := by
    simp only [BitVec.ssubOverflow, Bool.or_eq_true, decide_eq_true_eq, InRange]
    omega
  rw [← hover, BitVec.ssubOverflow_eq, Alu.overflowSub, decide_eq_true_eq, msb_iff_shift,
    BitVec.msb_and, BitVec.msb_xor, BitVec.msb_xor]
  cases a.msb <;> cases b.msb <;> cases (a - b).msb <;> decide

end Overflow

section Values

variable (a b : Word) (shamt : BitVec 5)

theorem value_add : Alu.value .ADD a b shamt = wrap (a.toInt + b.toInt) := by
  rw [wrap_add, wrap_toInt, wrap_toInt]
  rfl

theorem value_addu : Alu.value .ADDU a b shamt = wrap (a.toNat + b.toNat) := by
  rw [wrap_add, wrap_toNat, wrap_toNat]
  rfl

theorem value_sub : Alu.value .SUB a b shamt = wrap (a.toInt - b.toInt) := by
  rw [wrap_sub, wrap_toInt, wrap_toInt]
  rfl

theorem value_subu : Alu.value .SUBU a b shamt = wrap (a.toNat - b.toNat) := by
  rw [wrap_sub, wrap_toNat, wrap_toNat]
  rfl

theorem value_and : Alu.value .AND a b shamt = wrap (a.toNat &&& b.toNat : ℕ) := by
  rw [wrap_natCast]
  apply BitVec.eq_of_toNat_eq
  rw [BitVec.toNat_ofNat, Nat.mod_eq_of_lt (Nat.and_lt_two_pow _ b.isLt)]
  exact BitVec.toNat_and a b

theorem value_or : Alu.value .OR a b shamt = wrap (a.toNat ||| b.toNat : ℕ) := by
  rw [wrap_natCast]
  apply BitVec.eq_of_toNat_eq
  rw [BitVec.toNat_ofNat, Nat.mod_eq_of_lt (Nat.or_lt_two_pow a.isLt b.isLt)]
  exact BitVec.toNat_or a b

theorem value_xor : Alu.value .XOR a b shamt = wrap (a.toNat ^^^ b.toNat : ℕ) := by
  rw [wrap_natCast]
  apply BitVec.eq_of_toNat_eq
  rw [BitVec.toNat_ofNat, Nat.mod_eq_of_lt (Nat.xor_lt_two_pow a.isLt b.isLt)]
  exact BitVec.toNat_xor a b

theorem value_nor :
    Alu.value .NOR a b shamt = wrap (2 ^ 32 - 1 - (a.toNat ||| b.toNat : ℕ)) := by
  have hlt : a.toNat ||| b.toNat < 2 ^ 32 := Nat.or_lt_two_pow a.isLt b.isLt
  have hcast : (2 ^ 32 - 1 - (a.toNat ||| b.toNat : ℕ) : ℤ) =
      ((2 ^ 32 - 1 - (a.toNat ||| b.toNat) : ℕ) : ℤ) := by omega
  rw [hcast, wrap_natCast]
  apply BitVec.eq_of_toNat_eq
  rw [BitVec.toNat_ofNat, Nat.mod_eq_of_lt (by omega), Alu.value, BitVec.toNat_not,
    BitVec.toNat_or]

theorem value_slt : Alu.value .SLT a b shamt = wrap (if a.toInt < b.toInt then 1 else 0) := by
  rw [Alu.value]
  by_cases h : a.toInt < b.toInt
  · rw [if_pos (BitVec.slt_iff_toInt_lt.mpr h), if_pos h]
    rfl
  · rw [if_neg (mt BitVec.slt_iff_toInt_lt.mp h), if_neg h]
    rfl

theorem value_sltu : Alu.value .SLTU a b shamt = wrap (if a.toNat < b.toNat then 1 else 0) := by
  rw [Alu.value]
  by_cases h : a.toNat < b.toNat
  · rw [if_pos (BitVec.lt_def.mpr h), if_pos h]
    rfl
  · rw [if_neg (mt BitVec.lt_def.mp h), if_neg h]
    rfl

theorem value_sll : Alu.value .SLL a b shamt = wrap (b.toNat * 2 ^ shamt.toNat) := by
  have hcast : (b.toNat * 2 ^ shamt.toNat : ℤ) = ((b.toNat * 2 ^ shamt.toNat : ℕ) : ℤ) := by
    push_cast
    rfl
  rw [hcast, wrap_natCast]
  apply BitVec.eq_of_toNat_eq
  rw [BitVec.toNat_ofNat, Alu.value, BitVec.toNat_shiftLeft, Nat.shiftLeft_eq]

theorem value_srl : Alu.value .SRL a b shamt = wrap (b.toNat / 2 ^ shamt.toNat) := by
  have hcast : (b.toNat / 2 ^ shamt.toNat : ℤ) = ((b.toNat / 2 ^ shamt.toNat : ℕ) : ℤ) := by
    push_cast
    rfl
  have hlt : b.toNat / 2 ^ shamt.toNat < 2 ^ 32 :=
    Nat.lt_of_le_of_lt (Nat.div_le_self _ _) b.isLt
  rw [hcast, wrap_natCast]
  apply BitVec.eq_of_toNat_eq
  rw [BitVec.toNat_ofNat, Nat.mod_eq_of_lt hlt, Alu.value, BitVec.toNat_ushiftRight,
    Nat.shiftRight_eq_div_pow]

theorem value_sra : Alu.value .SRA a b shamt = wrap (b.toInt / 2 ^ shamt.toNat) := by
  rw [← wrap_toInt (Alu.value .SRA a b shamt), Alu.value, BitVec.toInt_sshiftRight,
    Int.shiftRight_eq_div_pow]
  push_cast
  rfl

theorem value_lui (imm : Half) :
    Alu.value .LUI a (imm.setWidth 32) shamt = wrap (imm.toNat * 2 ^ 16) := by
  have hcast : (imm.toNat * 2 ^ 16 : ℤ) = ((imm.toNat * 2 ^ 16 : ℕ) : ℤ) := by omega
  have himm := imm.isLt
  rw [hcast, wrap_natCast]
  apply BitVec.eq_of_toNat_eq
  rw [BitVec.toNat_ofNat, Alu.value, BitVec.toNat_shiftLeft, Nat.shiftLeft_eq,
    BitVec.toNat_setWidth, Nat.mod_eq_of_lt (by omega : imm.toNat < 2 ^ 32)]

end Values

section Access

variable {mem : Memory} {addr : Word}

theorem byte_lt (mem : Memory) (n : ℕ) : byte mem n < 256 := (mem.data.getD n 0).isLt

theorem byteAt_eq {k : ℕ} (hk : (addr + BitVec.ofNat 32 k).toNat = addr.toNat + k) :
    mem.byteAt (addr + BitVec.ofNat 32 k) = BitVec.ofNat 8 (byte mem (addr.toNat + k)) := by
  rw [byte, BitVec.ofNat_toNat, BitVec.setWidth_eq, Memory.byteAt, hk]

theorem wordByte_eq (word : Word) (k : ℕ) :
    Memory.wordByte word k = BitVec.ofNat 8 (word.toNat / 256 ^ k) := by
  have hmask : ∀ n : ℕ, n &&& 255 = n % 256 := fun n => Nat.and_two_pow_sub_one_eq_mod n 8
  have hpow : 2 ^ (8 * k) = 256 ^ k := by rw [Nat.pow_mul]
  apply BitVec.eq_of_toNat_eq
  rw [Memory.wordByte, BitVec.toNat_setWidth, BitVec.toNat_and, BitVec.toNat_ushiftRight,
    Nat.shiftRight_eq_div_pow, hpow, BitVec.toNat_ofNat]
  exact (congrArg (· % 2 ^ 8) (hmask _)).trans (Nat.mod_mod _ _)

theorem bytes_four (mem : Memory) (n : ℕ) :
    bytes mem n 4 = byte mem n + byte mem (n + 1) * 256 + byte mem (n + 2) * 65536 +
      byte mem (n + 3) * 16777216 := by
  simp only [bytes, Nat.add_zero]
  omega

theorem wordAt_eq (ha : addr.toNat % 4 = 0) : mem.wordAt addr = wrap (bytes mem addr.toNat 4) := by
  have h0 := byte_lt mem addr.toNat
  have h1 := byte_lt mem (addr.toNat + 1)
  have h2 := byte_lt mem (addr.toNat + 2)
  have h3 := byte_lt mem (addr.toNat + 3)
  apply Memory.eq_of_wordByte
  intro k hk
  rw [Memory.wordByte_wordAt _ _ hk, byteAt_eq (Memory.toNat_add_of_aligned addr k ha hk),
    wordByte_eq, wrap_natCast, BitVec.toNat_ofNat, bytes_four]
  apply BitVec.eq_of_toNat_eq
  rw [BitVec.toNat_ofNat, BitVec.toNat_ofNat]
  have hcases : k = 0 ∨ k = 1 ∨ k = 2 ∨ k = 3 := by omega
  rcases hcases with rfl | rfl | rfl | rfl
  · rw [Nat.add_zero]
    omega
  all_goals omega

theorem halfAt_eq (a b : Byte) :
    (a.setWidth 16 ||| b.setWidth 16 <<< 8).setWidth 32 =
      BitVec.ofNat 32 (a.toNat + b.toNat * 256) := by
  have ha := a.isLt
  have hb := b.isLt
  have hor : a.toNat ||| b.toNat <<< 8 = a.toNat + b.toNat * 256 := by
    rw [Nat.or_comm, ← Nat.shiftLeft_add_eq_or_of_lt ha, Nat.shiftLeft_eq, Nat.add_comm]
  apply BitVec.eq_of_toNat_eq
  rw [BitVec.toNat_setWidth, BitVec.toNat_or, BitVec.toNat_shiftLeft, BitVec.toNat_setWidth,
    BitVec.toNat_setWidth, BitVec.toNat_ofNat, Nat.mod_eq_of_lt (by omega : a.toNat < 2 ^ 16),
    Nat.mod_eq_of_lt (by omega : b.toNat < 2 ^ 16),
    Nat.mod_eq_of_lt (by rw [Nat.shiftLeft_eq]; omega : b.toNat <<< 8 < 2 ^ 16), hor]

theorem readWord_eq (mem : Memory) (addr : Word) :
    mem.readWord addr =
      if Accessible mem addr.toNat 4 then some (wrap (bytes mem addr.toNat 4)) else none := by
  by_cases h : Accessible mem addr.toNat 4
  · rw [if_pos h, Memory.readWord_of_aligned h.1 h.2, wordAt_eq h.1]
  · rw [if_neg h]
    cases hr : mem.readWord addr with
    | none => rfl
    | some word =>
      obtain ⟨ha, hb, -⟩ := Memory.readWord_eq_some hr
      exact absurd ⟨ha, hb⟩ h

theorem readHalf_eq (mem : Memory) (addr : Word) :
    (mem.readHalf addr).map (·.setWidth 32) =
      if Accessible mem addr.toNat 2 then some (wrap (bytes mem addr.toNat 2)) else none := by
  have hodd : addr &&& 0x1#32 = 0#32 ↔ addr.toNat % 2 = 0 := by
    rw [← BitVec.toNat_inj, BitVec.toNat_and]
    exact iff_of_eq (congrArg (· = 0) (Nat.and_two_pow_sub_one_eq_mod addr.toNat 1))
  by_cases h : Accessible mem addr.toNat 2
  · obtain ⟨ha, hb⟩ := h
    have hlt := addr.isLt
    have hnext : (addr + BitVec.ofNat 32 1).toNat = addr.toNat + 1 := by
      rw [BitVec.toNat_add, BitVec.toNat_ofNat]
      omega
    have hin : mem.inBounds addr 2 = true := decide_eq_true hb
    rw [if_pos ⟨ha, hb⟩, Memory.readHalf, if_neg (by simp [hin, hodd.mpr ha]), Option.map_some,
      halfAt_eq, ← wrap_natCast]
    simp only [bytes, byte, Memory.byteAt, Nat.add_zero, Nat.zero_add, Nat.pow_zero, Nat.pow_one,
      Nat.mul_one]
    rw [← hnext]
    rfl
  · rw [if_neg h, Memory.readHalf, if_pos, Option.map_none]
    by_contra hok
    simp only [not_or, not_not, ne_eq] at hok
    exact h ⟨hodd.mp hok.1, of_decide_eq_true hok.2⟩

theorem readByte_eq (mem : Memory) (addr : Word) :
    (mem.readByte addr).map (·.setWidth 32) =
      if Accessible mem addr.toNat 1 then some (wrap (bytes mem addr.toNat 1)) else none := by
  by_cases h : Accessible mem addr.toNat 1
  · have hin : mem.inBounds addr 1 = true := decide_eq_true h.2
    rw [if_pos h, Memory.readByte, if_neg (by simp [hin]), Option.map_some, Option.some.injEq, wrap_natCast]
    apply BitVec.eq_of_toNat_eq
    simp only [bytes, byte, Memory.byteAt, Nat.add_zero, Nat.zero_add, Nat.pow_zero, Nat.mul_one]
    rw [BitVec.toNat_setWidth, BitVec.toNat_ofNat]
  · rw [if_neg h, Memory.readByte, if_pos, Option.map_none]
    intro hin
    exact h ⟨Nat.mod_one _, of_decide_eq_true hin⟩

theorem storeWord_eq (ha : addr.toNat % 4 = 0) (hb : addr.toNat + 4 ≤ mem.size) (value : Word) :
    mem.setWord addr value = storeWord mem addr.toNat value := by
  apply Memory.eq_of_getElem?
  intro n
  rw [Memory.getElem?_setWord ha hb, storeWord, Array.getElem?_mapIdx]
  by_cases hn : addr.toNat ≤ n ∧ n < addr.toNat + 4
  · have hget : mem.data[n]? = some (mem.data.getD n 0) := by
      have hlt : n < mem.data.size := by
        rw [Memory.size] at hb
        omega
      simp [hlt]
    rw [if_pos hn, hget, Option.map_some, if_pos hn, wordByte_eq]
  · simp only [if_neg hn, Option.map_id']

theorem writeWord_eq (mem : Memory) (addr value : Word) :
    mem.writeWord addr value =
      if Accessible mem addr.toNat 4 then some (storeWord mem addr.toNat value) else none := by
  by_cases h : Accessible mem addr.toNat 4
  · rw [if_pos h, Memory.writeWord_of_aligned h.1 h.2, storeWord_eq h.1 h.2]
  · rw [if_neg h]
    cases hw : mem.writeWord addr value with
    | none => rfl
    | some next =>
      obtain ⟨ha, hb, -⟩ := Memory.writeWord_eq_some hw
      exact absurd ⟨ha, hb⟩ h

end Access

end ClearCore.Mips.Reference
