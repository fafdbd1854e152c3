import ClearCore.Mips.Decoder.Lemmas
import ClearCore.Mips.PipelineUnits
import ClearCore.Mips.Semantics

namespace ClearCore.Mips

open Isa

theorem sourceRegisters_a {raw : Word} {d : DecodedInstr} (hd : Decoder.decode raw = some d)
    {r : RegIdx} (h : (sourceRegisters d).a = some r) : r = d.rsIdx := by
  cases Decoder.decode_decoded hd with
  | special f himpl =>
    obtain ⟨rs, rt, rd, shamt, funct⟩ := f
    cases funct <;> simp_all [sourceRegisters, DecodedInstr.r, DecodedInstr.rsIdx]
  | cop0 f => simp [sourceRegisters] at h
  | immediate op i hop =>
    cases op <;> simp_all [sourceRegisters, DecodedInstr.i, DecodedInstr.rsIdx]
  | jump op hop => rcases Decoder.formatOf_eq_J hop with rfl | rfl <;> simp [sourceRegisters] at h

theorem sourceRegisters_b {raw : Word} {d : DecodedInstr} (hd : Decoder.decode raw = some d)
    {r : RegIdx} (h : (sourceRegisters d).b = some r) : r = d.rtIdx := by
  cases Decoder.decode_decoded hd with
  | special f himpl =>
    obtain ⟨rs, rt, rd, shamt, funct⟩ := f
    cases funct <;> simp_all [sourceRegisters, DecodedInstr.r, DecodedInstr.rtIdx]
  | cop0 f =>
    by_cases hmt : f.rs = 0x04#5 <;>
      simp_all [sourceRegisters, DecodedInstr.r, DecodedInstr.rtIdx]
  | immediate op i hop =>
    cases op <;>
      simp_all [sourceRegisters, DecodedInstr.i, DecodedInstr.rtIdx, Decoder.formatOf]
  | jump op hop => rcases Decoder.formatOf_eq_J hop with rfl | rfl <;> simp [sourceRegisters] at h

-- An instruction's action depends on its operands only through its source registers.
theorem Action.ofInstr_congr {raw : Word} {d : DecodedInstr} (hd : Decoder.decode raw = some d)
    (cp0 : Cp0) (pc : Word) {a a' b b' : Word}
    (ha : (sourceRegisters d).a ≠ none → a = a') (hb : (sourceRegisters d).b ≠ none → b = b') :
    Action.ofInstr d cp0 pc a b = Action.ofInstr d cp0 pc a' b' := by
  cases Decoder.decode_decoded hd with
  | special f himpl =>
    obtain ⟨rs, rt, rd, shamt, funct⟩ := f
    cases funct with
    | ERET | unnamed => simp [Decoder.implementedSpecial] at himpl
    | SLL | SRL | SRA =>
      obtain rfl := hb (by simp [sourceRegisters, DecodedInstr.r])
      rfl
    | JR | JALR =>
      obtain rfl := ha (by simp [sourceRegisters, DecodedInstr.r])
      rfl
    | _ =>
      obtain rfl := ha (by simp [sourceRegisters, DecodedInstr.r])
      obtain rfl := hb (by simp [sourceRegisters, DecodedInstr.r])
      rfl
  | cop0 f =>
    by_cases hmt : f.rs = 0x04#5
    · obtain rfl := hb (by simp [sourceRegisters, DecodedInstr.r, hmt])
      rfl
    · simp [Action.ofInstr, Action.ofCop0, DecodedInstr.r, hmt]
  | immediate op i hop =>
    cases op with
    | SPECIAL | COP0 | J | JAL | unnamed => simp [Decoder.formatOf] at hop
    | LUI => rfl
    | BEQ | BNE | SW =>
      obtain rfl := ha (by simp [sourceRegisters])
      obtain rfl := hb (by simp [sourceRegisters])
      rfl
    | _ =>
      obtain rfl := ha (by simp [sourceRegisters])
      rfl
  | jump op hop => rfl

end ClearCore.Mips
