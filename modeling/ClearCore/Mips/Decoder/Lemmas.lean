import ClearCore.Mips.Decoder
import Mathlib.Tactic.Common

namespace ClearCore.Mips.Decoder

open Isa

-- The shapes decode() produces. In each the format, the active variant and the
-- opcode agree, so no accessor reads the wrong variant.
inductive Decoded (word : Word) : DecodedInstr → Prop
  | special (fields : RFields) (himpl : implementedSpecial fields.funct) :
      Decoded word { raw := word, opcode := .SPECIAL, format := .R, fields := .r fields }
  | cop0 (fields : RFields) :
      Decoded word { raw := word, opcode := .COP0, format := .R, fields := .r fields }
  | immediate (op : Opcode) (fields : IFields) (hop : formatOf op = .I) :
      Decoded word { raw := word, opcode := op, format := .I, fields := .i fields }
  | jump (op : Opcode) (hop : formatOf op = .J) :
      Decoded word
        { raw := word, opcode := op, format := .J, fields := .j { target := bits word 25 0 } }

theorem formatOf_eq_R {op : Opcode} (h : formatOf op = .R) : op = .SPECIAL ∨ op = .COP0 := by
  cases op <;> simp_all [formatOf]

theorem formatOf_eq_J {op : Opcode} (h : formatOf op = .J) : op = .J ∨ op = .JAL := by
  cases op <;> simp_all [formatOf]

theorem decode_decoded {word : Word} {d : DecodedInstr} (h : decode word = some d) :
    Decoded word d := by
  unfold decode at h
  cases hf : formatOf (rawOpcode word) with
  | Unknown => simp [hf] at h
  | I =>
    simp only [hf, Option.some.injEq] at h
    subst h
    exact .immediate _ _ hf
  | J =>
    simp only [hf, Option.some.injEq] at h
    subst h
    exact .jump _ hf
  | R =>
    simp only [hf] at h
    split at h
    · cases h
    · rename_i himpl
      simp only [Option.some.injEq] at h
      subst h
      rcases formatOf_eq_R hf with hop | hop
      · rw [hop] at himpl ⊢
        exact .special _ (by simpa using himpl)
      · rw [hop]
        exact .cop0 _

theorem decode_raw {word : Word} {d : DecodedInstr} (h : decode word = some d) : d.raw = word := by
  cases decode_decoded h <;> rfl

-- The format names the active variant.
def FieldsMatch (d : DecodedInstr) : Prop :=
  match d.format, d.fields with
  | .R, .r _ | .I, .i _ | .J, .j _ => True
  | _, _ => False

theorem decode_fields {word : Word} {d : DecodedInstr} (h : decode word = some d) :
    FieldsMatch d := by
  cases decode_decoded h <;> trivial

theorem decode_opcode {word : Word} {d : DecodedInstr} (h : decode word = some d) :
    d.opcode = rawOpcode word := by
  unfold decode at h
  cases hf : formatOf (rawOpcode word) with
  | Unknown => simp [hf] at h
  | I | J =>
    simp only [hf, Option.some.injEq] at h
    simp [← h]
  | R =>
    simp only [hf] at h
    split at h
    · cases h
    · simp only [Option.some.injEq] at h
      simp [← h]

-- A J or JAL opcode always decodes.
theorem decode_of_jump {word : Word} (h : formatOf (rawOpcode word) = .J) :
    decode word = some { raw := word, opcode := rawOpcode word, format := .J,
                         fields := .j { target := bits word 25 0 } } := by
  simp [decode, h]

end ClearCore.Mips.Decoder
