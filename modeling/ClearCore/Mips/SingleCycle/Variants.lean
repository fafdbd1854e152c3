import ClearCore.Mips.SingleCycle.Theorems

-- The accessors of std::variant throw on the wrong alternative. This is step() with the
-- throws, which are never reached.

namespace ClearCore.Mips

open Isa

namespace DecodedInstr

-- `none` is the std::bad_variant_access.
def getR (d : DecodedInstr) : Option RFields :=
  match d.fields with
  | .r fields => some fields
  | _ => none

def getI (d : DecodedInstr) : Option IFields :=
  match d.fields with
  | .i fields => some fields
  | _ => none

def getJ (d : DecodedInstr) : Option JFields :=
  match d.fields with
  | .j fields => some fields
  | _ => none

end DecodedInstr

def Alu.controlOrThrow (d : DecodedInstr) : Option (Option AluOp) :=
  match d.format with
  | .R => d.getR.map fun r => rTypeOp r.funct
  | _ => some (control d)

def deriveControlOrThrow (d : DecodedInstr) : Option Control :=
  match d.format with
  | .R => if d.opcode = .COP0 then some (deriveControl d) else d.getR.map fun _ => deriveControl d
  | _ => some (deriveControl d)

namespace SingleCycleCpu

-- exec_rtype reads its fields at the start, and Alu::control reads them again.
def execRtypeOrThrow (cpu : SingleCycleCpu) (d : DecodedInstr) (pc4 nextPc : Word) :
    Option (Option ExecOut) := do
  let r ← d.getR
  if d.opcode = .COP0 ∨ r.funct = .SYSCALL ∨ r.funct = .BREAK ∨ r.funct = .JR ∨ r.funct = .JALR then
    pure (cpu.execRtype d pc4 nextPc)
  else
    let _ ← Alu.controlOrThrow d
    pure (cpu.execRtype d pc4 nextPc)

def execItypeOrThrow (cpu : SingleCycleCpu) (d : DecodedInstr) (pc4 nextPc : Word) :
    Option (Option ExecOut) := do
  let _ ← d.getI
  let _ ← Alu.controlOrThrow d
  pure (cpu.execItype d pc4 nextPc)

def stepDecodedOrThrow (cpu : SingleCycleCpu) (raw : Word) (d : DecodedInstr) :
    Option (StepResult × SingleCycleCpu) := do
  let curPc := cpu.pc
  let pc4 := curPc + 4#32
  let ctrl ← deriveControlOrThrow d
  let cpu := { cpu with ctrl, ps := snapshot cpu.cycle curPc raw }
  match d.format with
  | .J => d.getJ.map fun _ => finish curPc (cpu.execJtype d pc4)
  | .R =>
      (cpu.execRtypeOrThrow d pc4 pc4).map fun
        | none => (.Fault, cpu)
        | some out => finish curPc out
  | .I =>
      (cpu.execItypeOrThrow d pc4 pc4).map fun
        | none => (.Fault, cpu)
        | some out => finish curPc out
  | .Unknown => some (.Exception, cpu.raise .RI curPc)

def stepOrThrow (cpu : SingleCycleCpu) : Option (StepResult × SingleCycleCpu) :=
  let cpu := { cpu with cycle := cpu.cycle + 1 }
  match cpu.mem.readWord cpu.pc with
  | none => some (.Exception, cpu.raise .AdEL cpu.pc cpu.pc)
  | some fetched =>
      match Decoder.decode fetched with
      | none => some (.Exception, cpu.raise .RI cpu.pc)
      | some d => cpu.stepDecodedOrThrow fetched d

-- Where the format says R the fields are there, however often they are read.
theorem execRtypeOrThrow_eq (cpu : SingleCycleCpu) {d : DecodedInstr} {r : RFields}
    (hf : d.fields = .r r) (pc4 nextPc : Word) :
    cpu.execRtypeOrThrow d pc4 nextPc = some (cpu.execRtype d pc4 nextPc) := by
  have hr : d.getR = some r := by rw [DecodedInstr.getR, hf]
  have hcontrol : ∃ op, Alu.controlOrThrow d = some op := by
    unfold Alu.controlOrThrow
    rw [hr]
    cases d.format <;> exact ⟨_, rfl⟩
  obtain ⟨op, hop⟩ := hcontrol
  rw [execRtypeOrThrow, hr, hop]
  simp only [Option.bind_eq_bind, Option.bind_some]
  split <;> rfl

theorem execItypeOrThrow_eq (cpu : SingleCycleCpu) {d : DecodedInstr} {i : IFields}
    (hf : d.fields = .i i) (hformat : d.format = .I) (pc4 nextPc : Word) :
    cpu.execItypeOrThrow d pc4 nextPc = some (cpu.execItype d pc4 nextPc) := by
  have hi : d.getI = some i := by rw [DecodedInstr.getI, hf]
  have hop : Alu.controlOrThrow d = some (Alu.control d) := by rw [Alu.controlOrThrow, hformat]
  rw [execItypeOrThrow, hi, hop]
  rfl

theorem deriveControlOrThrow_eq {d : DecodedInstr} (hf : Decoder.FieldsMatch d) :
    deriveControlOrThrow d = some (deriveControl d) := by
  obtain ⟨raw, op, format, fields⟩ := d
  cases format with
  | R =>
    cases fields with
    | r r =>
      rw [deriveControlOrThrow]
      simp only [DecodedInstr.getR, Option.map_some, ite_self]
    | i | j => cases hf
  | _ => rfl

theorem stepDecodedOrThrow_eq (cpu : SingleCycleCpu) (raw : Word) {d : DecodedInstr}
    (hf : Decoder.FieldsMatch d) :
    cpu.stepDecodedOrThrow raw d = some (cpu.stepDecoded raw d) := by
  rw [stepDecodedOrThrow, stepDecoded, deriveControlOrThrow_eq hf]
  obtain ⟨word, op, format, fields⟩ := d
  cases format with
  | R =>
    cases fields with
    | r r =>
      have hexec : ∀ c : SingleCycleCpu, c.execRtypeOrThrow ⟨word, op, .R, .r r⟩ (cpu.pc + 4#32)
          (cpu.pc + 4#32) = some _ := fun c => execRtypeOrThrow_eq c rfl _ _
      simp only [Option.bind_eq_bind, Option.bind_some, hexec]
      rfl
    | i | j => cases hf
  | I =>
    cases fields with
    | i i =>
      have hexec : ∀ c : SingleCycleCpu, c.execItypeOrThrow ⟨word, op, .I, .i i⟩ (cpu.pc + 4#32)
          (cpu.pc + 4#32) = some _ := fun c => execItypeOrThrow_eq c rfl rfl _ _
      simp only [Option.bind_eq_bind, Option.bind_some, hexec]
      rfl
    | r | j => cases hf
  | J =>
    cases fields with
    | j j => rfl
    | r | i => cases hf
  | Unknown => cases hf

theorem stepOrThrow_eq (cpu : SingleCycleCpu) : cpu.stepOrThrow = some cpu.step := by
  cases hr : cpu.mem.readWord cpu.pc with
  | none => simp only [stepOrThrow, step, hr]
  | some raw =>
    cases hd : Decoder.decode raw with
    | none => simp only [stepOrThrow, step, hr, hd]
    | some d => simp only [stepOrThrow, step, hr, hd, stepDecodedOrThrow_eq _ _ (Decoder.decode_fields hd)]

end SingleCycleCpu

end ClearCore.Mips
