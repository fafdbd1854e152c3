import ClearCore.Isa.Memory.Lemmas
import ClearCore.Mips.Semantics

namespace ClearCore.Mips

open Isa

namespace Action

def cp0Access : Action → Cp0Access
  | .done _ cp0 _ => cp0
  | _ => .none

-- The next PC of an instruction at `pc` that completes.
def nextPc (pc : Word) : Action → Word
  | .done _ _ next => next
  | _ => pc + 4#32

theorem and_region (x : Word) : (x &&& 0xF0000000#32).toNat = x.toNat / 2 ^ 28 * 2 ^ 28 := by
  have hmask : ∀ i : Fin 32, (0xF0000000#32).getLsbD i.val = decide (28 ≤ i.val) := by decide
  have hshift : x &&& 0xF0000000#32 = (x >>> 28) <<< 28 := by
    apply BitVec.eq_of_getLsbD_eq
    intro i hi
    rw [BitVec.getLsbD_and, hmask ⟨i, hi⟩, BitVec.getLsbD_shiftLeft, BitVec.getLsbD_ushiftRight]
    by_cases hge : 28 ≤ i
    · simp [hge, hi, Nat.add_sub_cancel' hge, show ¬i < 28 by omega]
    · simp [hge, show i < 28 by omega]
  have hlt := x.isLt
  rw [hshift, BitVec.toNat_shiftLeft, BitVec.toNat_ushiftRight, Nat.shiftLeft_eq,
    Nat.shiftRight_eq_div_pow, Nat.mod_eq_of_lt (by omega)]

-- A jump goes to the word with the index `target` in the 256 MiB region of the next instruction.
theorem toNat_jumpTarget (pc : Word) {target : Word} (h : target.toNat < 2 ^ 26) :
    (jumpTarget pc target).toNat =
      (pc + 4#32).toNat / 2 ^ 28 * 2 ^ 28 + target.toNat * 4 := by
  have hlow : target.toNat * 2 ^ 2 < 2 ^ 28 := by omega
  have hor := Nat.shiftLeft_add_eq_or_of_lt hlow ((pc + 4#32).toNat / 2 ^ 28)
  rw [Nat.shiftLeft_eq] at hor
  rw [jumpTarget, BitVec.toNat_or, and_region, BitVec.toNat_shiftLeft, Nat.shiftLeft_eq,
    Nat.mod_eq_of_lt (by omega)]
  exact hor.symm

-- The ways in which an action completes.
inductive Completes (mem : Memory) (pc : Word) :
    Action → Option (RegIdx × Word) → Option (Word × Word) → Memory → Cp0Access → Word → Prop
  | load {op : Opcode} {addr : Word} {dst : RegIdx} {value : Word}
      (hl : loadData mem op addr = some value) :
      Completes mem pc (.load op addr dst) (gprWrite dst value) none mem .none (pc + 4#32)
  | store {op : Opcode} {addr value : Word} {mem' : Memory}
      (hs : storeData mem op addr value = some mem') :
      Completes mem pc (.store op addr value) none (some (addr, value)) mem' .none (pc + 4#32)
  | done {gpr : Option (RegIdx × Word)} {cp0 : Cp0Access} {next : Word} :
      Completes mem pc (.done gpr cp0 next) gpr none mem cp0 next

section Completes

variable {mem mem' : Memory} {pc : Word} {act : Action} {gpr : Option (RegIdx × Word)}
  {store : Option (Word × Word)} {cp0 : Cp0Access} {next : Word}

theorem perform_completes (h : act.perform mem pc = .done gpr store mem' cp0 next) :
    Completes mem pc act gpr store mem' cp0 next := by
  cases act with
  | trap code => cases h
  | load op addr dst =>
    rw [Action.perform] at h
    cases hl : loadData mem op addr with
    | none =>
      rw [hl] at h
      cases h
    | some value =>
      rw [hl] at h
      cases h
      exact .load hl
  | store op addr value =>
    rw [Action.perform] at h
    cases hs : storeData mem op addr value with
    | none =>
      rw [hs] at h
      cases h
    | some stored =>
      rw [hs] at h
      cases h
      exact .store hs
  | done gpr' cp0' next' =>
    cases h
    exact .done

-- An outcome changes memory at most at the word it stores to.
theorem perform_readWord (h : act.perform mem pc = .done gpr store mem' cp0 next) {addr : Word}
    (hne : store.map (·.1) ≠ some addr) : mem'.readWord addr = mem.readWord addr := by
  cases perform_completes h with
  | load | done => rfl
  | @store op a value _ hs =>
    have ha : a ≠ addr := by simpa using hne
    cases op <;> simp only [storeData, reduceCtorEq] at hs
    exact Memory.readWord_writeWord_ne hs ha

theorem perform_done_fields (h : act.perform mem pc = .done gpr store mem' cp0 next) :
    act.cp0Access = cp0 ∧ act.nextPc pc = next := by
  cases perform_completes h with
  | load | store | done => exact ⟨rfl, rfl⟩

end Completes

-- An action that MEM turns into a trap has no CP0 access of its own.
theorem perform_trap_cp0 {mem : Memory} {pc : Word} {act : Action} {code : ExceptionCode}
    {badAddr : Word} (h : act.perform mem pc = .trap code badAddr) :
    act.cp0Access = .none := by
  cases act with
  | done gpr cp0 next => simp [Action.perform] at h
  | trap | load | store => rfl

end Action

namespace Arch

theorem outcome_fault {arch : Arch} (hr : arch.mem.readWord arch.pc = none) :
    arch.outcome = (0#32, .trap .AdEL arch.pc) := by
  simp [outcome, hr]

theorem outcome_reserved {arch : Arch} {raw : Word} (hr : arch.mem.readWord arch.pc = some raw)
    (hd : Decoder.decode raw = none) : arch.outcome = (raw, .trap .RI 0#32) := by
  simp [outcome, hr, hd]

theorem outcome_decoded {arch : Arch} {raw : Word} {d : DecodedInstr}
    (hr : arch.mem.readWord arch.pc = some raw) (hd : Decoder.decode raw = some d) :
    arch.outcome = (raw, (arch.action d).perform arch.mem arch.pc) := by
  simp [outcome, hr, hd]

theorem step_of_trap {arch : Arch} {code : ExceptionCode} {badAddr : Word}
    (h : arch.outcome.2 = .trap code badAddr) :
    arch.step =
      { arch with cp0 := arch.cp0.raise code arch.pc badAddr, pc := kExceptionVector } := by
  simp [step, h, finish]

theorem step_of_done {arch : Arch} {gpr : Option (RegIdx × Word)} {store : Option (Word × Word)}
    {mem : Memory} {cp0 : Cp0Access} {next : Word}
    (h : arch.outcome.2 = .done gpr store mem cp0 next) :
    arch.step =
      { regs := commitGpr arch.regs gpr, mem, cp0 := cp0.apply arch.cp0, pc := next } := by
  simp [step, h, finish]

theorem step_readWord (arch : Arch) {addr : Word} (hne : arch.storeAddr ≠ some addr) :
    arch.step.mem.readWord addr = arch.mem.readWord addr := by
  cases hout : arch.outcome.2 with
  | trap code badAddr => simp [step_of_trap hout]
  | done gpr store mem cp0 next =>
    rw [step_of_done hout]
    have hst : arch.storeAddr = store.map (·.1) := by
      simp only [storeAddr, retirement]
      rw [show arch.outcome = (arch.outcome.1, .done gpr store mem cp0 next) from
        Prod.ext rfl hout]
      rfl
    cases hr : arch.mem.readWord arch.pc with
    | none => simp [outcome_fault hr] at hout
    | some raw =>
      cases hd : Decoder.decode raw with
      | none => simp [outcome_reserved hr hd] at hout
      | some d =>
        rw [outcome_decoded hr hd] at hout
        exact Action.perform_readWord hout (hst ▸ hne)

end Arch

end ClearCore.Mips
