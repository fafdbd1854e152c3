import ClearCore.Mips.Pipelined.FlushCause
import ClearCore.Mips.Processor.Lemmas

-- EPC across traps that come up while one is being handled.

namespace ClearCore.Mips

open Isa

-- What a step does to CP0: it raises a trap, or applies the access of an instruction.
inductive Cp0Event
  | trap (code : ExceptionCode) (pc badAddr : Word)
  | instr (access : Cp0Access)
deriving DecidableEq

namespace Cp0Event

def apply : Cp0Event → Cp0 → Cp0
  | .trap code pc badAddr, cp0 => cp0.raise code pc badAddr
  | .instr access, cp0 => access.apply cp0

-- The program writes Status or EPC, or executes ERET.
def Leaves : Cp0Event → Prop
  | .instr (.write reg _) => reg = Cp0.kRegStatus ∨ reg = Cp0.kRegEpc
  | .instr .eret => True
  | _ => False

instance decidableLeaves : (event : Cp0Event) → Decidable event.Leaves
  | .trap _ _ _ => .isFalse id
  | .instr .none => .isFalse id
  | .instr (.write reg _) =>
      inferInstanceAs (Decidable (reg = Cp0.kRegStatus ∨ reg = Cp0.kRegEpc))
  | .instr .eret => .isTrue trivial

end Cp0Event

@[simp] theorem Cp0.inException_raise (cp0 : Cp0) (code : ExceptionCode) (pc badAddr : Word) :
    (cp0.raise code pc badAddr).inException = true := by
  have hbit : (cp0.status ||| kStatusEXL) &&& kStatusEXL = kStatusEXL := by
    apply BitVec.eq_of_getLsbD_eq
    intro i _
    cases h : kStatusEXL.getLsbD i <;> simp [h]
  simp only [inException, raise, hbit]
  rfl

theorem Cp0Event.apply_keeps {event : Cp0Event} (hkeep : ¬event.Leaves) {cp0 : Cp0}
    (hexl : cp0.inException = true) :
    (event.apply cp0).inException = true ∧ (event.apply cp0).epc = cp0.epc := by
  cases event with
  | trap code pc badAddr =>
    constructor
    · exact Cp0.inException_raise cp0 code pc badAddr
    · simp [apply, Cp0.raise, hexl]
  | instr access =>
    cases access with
    | none => exact ⟨hexl, rfl⟩
    | eret => exact absurd trivial hkeep
    | write reg value =>
      obtain ⟨hstatus, hepc⟩ := not_or.mp hkeep
      simp only [apply, Cp0Access.apply, Cp0.write, if_neg hstatus, if_neg hepc]
      split_ifs
      · exact ⟨hexl, rfl⟩
      · exact ⟨hexl, rfl⟩

-- A CPU model with the CP0 event of its next step.
class Cp0Events (P : Type) [IMipsProcessor P] where
  cp0Event : P → Cp0Event
  cp0_step (cpu : P) :
    IMipsProcessor.cp0 (IMipsProcessor.step cpu).2 = (cp0Event cpu).apply (IMipsProcessor.cp0 cpu)
  cp0_loadProgram {cpu cpu' : P} {words : List Word} {addr : Word} {fits : Bool}
    (h : IMipsProcessor.loadProgram cpu words addr = some (fits, cpu')) :
    IMipsProcessor.cp0 cpu' = IMipsProcessor.cp0 cpu

section Nested

variable {P : Type} [IMipsProcessor P] [Cp0Events P]

-- The states from the step in which a trap at `p` sets EXL until the program or something
-- outside writes Status or EPC, or the program executes ERET.
inductive Nested (memBytes : ℕ) (p : Word) : P → Prop
  | enter {cpu : P} {code : ExceptionCode} {badAddr : Word} (h : Reachable memBytes cpu)
      (hexl : (IMipsProcessor.cp0 cpu).inException = false)
      (htrap : Cp0Events.cp0Event cpu = .trap code p badAddr) :
      Nested memBytes p (IMipsProcessor.step cpu).2
  | step {cpu : P} (h : Nested memBytes p cpu) (hkeep : ¬(Cp0Events.cp0Event cpu).Leaves) :
      Nested memBytes p (IMipsProcessor.step cpu).2
  | loadProgram {cpu cpu' : P} {words : List Word} {addr : Word} {fits : Bool}
      (h : Nested memBytes p cpu)
      (hload : IMipsProcessor.loadProgram cpu words addr = some (fits, cpu')) :
      Nested memBytes p cpu'
  | edit {cpu cpu' : P} (h : Nested memBytes p cpu) (hedit : Edited cpu cpu')
      (hstatus : (IMipsProcessor.cp0 cpu').status = (IMipsProcessor.cp0 cpu).status)
      (hepc : (IMipsProcessor.cp0 cpu').epc = (IMipsProcessor.cp0 cpu).epc) :
      Nested memBytes p cpu'

variable {memBytes : ℕ} {p : Word} {cpu : P}

theorem Nested.reachable (h : Nested memBytes p cpu) : Reachable memBytes cpu := by
  induction h with
  | enter h => exact .step h
  | step _ _ ih => exact .step ih
  | loadProgram _ hload ih => exact .loadProgram ih hload
  | edit _ hedit _ _ ih => exact .edit ih hedit

theorem Nested.run (h : Nested memBytes p cpu) (n : ℕ)
    (hkeep : ∀ k < n, ¬(Cp0Events.cp0Event ((fun c => (IMipsProcessor.step c).2)^[k] cpu)).Leaves) :
    Nested memBytes p ((fun c => (IMipsProcessor.step c).2)^[n] cpu) := by
  induction n with
  | zero => exact h
  | succ n ih =>
    rw [Function.iterate_succ_apply']
    exact .step (ih fun k hk => hkeep k (by omega)) (hkeep n (by omega))

-- EXL stays set, and so a further trap leaves EPC alone.
theorem Nested.epc (h : Nested memBytes p cpu) :
    (IMipsProcessor.cp0 cpu).inException = true ∧ (IMipsProcessor.cp0 cpu).epc = p := by
  induction h with
  | enter _ hexl htrap =>
    rw [Cp0Events.cp0_step, htrap]
    constructor
    · exact Cp0.inException_raise _ _ _ _
    · simp [Cp0Event.apply, Cp0.raise, hexl]
  | step _ hkeep ih =>
    obtain ⟨hexl, hepc⟩ := Cp0Event.apply_keeps hkeep ih.1
    rw [Cp0Events.cp0_step]
    exact ⟨hexl, hepc.trans ih.2⟩
  | loadProgram _ hload ih => rwa [Cp0Events.cp0_loadProgram hload]
  | edit _ _ hstatus hepc ih =>
    rw [Cp0.inException, hstatus, hepc]
    exact ih

theorem Nested.eret (h : Nested memBytes p cpu)
    (heret : Cp0Events.cp0Event cpu = .instr .eret) :
    (IMipsProcessor.cp0 (IMipsProcessor.step cpu).2).epc = p ∧
      IMipsProcessor.cp0 (IMipsProcessor.step cpu).2 = (IMipsProcessor.cp0 cpu).eret := by
  rw [Cp0Events.cp0_step, heret]
  exact ⟨h.epc.2, rfl⟩

end Nested

namespace SingleCycleCpu

def cp0Event (cpu : SingleCycleCpu) : Cp0Event :=
  match cpu.arch.outcome.2 with
  | .trap code badAddr => .trap code cpu.pc badAddr
  | .done _ _ _ access _ => .instr access

theorem cp0_step (cpu : SingleCycleCpu) : cpu.step.2.cp0 = cpu.cp0Event.apply cpu.cp0 := by
  rw [← arch_cp0, step_arch, Arch.step, cp0Event]
  cases cpu.arch.outcome.2 with
  | trap code badAddr => rfl
  | done gpr store mem access next => rfl

theorem cp0_loadProgram {cpu cpu' : SingleCycleCpu} {words : List Word} {addr : Word} {fits : Bool}
    (h : cpu.loadProgram words addr = some (fits, cpu')) : cpu'.cp0 = cpu.cp0 := by
  obtain ⟨⟨fits, mem⟩, -, hres⟩ := Option.map_eq_some_iff.mp h
  cases fits <;>
    · simp only [if_true, Bool.false_eq_true, if_false, Prod.mk.injEq] at hres
      rw [← hres.2]

end SingleCycleCpu

namespace Action

variable {pc a b next : Word} {cp0 : Cp0} {gpr : Option (RegIdx × Word)}

theorem ofAlu_ne_eret (dst : RegIdx) (res : AluResult) (isSigned : Bool) :
    ofAlu pc dst res isSigned ≠ .done gpr .eret next := by
  unfold ofAlu
  split_ifs <;> simp

theorem ofSpecial_ne_eret (r : RFields) : ofSpecial r pc a b ≠ .done gpr .eret next := by
  unfold ofSpecial
  split
  · simp
  · simp
  · simp
  · simp
  · split
    · simp
    · exact ofAlu_ne_eret _ _ _

theorem ofImmediate_ne_eret (op : Opcode) (i : IFields) :
    ofImmediate op i pc a b ≠ .done gpr .eret next := by
  unfold ofImmediate
  split
  any_goals simp
  split
  · simp
  · exact ofAlu_ne_eret _ _ _

-- Only ERET leaves the exception level, and it goes on at EPC.
theorem ofInstr_eret {d : DecodedInstr} (h : ofInstr d cp0 pc a b = .done gpr .eret next) :
    next = cp0.epc := by
  unfold ofInstr at h
  split at h
  · split_ifs at h
    · unfold ofCop0 at h
      split_ifs at h
      all_goals cases h
      rfl
    · exact absurd h (ofSpecial_ne_eret _)
  · exact absurd h (ofImmediate_ne_eret _ _)
  · cases h
  · cases h

end Action

namespace SingleCycleCpu

theorem pc_step_eret {cpu : SingleCycleCpu} (h : cpu.cp0Event = .instr .eret) :
    cpu.step.2.pc = cpu.cp0.epc := by
  rw [← arch_pc, step_arch, Arch.step]
  rw [cp0Event] at h
  cases hout : cpu.arch.outcome.2 with
  | trap code badAddr =>
    rw [hout] at h
    cases h
  | done gpr store mem access next =>
    rw [hout] at h
    cases h
    cases hr : cpu.arch.mem.readWord cpu.arch.pc with
    | none => simp [Arch.outcome_fault hr] at hout
    | some raw =>
      cases hd : Decoder.decode raw with
      | none => simp [Arch.outcome_reserved hr hd] at hout
      | some d =>
        rw [Arch.outcome_decoded hr hd] at hout
        have hperf : (cpu.arch.action d).perform cpu.arch.mem cpu.arch.pc =
            .done gpr store mem .eret next := hout
        obtain ⟨haccess, hnext⟩ := Action.perform_done_fields hperf
        cases hact : cpu.arch.action d with
        | trap | load | store =>
          rw [hact] at haccess
          cases haccess
        | done gpr access target =>
          rw [hact] at haccess hnext
          cases haccess
          exact hnext.symm.trans (Action.ofInstr_eret hact)

end SingleCycleCpu

namespace PipelinedCpu

def cp0Event (cpu : PipelinedCpu) : Cp0Event :=
  match cpu.runStages.trap with
  | some trap => .trap trap.code trap.pc trap.badAddr
  | none => .instr cpu.runStages.ex.cp0Access

theorem executeDecoded_exclusive (cp0 : Cp0) (inp : IdEx) (ops : ExOperands) :
    (executeDecoded cp0 inp ops).mtc0 = none ∨ (executeDecoded cp0 inp ops).eret = false := by
  simp only [executeDecoded]
  split_ifs
  all_goals first
    | exact .inl rfl
    | exact .inr rfl
    | skip
  cases Alu.control inp.decoded with
  | none => exact .inl rfl
  | some aluop =>
    simp only
    split <;> exact .inl rfl

theorem execute_idle (cp0 : Cp0) {inp : IdEx} (exMem : ExMem) (memWb : MemWb)
    (h : inp.executed = none) :
    (execute cp0 inp exMem memWb).mtc0 = none ∧ (execute cp0 inp exMem memWb).eret = false := by
  unfold execute
  cases hv : inp.valid with
  | false => exact ⟨rfl, rfl⟩
  | true =>
    cases he : inp.earlyTrap with
    | some code => exact ⟨rfl, rfl⟩
    | none => simp [IdEx.executed, hv, he] at h

-- No cycle both writes CP0 and executes ERET.
theorem runStages_exclusive (cpu : PipelinedCpu) :
    cpu.runStages.ex.mtc0 = none ∨ cpu.runStages.ex.eret = false := by
  cases hp : cpu.pendingTrap with
  | some trap => exact .inl (by rw [ex_of_pending hp])
  | none =>
    rw [runStages_ex cpu hp]
    cases hx : cpu.idEx.executed with
    | some d =>
      rw [(execute_of_executed _ _ _ hx).2]
      exact executeDecoded_exclusive _ _ _
    | none => exact .inl (execute_idle _ _ _ hx).1

theorem cp0_step (cpu : PipelinedCpu) : cpu.step.2.cp0 = cpu.cp0Event.apply cpu.cp0 := by
  rw [cp0Event]
  cases ht : cpu.runStages.trap with
  | some trap => rw [(step_of_trap ht).1]; rfl
  | none => rw [step_cp0, nextCp0_of_pass cpu ht cpu.runStages_exclusive]; rfl

theorem cp0_loadProgram {cpu cpu' : PipelinedCpu} {words : List Word} {addr : Word} {fits : Bool}
    (h : cpu.loadProgram words addr = some (fits, cpu')) : cpu'.cp0 = cpu.cp0 := by
  obtain ⟨⟨fits, mem⟩, -, hres⟩ := Option.map_eq_some_iff.mp h
  cases fits <;>
    · simp only [if_true, Bool.false_eq_true, if_false, Prod.mk.injEq] at hres
      rw [← hres.2]

-- The next instruction to execute is the one at `p`: it is fetched next, and no trap of an
-- older one is left to redirect the fetch.
structure ContinuesAt (cpu : PipelinedCpu) (p : Word) : Prop where
  pc : cpu.pc = p
  ifId : cpu.ifId = {}
  idEx : cpu.idEx = {}
  pendingTrap : cpu.pendingTrap = none

theorem executeDecoded_eret {cp0 : Cp0} {inp : IdEx} {ops : ExOperands}
    (h : (executeDecoded cp0 inp ops).eret = true) :
    (executeDecoded cp0 inp ops).redirect = some cp0.epc := by
  simp only [executeDecoded] at h ⊢
  split_ifs at h ⊢
  all_goals first
    | rfl
    | cases h
    | skip
  cases hop : Alu.control inp.decoded with
  | none => simp [hop] at h
  | some aluop =>
    simp only [hop] at h
    split at h <;> cases h

theorem step_eret {cpu : PipelinedCpu} (h : cpu.WellFormed)
    (heret : cpu.cp0Event = .instr .eret) : cpu.step.2.ContinuesAt cpu.cp0.epc := by
  rw [cp0Event] at heret
  cases ht : cpu.runStages.trap with
  | some trap =>
    rw [ht] at heret
    cases heret
  | none =>
    have hp := (trap_none ht).1
    have hex : cpu.runStages.ex.eret = true := by
      rw [ht] at heret
      have haccess := Cp0Event.instr.inj heret
      unfold ExOutcome.cp0Access at haccess
      cases hm : cpu.runStages.ex.mtc0 with
      | some mtc0 => simp [hm] at haccess
      | none => simpa [hm] using haccess
    have hredirect : cpu.runStages.ex.redirect = some cpu.cp0.epc := by
      rw [runStages_ex cpu hp] at hex ⊢
      cases hx : cpu.idEx.executed with
      | none => simp [(execute_idle _ _ _ hx).2] at hex
      | some d =>
        rw [(execute_of_executed _ _ _ hx).2] at hex ⊢
        exact executeDecoded_eret hex
    obtain ⟨hpc, hi, hidEx⟩ := step_of_redirect ht hredirect
    exact ⟨hpc, hi, hidEx, step_pendingTrap_of_transfer h (by rw [hredirect]; rfl)⟩

end PipelinedCpu

instance : Cp0Events SingleCycleCpu where
  cp0Event := SingleCycleCpu.cp0Event
  cp0_step := SingleCycleCpu.cp0_step
  cp0_loadProgram := SingleCycleCpu.cp0_loadProgram

instance : Cp0Events PipelinedCpu where
  cp0Event := PipelinedCpu.cp0Event
  cp0_step := PipelinedCpu.cp0_step
  cp0_loadProgram := PipelinedCpu.cp0_loadProgram

-- In both models EPC keeps the address of the first trap, and ERET goes on there.
theorem epc_nested (memBytes : ℕ) (p : Word) :
    (∀ cpu : SingleCycleCpu, Nested memBytes p cpu →
      cpu.cp0.epc = p ∧
      (cpu.cp0Event = .instr .eret → cpu.step.2.pc = p ∧
        cpu.step.2.cp0 = { cpu.cp0 with status := cpu.cp0.status &&& ~~~Cp0.kStatusEXL })) ∧
    ∀ cpu : PipelinedCpu, Nested memBytes p cpu →
      cpu.cp0.epc = p ∧
      (cpu.cp0Event = .instr .eret → cpu.step.2.ContinuesAt p ∧
        cpu.step.2.cp0 = { cpu.cp0 with status := cpu.cp0.status &&& ~~~Cp0.kStatusEXL }) := by
  constructor
  · intro cpu h
    have hepc : cpu.cp0.epc = p := h.epc.2
    refine ⟨hepc, fun heret => ⟨?_, (h.eret heret).2⟩⟩
    rw [SingleCycleCpu.pc_step_eret heret, hepc]
  · intro cpu h
    have hepc : cpu.cp0.epc = p := h.epc.2
    refine ⟨hepc, fun heret => ⟨?_, (h.eret heret).2⟩⟩
    rw [← hepc]
    exact PipelinedCpu.step_eret (PipelinedCpu.wellFormed_of_reachable h.reachable) heret

-- nop; syscall; eret, with the exception vector outside the memory.
def nestedProgram : Memory :=
  Memory.loadWordsFrom 0#32 0 [0x00000000#32, 0x0000000C#32, 0x42000018#32] (.ofSize 16)

theorem size_nestedProgram : nestedProgram.size = 16 := Memory.size_loadWordsFrom _ _ _ _

-- The SYSCALL at 4 traps, the fetch from the vector does as well, and the ERET at 8
-- comes next.
theorem epc_nested_syscall :
    (∃ cpu : SingleCycleCpu, cpu.cp0Event = .instr .eret ∧ cpu.cp0.epc = 4#32 ∧
      cpu.step.2.pc = 4#32) ∧
    ∃ cpu : PipelinedCpu, cpu.cp0Event = .instr .eret ∧ cpu.cp0.epc = 4#32 ∧
      cpu.step.2.ContinuesAt 4#32 := by
  constructor
  · let start : SingleCycleCpu := { SingleCycleCpu.create 16 with mem := nestedProgram }
    have hstart : Reachable 16 start := .edit .create (.setMem _ size_nestedProgram)
    have hsyscall : (start.run 1).cp0Event = .trap .Sys 4#32 0#32 := by decide
    have htrap : Nested 16 4#32 (start.run 2) := .enter (.step hstart) (by decide) hsyscall
    have hnested : Nested 16 4#32 (start.run 3) := .step htrap (by decide)
    have hjump : Nested 16 4#32 { start.run 3 with pc := 8#32 } :=
      .edit hnested (.setPc 8#32) rfl rfl
    obtain ⟨hepc, heret⟩ := (epc_nested 16 4#32).1 _ hjump
    exact ⟨_, by decide, hepc, (heret (by decide)).1⟩
  · let start : PipelinedCpu := { PipelinedCpu.create 16 with mem := nestedProgram }
    have hstart : Reachable 16 start := .edit .create (.setMem _ size_nestedProgram)
    have hsyscall : (start.run 3).cp0Event = .trap .Sys 4#32 0#32 := by decide
    have htrap : Nested 16 4#32 (start.run 4) :=
      .enter (PipelinedCpu.reachable_run hstart 3) (by decide) hsyscall
    have hnested : Nested 16 4#32 ((start.run 4).run 3) := htrap.run 3 (by decide)
    have hjump : Nested 16 4#32 { (start.run 4).run 3 with pc := 8#32 } :=
      .edit hnested (.setPc 8#32) rfl rfl
    have heret : Nested 16 4#32 (PipelinedCpu.run { (start.run 4).run 3 with pc := 8#32 } 2) :=
      hjump.run 2 (by decide)
    obtain ⟨hepc, hcontinues⟩ := (epc_nested 16 4#32).2 _ heret
    exact ⟨_, by decide, hepc, (hcontinues (by decide)).1⟩

end ClearCore.Mips
