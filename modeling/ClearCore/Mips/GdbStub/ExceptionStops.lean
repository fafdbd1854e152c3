import ClearCore.Mips.GdbStub
import ClearCore.Mips.Pipelined.Exceptions
import ClearCore.Mips.Processor.Lemmas

-- The PC that a client reads after an exception stop.

namespace ClearCore.Mips

open Isa Gdb

-- A CPU that raises its exceptions for a known instruction.
class RaisesAt (P : Type) [IMipsProcessor P] where
  -- the address of the instruction the next step traps on, if it traps
  trapPc : P → Word
  cp0_step {cpu : P} (h : (IMipsProcessor.step cpu).1 = .Exception) :
    ∃ code badAddr, IMipsProcessor.cp0 (IMipsProcessor.step cpu).2 =
      (IMipsProcessor.cp0 cpu).raise code (trapPc cpu) badAddr

namespace SingleCycleCpu

theorem cp0_step_exception {cpu : SingleCycleCpu} (h : cpu.step.1 = .Exception) :
    ∃ code badAddr, cpu.step.2.cp0 = cpu.cp0.raise code cpu.pc badAddr := by
  cases hr : cpu.mem.readWord cpu.pc with
  | none => exact ⟨_, _, by rw [step_fault hr]; rfl⟩
  | some raw =>
    cases hd : Decoder.decode raw with
    | none => exact ⟨_, _, by rw [step_reserved hr hd]; rfl⟩
    | some d =>
      rw [step_decoded hr hd] at h ⊢
      cases hact : (cpu.arch.action d).perform cpu.mem cpu.pc with
      | trap code badAddr => exact ⟨code, badAddr, rfl⟩
      | done gpr store mem cp0 next =>
        rw [hact] at h
        simp only [resolve] at h
        split at h <;> simp at h

end SingleCycleCpu

namespace PipelinedCpu

-- The oldest stage that traps is MEM if it traps, else EX.
def trapPc (cpu : PipelinedCpu) : Word :=
  if cpu.pendingTrap.isSome then cpu.exMem.pc else cpu.idEx.pc

theorem runStages_trap_pc {cpu : PipelinedCpu} {trap : Trap}
    (h : cpu.runStages.trap = some trap) : trap.pc = cpu.trapPc := by
  rw [trapPc]
  cases hp : cpu.pendingTrap with
  | some pending =>
    rw [trap_of_pending hp, Option.some.injEq] at h
    rw [← h]
    exact memoryAccess_trap_pc hp
  | none =>
    rw [trap_of_ex hp, runStages_ex cpu hp] at h
    have hv : cpu.idEx.valid = true := by
      by_contra hv
      rw [execute_invalid _ _ _ (by simpa using hv)] at h
      simp at h
    rcases execute_settles cpu.cp0 cpu.idEx cpu.exMem cpu.memWb hv with ⟨t, ht, hpc, -⟩ | ⟨hnone, -⟩
    · rw [ht, Option.some.injEq] at h
      rw [← h]
      exact hpc
    · rw [hnone] at h
      cases h

theorem cp0_step_exception {cpu : PipelinedCpu} (h : cpu.step.1 = .Exception) :
    ∃ code badAddr, cpu.step.2.cp0 = cpu.cp0.raise code cpu.trapPc badAddr := by
  obtain ⟨trap, ht⟩ := cpu.step_exception_iff.mp h
  exact ⟨trap.code, trap.badAddr, by rw [(step_of_trap ht).1, runStages_trap_pc ht]⟩

end PipelinedCpu

instance : RaisesAt SingleCycleCpu where
  trapPc := SingleCycleCpu.pc
  cp0_step := SingleCycleCpu.cp0_step_exception

instance : RaisesAt PipelinedCpu where
  trapPc := PipelinedCpu.trapPc
  cp0_step := PipelinedCpu.cp0_step_exception

namespace GdbStub

section Stops

variable {P : Type} [IMipsProcessor P]

-- The CPU as it is before the step that ends a c with an exception.
def continueTrap : ℕ → ℕ → GdbStub P → Option P
  | 0, _, _ => none
  | fuel + 1, steps, stub =>
      let steps := steps + 1
      let (ended, stub) := stub.pollTurn steps
      if ended then none
      else
        match (stub.stepCpu).lastResult with
        | .Exception => some stub.cpu
        | .Ok => continueTrap fuel steps stub.stepCpu
        | _ => none

-- The same for any command.
def trappingCpu (fuel : ℕ) (stub : GdbStub P) : List Byte → Option P
  | [] => none
  | cmd :: args =>
      let stub := stub.resumeAt args
      if cmd = byte 'c' then continueTrap fuel 0 { stub with running := true }
      else if cmd = byte 's' ∧ (IMipsProcessor.step stub.cpu).1 = .Exception then some stub.cpu
      else none

-- A stop of a session caused by an exception: the CPU before the step that trapped and
-- the stub after the stop.
structure ExceptionStop (P : Type) where
  before : P
  after : GdbStub P

def exceptionStop (fuel : ℕ) (stub next : GdbStub P) (pkt : List Byte) :
    Option (ExceptionStop P) :=
  (stub.trappingCpu fuel pkt).map fun before => { before, after := next }

def exceptionStops (fuel : ℕ) (stub : GdbStub P) : List (List Byte) → List (ExceptionStop P)
  | [] => []
  | pkt :: pkts =>
      if stub.detached then []
      else
        match stub.dispatch fuel pkt with
        | none => []
        | some next =>
            (exceptionStop fuel stub next pkt).toList ++ exceptionStops fuel next pkts

-- The stub right after an exception stop.
structure StoppedAt (stub : GdbStub P) (before : P) : Prop where
  trapped : (IMipsProcessor.step before).1 = .Exception
  lastResult : stub.lastResult = .Exception
  cpu : stub.cpu = IMipsProcessor.setPc (IMipsProcessor.step before).2
    (IMipsProcessor.cp0 (IMipsProcessor.step before).2).epc

theorem continueLoop_trap {fuel steps : ℕ} {stub next : GdbStub P} {before : P}
    (hrun : continueLoop fuel steps stub = some next)
    (htrap : continueTrap fuel steps stub = some before) : StoppedAt next before := by
  induction fuel generalizing steps stub with
  | zero => simp [continueTrap] at htrap
  | succ fuel ih =>
    rw [continueLoop] at hrun
    rw [continueTrap] at htrap
    obtain ⟨⟨ended, stub'⟩, hpoll⟩ : ∃ polled, stub.pollTurn (steps + 1) = polled := ⟨_, rfl⟩
    simp only [hpoll] at hrun htrap
    cases ended with
    | true => simp at htrap
    | false =>
      simp only [Bool.false_eq_true, if_false] at hrun htrap
      have hstep : stub'.stepCpu.lastResult = (IMipsProcessor.step stub'.cpu).1 := rfl
      cases hres : stub'.stepCpu.lastResult with
      | Ok =>
        simp only [hres] at hrun htrap
        exact ih hrun htrap
      | Exception =>
        simp only [hres, Option.some.injEq] at hrun htrap
        subst htrap
        rw [← hrun]
        exact ⟨hstep.symm.trans hres, rfl, rfl⟩
      | Fault => simp [hres] at htrap
      | Halt => simp [hres] at htrap

-- A c that ends in another way did not end in a step that trapped.
theorem continueLoop_noTrap {fuel steps : ℕ} {stub next : GdbStub P}
    (hstart : stub.lastResult ≠ .Exception ∨ (steps + 1) % kInterruptPollSteps ≠ 0)
    (hrun : continueLoop fuel steps stub = some next)
    (htrap : continueTrap fuel steps stub = none) : next.lastResult ≠ .Exception := by
  induction fuel generalizing steps stub with
  | zero => simp [continueLoop] at hrun
  | succ fuel ih =>
    rw [continueLoop] at hrun
    rw [continueTrap] at htrap
    obtain ⟨⟨ended, stub'⟩, hpoll⟩ : ∃ polled, stub.pollTurn (steps + 1) = polled := ⟨_, rfl⟩
    simp only [hpoll] at hrun htrap
    cases ended with
    | true =>
      have hpolled : (steps + 1) % kInterruptPollSteps = 0 := by
        by_contra hn
        simp [pollTurn, hn] at hpoll
      have hlast : stub'.lastResult = stub.lastResult := by
        rw [pollTurn, if_pos hpolled] at hpoll
        obtain ⟨⟨poll, conn⟩, hp⟩ : ∃ polled, stub.conn.pollInput = polled := ⟨_, rfl⟩
        cases poll with
        | Idle => simp [hp] at hpoll
        | Interrupt =>
          simp only [hp, Prod.mk.injEq, true_and] at hpoll
          rw [← hpoll]
          rfl
        | Closed =>
          simp only [hp, Prod.mk.injEq, true_and] at hpoll
          rw [← hpoll]
      simp only [if_true, Option.some.injEq] at hrun
      rw [← hrun, hlast]
      exact hstart.resolve_right (not_not.mpr hpolled)
    | false =>
      simp only [Bool.false_eq_true, if_false] at hrun htrap
      cases hres : stub'.stepCpu.lastResult with
      | Ok =>
        simp only [hres] at hrun htrap
        exact ih (.inl (by simp [hres])) hrun htrap
      | Exception => simp [hres] at htrap
      | Fault =>
        simp only [hres, Option.some.injEq] at hrun
        rw [← hrun]
        simp [sendSignal, sendPacket]
      | Halt =>
        simp only [hres, Option.some.injEq] at hrun
        rw [← hrun]
        simp [sendSignal, sendPacket]

theorem dispatch_trap {fuel : ℕ} {stub next : GdbStub P} {pkt : List Byte} {before : P}
    (hrun : stub.dispatch fuel pkt = some next)
    (htrap : stub.trappingCpu fuel pkt = some before) : StoppedAt next before := by
  cases pkt with
  | nil => simp [trappingCpu] at htrap
  | cons cmd args =>
    simp only [trappingCpu] at htrap
    by_cases hc : cmd = byte 'c'
    · subst hc
      rw [if_pos rfl] at htrap
      have hdispatch : stub.dispatch fuel (byte 'c' :: args) = stub.handleContinue fuel args := rfl
      rw [hdispatch, handleContinue] at hrun
      exact continueLoop_trap hrun htrap
    · rw [if_neg hc] at htrap
      split_ifs at htrap with hs
      obtain ⟨rfl, hx⟩ := hs
      obtain rfl := Option.some.inj htrap
      have hdispatch : stub.dispatch fuel (byte 's' :: args) = some (stub.handleStep args) := rfl
      have hlast : (stub.resumeAt args).stepCpu.lastResult = .Exception := hx
      rw [hdispatch, handleStep, if_pos hlast, Option.some.injEq] at hrun
      rw [← hrun]
      exact ⟨hx, hlast, rfl⟩

theorem exceptionStops_stopped {fuel : ℕ} {stub : GdbStub P} {pkts : List (List Byte)}
    {stop : ExceptionStop P} (h : stop ∈ stub.exceptionStops fuel pkts) :
    StoppedAt stop.after stop.before := by
  induction pkts generalizing stub with
  | nil => simp [exceptionStops] at h
  | cons pkt pkts ih =>
    rw [exceptionStops] at h
    cases hd : stub.detached with
    | true => simp [hd] at h
    | false =>
      cases hrun : stub.dispatch fuel pkt with
      | none => simp [hd, hrun] at h
      | some next =>
        simp only [hd, Bool.false_eq_true, if_false, hrun, List.mem_append,
          Option.mem_toList] at h
        rcases h with h | h
        · obtain ⟨before, htrap, rfl⟩ := Option.map_eq_some_iff.mp h
          exact dispatch_trap hrun htrap
        · exact ih h

end Stops

-- What the client reads: register 37 through p, and the last register of g.
theorem handleReadReg_pc {P : Type} [IMipsProcessor P] (cpu : P) :
    handleReadReg cpu (text "25") = toHexLe (IMipsProcessor.pc cpu) := by
  have hparse : parseHex (text "25") = some 37#32 := by decide
  simp [handleReadReg, hparse, kNumRegs, readGdbReg]

theorem handleReadRegs_pc {P : Type} [IMipsProcessor P] (cpu : P) :
    handleReadRegs cpu = ((List.range 37).flatMap fun i => toHexLe (readGdbReg cpu i)) ++
      toHexLe (IMipsProcessor.pc cpu) := by
  rw [handleReadRegs, kNumRegs, List.range_succ, List.flatMap_append]
  simp [readGdbReg]

-- EPC is the address of the trapping instruction unless EXL kept an older one.
theorem StoppedAt.pc_eq_iff {P : Type} [IMipsProcessor P] [LawfulAccess P] [RaisesAt P]
    {stub : GdbStub P} {before : P} (h : StoppedAt stub before) :
    IMipsProcessor.pc stub.cpu = RaisesAt.trapPc before ↔
      (IMipsProcessor.cp0 before).inException = false ∨
        (IMipsProcessor.cp0 before).epc = RaisesAt.trapPc before := by
  obtain ⟨code, badAddr, hcp0⟩ := RaisesAt.cp0_step h.trapped
  rw [h.cpu, LawfulAccess.pc_setPc, hcp0]
  simp only [Cp0.raise]
  cases (IMipsProcessor.cp0 before).inException <;> simp

-- A c or an s stops for an exception exactly if its last step trapped.
theorem lastResult_exception_iff {P : Type} [IMipsProcessor P] {fuel : ℕ} {stub next : GdbStub P}
    {cmd : Byte} {args : List Byte} (hcmd : cmd = byte 'c' ∨ cmd = byte 's')
    (hrun : stub.dispatch fuel (cmd :: args) = some next) :
    next.lastResult = .Exception ↔ (stub.trappingCpu fuel (cmd :: args)).isSome = true := by
  constructor
  · intro hx
    by_contra hn
    rw [Bool.not_eq_true, Option.isSome_eq_false_iff, Option.isNone_iff_eq_none] at hn
    rcases hcmd with rfl | rfl
    · have hdispatch : stub.dispatch fuel (byte 'c' :: args) = stub.handleContinue fuel args := rfl
      rw [hdispatch, handleContinue] at hrun
      simp only [trappingCpu, if_true] at hn
      exact continueLoop_noTrap (.inr (by decide)) hrun hn hx
    · have hdispatch : stub.dispatch fuel (byte 's' :: args) = some (stub.handleStep args) := rfl
      have hsc : byte 's' ≠ byte 'c' := by decide
      have hlast : (stub.resumeAt args).stepCpu.lastResult =
          (IMipsProcessor.step (stub.resumeAt args).cpu).1 := rfl
      simp only [trappingCpu, if_neg hsc, true_and] at hn
      by_cases hstep : (IMipsProcessor.step (stub.resumeAt args).cpu).1 = .Exception
      · simp [hstep] at hn
      · rw [hdispatch, handleStep, hlast, if_neg hstep, Option.some.injEq] at hrun
        rw [← hrun] at hx
        exact hstep hx
  · intro h
    obtain ⟨before, htrap⟩ := Option.isSome_iff_exists.mp h
    exact (dispatch_trap hrun htrap).lastResult

-- The client is shown the address of the instruction that trapped.
def ExceptionStop.Exact {P : Type} [IMipsProcessor P] [RaisesAt P] (stop : ExceptionStop P) :
    Prop :=
  readGdbReg stop.after.cpu 37 = RaisesAt.trapPc stop.before

-- Before the step that trapped EXL was clear, or EPC was that address already.
def ExceptionStop.EpcExact {P : Type} [IMipsProcessor P] [RaisesAt P]
    (stop : ExceptionStop P) : Prop :=
  (IMipsProcessor.cp0 stop.before).inException = false ∨
    (IMipsProcessor.cp0 stop.before).epc = RaisesAt.trapPc stop.before

-- What p and g show as register 37.
def ShowsPc {P : Type} [IMipsProcessor P] (cpu : P) : Prop :=
  handleReadReg cpu (text "25") = toHexLe (readGdbReg cpu 37) ∧
    handleReadRegs cpu = ((List.range 37).flatMap fun i => toHexLe (readGdbReg cpu i)) ++
      toHexLe (readGdbReg cpu 37)

theorem exceptionStop_exact {P : Type} [IMipsProcessor P] [LawfulAccess P] [RaisesAt P]
    {fuel : ℕ} {stub : GdbStub P} {pkts : List (List Byte)} {stop : ExceptionStop P}
    (h : stop ∈ stub.exceptionStops fuel pkts) :
    ShowsPc stop.after.cpu ∧ (stop.Exact ↔ stop.EpcExact) :=
  ⟨⟨handleReadReg_pc _, handleReadRegs_pc _⟩, (exceptionStops_stopped h).pc_eq_iff⟩

-- The exception stops of a session and the PC they show: the address of the instruction
-- that trapped if and only if EXL did not keep another one in EPC.
structure StopsExact (P : Type) [IMipsProcessor P] [RaisesAt P] (raisedPc : P → Option Word)
    (fuel : ℕ) : Prop where
  stops {stub next : GdbStub P} {cmd : Byte} {args : List Byte}
    (hcmd : cmd = byte 'c' ∨ cmd = byte 's') (hrun : stub.dispatch fuel (cmd :: args) = some next) :
    next.lastResult = .Exception ↔ (stub.trappingCpu fuel (cmd :: args)).isSome = true
  exact_iff {stub : GdbStub P} {pkts : List (List Byte)} {stop : ExceptionStop P}
    (h : stop ∈ stub.exceptionStops fuel pkts) :
    raisedPc stop.before = some (RaisesAt.trapPc stop.before) ∧ ShowsPc stop.after.cpu ∧
      (stop.Exact ↔ stop.EpcExact)

theorem exceptionStops_pc (fuel : ℕ) :
    StopsExact SingleCycleCpu (fun cpu => cpu.raised.map (·.pc)) fuel ∧
      StopsExact PipelinedCpu (fun cpu => cpu.raised.map (·.pc)) fuel := by
  refine ⟨⟨lastResult_exception_iff, ?_⟩, ⟨lastResult_exception_iff, ?_⟩⟩
  · intro stub pkts stop h
    have htrap : stop.before.step.1 = .Exception := (exceptionStops_stopped h).trapped
    refine ⟨?_, exceptionStop_exact h⟩
    rw [SingleCycleCpu.raised, if_pos htrap]
    rfl
  · intro stub pkts stop h
    have htrap : stop.before.step.1 = .Exception := (exceptionStops_stopped h).trapped
    refine ⟨?_, exceptionStop_exact h⟩
    obtain ⟨trap, ht⟩ := stop.before.step_exception_iff.mp htrap
    rw [PipelinedCpu.raised, ht]
    exact congrArg some (PipelinedCpu.runStages_trap_pc ht)

-- Two BREAKs: the second stop still shows the address of the first.
theorem exceptionStop_stale :
    (exceptionStops 4 ({ cpu := SingleCycleCpu.create 16 } : GdbStub SingleCycleCpu)
        [text "M0,4:0d000000", text "M8,4:0d000000", text "c", text "P25=08000000", text "c"]).map
        (fun stop => (RaisesAt.trapPc stop.before, readGdbReg stop.after.cpu 37)) =
      [(0#32, 0#32), (8#32, 0#32)] := by
  decide

end GdbStub

end ClearCore.Mips
