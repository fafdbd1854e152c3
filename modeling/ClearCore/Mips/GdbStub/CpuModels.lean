import ClearCore.Mips.GdbStub.Continue
import ClearCore.Mips.Pipelined.Progress
import ClearCore.Mips.Processor

-- The same session on both CPU models. The stub reaches a CPU only through its accessors
-- and step, so commands that do not run the CPU keep any relation the accessors respect.

namespace ClearCore.Mips

open Isa Gdb

namespace GdbStub

section Access

variable {P Q : Type}

-- Two stubs that have sent the same and drive related CPUs, with nothing on the
-- connection that could interrupt a c.
structure Related (R : P → Q → Prop) (stub : GdbStub P) (stub' : GdbStub Q) : Prop where
  cpu : R stub.cpu stub'.cpu
  sent : stub.conn.sent = stub'.conn.sent
  quiet : stub.conn.Quiet
  quiet' : stub'.conn.Quiet
  breakpoints : stub.breakpoints = stub'.breakpoints
  detached : stub.detached = stub'.detached

variable {R : P → Q → Prop} {p : P} {q : Q} {stub : GdbStub P} {stub' : GdbStub Q}

theorem Related.sendPacket (h : Related R stub stub') (data : List Byte) :
    Related R (stub.sendPacket data) (stub'.sendPacket data) where
  cpu := h.cpu
  sent := congrArg (· ++ [Message.packet data]) h.sent
  quiet := h.quiet.send _
  quiet' := h.quiet'.send _
  breakpoints := h.breakpoints
  detached := h.detached

theorem Related.okOrError (h : Related R stub stub') (ok : Bool) :
    Related R (GdbStub.okOrError stub ok) (GdbStub.okOrError stub' ok) := by
  cases ok
  · exact h.sendPacket _
  · exact h.sendPacket _

theorem Related.withCpu (h : Related R stub stub') (hcpu : R p q) :
    Related R { stub with cpu := p } { stub' with cpu := q } :=
  ⟨hcpu, h.sent, h.quiet, h.quiet', h.breakpoints, h.detached⟩

theorem Related.handleQuery (h : Related R stub stub') (args : List Byte) :
    Related R (stub.handleQuery args) (stub'.handleQuery args) := by
  unfold GdbStub.handleQuery
  split_ifs
  all_goals exact h.sendPacket _

-- Both stubs have replied, and are related.
def BothReply (R : P → Q → Prop) (reply : Option (GdbStub P)) (reply' : Option (GdbStub Q)) :
    Prop :=
  ∃ next next', reply = some next ∧ reply' = some next' ∧ Related R next next'

theorem Related.bothReply (h : Related R stub stub') :
    BothReply R (some stub) (some stub') := ⟨stub, stub', rfl, rfl, h⟩

theorem BothReply.ite {c : Prop} [Decidable c] {a b : Option (GdbStub P)}
    {a' b' : Option (GdbStub Q)} (ha : c → BothReply R a a') (hb : ¬c → BothReply R b b') :
    BothReply R (if c then a else b) (if c then a' else b') := by
  by_cases hc : c
  · rw [if_pos hc, if_pos hc]
    exact ha hc
  · rw [if_neg hc, if_neg hc]
    exact hb hc

theorem Related.written (h : Related R stub stub') {w : Bool × P} {w' : Bool × Q}
    (hw : w.1 = w'.1 ∧ R w.2 w'.2) :
    BothReply R (some (GdbStub.okOrError { stub with cpu := w.2 } w.1))
      (some (GdbStub.okOrError { stub' with cpu := w'.2 } w'.1)) := by
  rw [hw.1]
  exact ((h.withCpu hw.2).okOrError _).bothReply

variable [IMipsProcessor P] [IMipsProcessor Q]

-- Related CPUs show the same state, and stay related when the same is written to both.
structure Interchangeable (R : P → Q → Prop) : Prop where
  regs {p : P} {q : Q} (h : R p q) : IMipsProcessor.regs p = IMipsProcessor.regs q
  mem {p : P} {q : Q} (h : R p q) : IMipsProcessor.mem p = IMipsProcessor.mem q
  cp0 {p : P} {q : Q} (h : R p q) : IMipsProcessor.cp0 p = IMipsProcessor.cp0 q
  pc {p : P} {q : Q} (h : R p q) : IMipsProcessor.pc p = IMipsProcessor.pc q
  hi {p : P} {q : Q} (h : R p q) : IMipsProcessor.hi p = IMipsProcessor.hi q
  lo {p : P} {q : Q} (h : R p q) : IMipsProcessor.lo p = IMipsProcessor.lo q
  setRegs {p : P} {q : Q} (h : R p q) (regs : RegisterFile) :
    R (IMipsProcessor.setRegs p regs) (IMipsProcessor.setRegs q regs)
  setMem {p : P} {q : Q} (h : R p q) (mem : Memory) :
    R (IMipsProcessor.setMem p mem) (IMipsProcessor.setMem q mem)
  setCp0 {p : P} {q : Q} (h : R p q) (cp0 : Cp0) :
    R (IMipsProcessor.setCp0 p cp0) (IMipsProcessor.setCp0 q cp0)
  setPc {p : P} {q : Q} (h : R p q) (pc : Word) :
    R (IMipsProcessor.setPc p pc) (IMipsProcessor.setPc q pc)
  setHi {p : P} {q : Q} (h : R p q) (hi : Word) :
    R (IMipsProcessor.setHi p hi) (IMipsProcessor.setHi q hi)
  setLo {p : P} {q : Q} (h : R p q) (lo : Word) :
    R (IMipsProcessor.setLo p lo) (IMipsProcessor.setLo q lo)

theorem Interchangeable.readGdbReg (hR : Interchangeable R) (h : R p q) (n : ℕ) :
    readGdbReg p n = readGdbReg q n := by
  simp only [GdbStub.readGdbReg, hR.regs h, hR.cp0 h, hR.lo h, hR.hi h, hR.pc h]

theorem Interchangeable.writeGdbReg (hR : Interchangeable R) (h : R p q) (n : ℕ) (value : Word) :
    R (writeGdbReg p n value) (writeGdbReg q n value) := by
  unfold GdbStub.writeGdbReg
  rw [hR.regs h, hR.cp0 h]
  split_ifs
  · exact hR.setRegs h _
  · exact hR.setCp0 h _
  · exact hR.setLo h _
  · exact hR.setHi h _
  · exact hR.setCp0 h _
  · exact hR.setPc h _
  · exact h

theorem Interchangeable.handleReadRegs (hR : Interchangeable R) (h : R p q) :
    handleReadRegs p = handleReadRegs q := by
  simp only [GdbStub.handleReadRegs, hR.readGdbReg h]

theorem Interchangeable.handleReadReg (hR : Interchangeable R) (h : R p q) (args : List Byte) :
    handleReadReg p args = handleReadReg q args := by
  simp only [GdbStub.handleReadReg, hR.readGdbReg h]

theorem Interchangeable.writeRegsFrom (hR : Interchangeable R) (h : R p q) (hex : List Byte)
    (i count : ℕ) :
    (writeRegsFrom hex p i count).1 = (writeRegsFrom hex q i count).1 ∧
      R (writeRegsFrom hex p i count).2 (writeRegsFrom hex q i count).2 := by
  induction count generalizing p q i with
  | zero => exact ⟨rfl, h⟩
  | succ count ih =>
    simp only [GdbStub.writeRegsFrom]
    cases parseWordLe hex (i * 8) with
    | none => exact ⟨rfl, h⟩
    | some v => exact ih (hR.writeGdbReg h i v) (i + 1)

theorem Interchangeable.handleWriteRegs (hR : Interchangeable R) (h : R p q) (hex : List Byte) :
    (handleWriteRegs p hex).1 = (handleWriteRegs q hex).1 ∧
      R (handleWriteRegs p hex).2 (handleWriteRegs q hex).2 := by
  unfold GdbStub.handleWriteRegs
  split_ifs
  · exact ⟨rfl, h⟩
  · exact hR.writeRegsFrom h hex 0 kNumRegs

theorem Interchangeable.handleWriteReg (hR : Interchangeable R) (h : R p q) (args : List Byte) :
    (handleWriteReg p args).1 = (handleWriteReg q args).1 ∧
      R (handleWriteReg p args).2 (handleWriteReg q args).2 := by
  unfold GdbStub.handleWriteReg
  cases find args (byte '=') with
  | none => exact ⟨rfl, h⟩
  | some eq =>
    dsimp only
    cases parseHex (args.take eq) with
    | none => exact ⟨rfl, h⟩
    | some n =>
      dsimp only
      split_ifs
      · exact ⟨rfl, h⟩
      · exact ⟨rfl, hR.writeGdbReg h _ _⟩

theorem Related.handleBreakpoint (hR : Interchangeable R) (h : Related R stub stub')
    (apply : Memory → List Breakpoint → Word → Bool × Memory × List Breakpoint)
    (args : List Byte) :
    Related R (handleBreakpoint apply stub args) (handleBreakpoint apply stub' args) := by
  unfold GdbStub.handleBreakpoint
  cases parseBreakpoint args with
  | malformed => exact h.sendPacket _
  | unsupported => exact h.sendPacket _
  | software addr =>
    dsimp only
    rw [hR.mem h.cpu, h.breakpoints]
    generalize apply (IMipsProcessor.mem stub'.cpu) stub'.breakpoints addr = result
    obtain ⟨ok, mem, breakpoints⟩ := result
    apply Related.okOrError
    exact ⟨hR.setMem h.cpu mem, h.sent, h.quiet, h.quiet', rfl, h.detached⟩

theorem Related.resumeAt (hR : Interchangeable R) (h : Related R stub stub') (args : List Byte) :
    Related R (stub.resumeAt args) (stub'.resumeAt args) := by
  unfold GdbStub.resumeAt
  cases parseHex args with
  | none => exact h
  | some pc => exact h.withCpu (hR.setPc h.cpu pc)

-- Every command that does not run the CPU gives the same reply.
theorem Related.dispatch (hR : Interchangeable R) (h : Related R stub stub') {pkt : List Byte}
    (hc : pkt.head? ≠ some (byte 'c')) (hs : pkt.head? ≠ some (byte 's')) (fuel fuel' : ℕ) :
    BothReply R (stub.dispatch fuel pkt) (stub'.dispatch fuel' pkt) := by
  cases pkt with
  | nil => exact (h.sendPacket _).bothReply
  | cons cmd args =>
    have hc' : cmd ≠ byte 'c' := by simpa using hc
    have hs' : cmd ≠ byte 's' := by simpa using hs
    refine .ite (fun _ => ?stop) fun _ => .ite (fun _ => ?g) fun _ => .ite (fun _ => ?G) fun _ =>
      .ite (fun _ => ?p) fun _ => .ite (fun _ => ?P) fun _ => .ite (fun _ => ?m) fun _ =>
      .ite (fun _ => ?M) fun _ => .ite (fun h => absurd h hc') fun _ =>
      .ite (fun h => absurd h hs') fun _ => .ite (fun _ => ?Z) fun _ => .ite (fun _ => ?z) fun _ =>
      .ite (fun _ => ?k) fun _ => .ite (fun _ => ?H) fun _ => .ite (fun _ => ?q) fun _ => ?other
    case stop => exact (h.sendPacket _).bothReply
    case g =>
      rw [hR.handleReadRegs h.cpu]
      exact (h.sendPacket _).bothReply
    case G => exact h.written (hR.handleWriteRegs h.cpu args)
    case p =>
      rw [hR.handleReadReg h.cpu]
      exact (h.sendPacket _).bothReply
    case P => exact h.written (hR.handleWriteReg h.cpu args)
    case m =>
      rw [hR.mem h.cpu]
      exact (h.sendPacket _).bothReply
    case M =>
      rw [hR.mem h.cpu]
      exact ((h.withCpu (hR.setMem h.cpu _)).okOrError _).bothReply
    case Z => exact (h.handleBreakpoint hR _ args).bothReply
    case z => exact (h.handleBreakpoint hR _ args).bothReply
    case k =>
      have hdetached : Related R { stub with running := false, detached := true }
          { stub' with running := false, detached := true } :=
        ⟨h.cpu, h.sent, h.quiet, h.quiet', h.breakpoints, rfl⟩
      exact (hdetached.sendPacket _).bothReply
    case H => exact (h.sendPacket _).bothReply
    case q => exact (h.handleQuery args).bothReply
    case other => exact (h.sendPacket _).bothReply

theorem Related.reportException (hR : Interchangeable R) (h : Related R stub stub')
    (hlast : stub.lastResult = stub'.lastResult) :
    Related R stub.reportException stub'.reportException := by
  have hsignal : stub.stopSignal = stub'.stopSignal := by
    simp only [stopSignal, hlast, hR.cp0 h.cpu]
  unfold GdbStub.reportException
  rw [hsignal]
  refine (h.sendPacket _).withCpu ?_
  have hcpu := hR.setPc h.cpu (IMipsProcessor.cp0 stub.cpu).epc
  nth_rewrite 2 [hR.cp0 h.cpu] at hcpu
  exact hcpu

end Access

-- The same state in both models, with nothing left to do in the pipeline.
structure SameState (s : SingleCycleCpu) (cpu : PipelinedCpu) : Prop where
  arch : cpu.arch = s.arch
  hi : s.hi = cpu.hi
  lo : s.lo = cpu.lo
  settled : cpu.Settled

theorem sameState_interchangeable : Interchangeable SameState where
  regs h := (congrArg Arch.regs h.arch).symm
  mem h := (congrArg Arch.mem h.arch).symm
  cp0 h := (congrArg Arch.cp0 h.arch).symm
  pc h := (congrArg Arch.pc h.arch).symm
  hi h := h.hi
  lo h := h.lo
  setRegs h regs := ⟨congrArg (fun a : Arch => { a with regs }) h.arch, h.hi, h.lo, h.settled.congr rfl rfl rfl rfl⟩
  setMem h mem := ⟨congrArg (fun a : Arch => { a with mem }) h.arch, h.hi, h.lo, h.settled.congr rfl rfl rfl rfl⟩
  setCp0 h cp0 := ⟨congrArg (fun a : Arch => { a with cp0 }) h.arch, h.hi, h.lo, h.settled.congr rfl rfl rfl rfl⟩
  setPc h pc := ⟨congrArg (fun a : Arch => { a with pc }) h.arch, h.hi, h.lo, h.settled.congr rfl rfl rfl rfl⟩
  setHi h _ := ⟨h.arch, rfl, h.lo, h.settled.congr rfl rfl rfl rfl⟩
  setLo h _ := ⟨h.arch, h.hi, rfl, h.settled.congr rfl rfl rfl rfl⟩

-- What a c needs to stop alike on both models: the code it runs is not changed, it does
-- not end at a self-targeting jump, and when the pipeline traps the instruction before
-- has no GPR left to write.
structure ContinuesAlike (s : SingleCycleCpu) (cpu : PipelinedCpu) : Prop where
  keepsCode : ∀ n, (∀ i < n, (s.run i).step.1 = .Ok) → s.NoSelfModification (n + 1)
  noHalt : ∀ n, ¬Stops s n .Halt
  noPending : ∀ k, Stops cpu k .Exception → (cpu.run k).pendingWrite = false

-- Either both stubs come to reply, in related states, or neither does.
def Alike (reply : ℕ → Option (GdbStub SingleCycleCpu))
    (reply' : ℕ → Option (GdbStub PipelinedCpu)) : Prop :=
  (∃ fuel fuel', BothReply SameState (reply fuel) (reply' fuel')) ∨
    ∀ fuel, reply fuel = none ∧ reply' fuel = none

-- A session without s in which every c stops alike.
def SessionAlike (stub : GdbStub SingleCycleCpu) (stub' : GdbStub PipelinedCpu) :
    List (List Byte) → Prop
  | [] => True
  | pkt :: pkts =>
      stub.detached = false →
        pkt.head? ≠ some (byte 's') ∧
        (∀ args, pkt = byte 'c' :: args →
          ContinuesAlike (stub.resumeAt args).cpu (stub'.resumeAt args).cpu) ∧
        ∀ fuel fuel' next next', stub.dispatch fuel pkt = some next →
          stub'.dispatch fuel' pkt = some next' → SessionAlike next next' pkts

section Sessions

variable {stub : GdbStub SingleCycleCpu} {stub' : GdbStub PipelinedCpu}

theorem Related.continueLoop (h : Related SameState stub stub')
    (hc : ContinuesAlike stub.cpu stub'.cpu) :
    Alike (fun fuel => continueLoop fuel 0 stub) (fun fuel => continueLoop fuel 0 stub') := by
  rcases stops_or_ok stub.cpu with ⟨n, result, hstops⟩ | hall
  · have hx : result = .Exception := by
      cases result with
      | Ok => exact absurd rfl hstops.ne_ok
      | Exception => rfl
      | Fault => exact absurd hstops.last (SingleCycleCpu.step_ne_fault _)
      | Halt => exact absurd hstops (hc.noHalt n)
    subst hx
    have hs : stub.cpu.RunsOk n := ⟨hstops.before, hc.keepsCode n hstops.before⟩
    obtain ⟨k, hok, hx, hafter⟩ := h.cpu.settled.reaches h.cpu.arch hs hstops.last
    have hstops' : Stops stub'.cpu k .Exception := ⟨hok, hx, by decide⟩
    obtain ⟨hsettled, harch⟩ := hafter (hc.noPending k hstops')
    obtain ⟨conn, hq, hsent, hrun⟩ := continueLoop_exception h.quiet
      (Nat.lt_succ_self n) hstops 0
    obtain ⟨conn', hq', hsent', hrun'⟩ := continueLoop_exception h.quiet'
      (Nat.lt_succ_self k) hstops' 0
    left
    refine ⟨n + 1, k + 1, _, _, hrun, hrun', ?_⟩
    apply Related.reportException sameState_interchangeable
    · refine ⟨⟨harch, ?_, ?_, hsettled⟩, ?_, hq, hq', h.breakpoints, h.detached⟩
      · have hs := stepped_eq (f := SingleCycleCpu.hi) (fun c => c.step_hi_lo.1) stub.cpu (n + 1)
        have hp := stepped_eq (f := PipelinedCpu.hi) (fun _ => rfl) stub'.cpu (k + 1)
        exact hs.trans (h.cpu.hi.trans hp.symm)
      · have hs := stepped_eq (f := SingleCycleCpu.lo) (fun c => c.step_hi_lo.2) stub.cpu (n + 1)
        have hp := stepped_eq (f := PipelinedCpu.lo) (fun _ => rfl) stub'.cpu (k + 1)
        exact hs.trans (h.cpu.lo.trans hp.symm)
      · exact hsent.trans (h.sent.trans hsent'.symm)
    · rfl
  · right
    have hs : ∀ n, stub.cpu.RunsOk n := fun n =>
      ⟨fun i _ => hall i, hc.keepsCode n fun i _ => hall i⟩
    intro fuel
    constructor
    · rw [Option.eq_none_iff_forall_ne_some]
      intro next hrun
      obtain ⟨k, -, result, hstops⟩ := continueLoop_stops h.quiet hrun
      exact hstops.ne_ok (hstops.last.symm.trans (hall k))
    · rw [Option.eq_none_iff_forall_ne_some]
      intro next hrun
      obtain ⟨k, -, result, hstops⟩ := continueLoop_stops h.quiet' hrun
      exact hstops.ne_ok (hstops.last.symm.trans (h.cpu.settled.ok h.cpu.arch hs k))

theorem Related.command (h : Related SameState stub stub') {pkt : List Byte}
    (hs : pkt.head? ≠ some (byte 's'))
    (hc : ∀ args, pkt = byte 'c' :: args →
      ContinuesAlike (stub.resumeAt args).cpu (stub'.resumeAt args).cpu) :
    Alike (stub.dispatch · pkt) (stub'.dispatch · pkt) := by
  by_cases hcmd : pkt.head? = some (byte 'c')
  · obtain ⟨args, rfl⟩ := List.head?_eq_some_iff.mp hcmd
    have hresumed := h.resumeAt sameState_interchangeable args
    have hrunning : Related SameState { stub.resumeAt args with running := true }
        { stub'.resumeAt args with running := true } :=
      ⟨hresumed.cpu, hresumed.sent, hresumed.quiet, hresumed.quiet', hresumed.breakpoints,
        hresumed.detached⟩
    exact hrunning.continueLoop (hc args rfl)
  · left
    exact ⟨0, 0, h.dispatch sameState_interchangeable hcmd hs 0 0⟩

theorem Related.session (h : Related SameState stub stub') {pkts : List (List Byte)}
    (hpkts : SessionAlike stub stub' pkts) :
    Alike (stub.session · pkts) (stub'.session · pkts) := by
  induction pkts generalizing stub stub' with
  | nil => exact .inl ⟨0, 0, h.bothReply⟩
  | cons pkt pkts ih =>
    cases hd : stub.detached with
    | true =>
      left
      refine ⟨0, 0, stub, stub', ?_, ?_, h⟩
      · simp [GdbStub.session, hd]
      · simp [GdbStub.session, ← h.detached, hd]
    | false =>
      have hd' : stub'.detached = false := by rw [← h.detached, hd]
      obtain ⟨hs, hc, hrest⟩ := hpkts hd
      rcases h.command hs hc with ⟨fuel, fuel', mid, mid', hmid, hmid', hrel⟩ | hnone
      · rcases ih hrel (hrest fuel fuel' mid mid' hmid hmid') with
          ⟨fuel₂, fuel₂', next, next', hnext, hnext', hlast⟩ | hnone
        · left
          exact ⟨_, _, next, next', session_cons hd hmid hnext, session_cons hd' hmid' hnext',
            hlast⟩
        · right
          intro f
          constructor
          · refine session_cons_none hd (fun g m hm g' => ?_) f
            rw [dispatch_unique hm hmid]
            exact (hnone g').1
          · refine session_cons_none hd' (fun g m hm g' => ?_) f
            rw [dispatch_unique hm hmid']
            exact (hnone g').2
      · right
        intro f
        constructor
        · refine session_cons_none hd (fun g m hm g' => ?_) f
          have hg : stub.dispatch g pkt = none := (hnone g).1
          rw [hg] at hm
          cases hm
        · refine session_cons_none hd' (fun g m hm g' => ?_) f
          have hg : stub'.dispatch g pkt = none := (hnone g).2
          rw [hg] at hm
          cases hm

theorem SessionAlike.take {pkts : List (List Byte)} (h : SessionAlike stub stub' pkts) (n : ℕ) :
    SessionAlike stub stub' (pkts.take n) := by
  induction pkts generalizing stub stub' n with
  | nil => simpa using h
  | cons pkt pkts ih =>
    cases n with
    | zero => trivial
    | succ n =>
      intro hd
      obtain ⟨hs, hc, hrest⟩ := h hd
      exact ⟨hs, hc, fun fuel fuel' next next' hn hn' => ih (hrest fuel fuel' next next' hn hn') n⟩

theorem SameState.step_idle {s : SingleCycleCpu} {cpu : PipelinedCpu} (h : SameState s cpu) :
    cpu.step.1 = .Ok ∧ cpu.step.2.regs = cpu.regs ∧ cpu.step.2.mem = cpu.mem ∧
      cpu.step.2.cp0 = cpu.cp0 :=
  h.settled.step_eq

-- Both models give the same replies in such a session, command by command, and show the
-- same state after it. An s would there let the pipeline execute no instruction.
theorem session_cpuModels (stub : GdbStub SingleCycleCpu) (stub' : GdbStub PipelinedCpu)
    (h : Related SameState stub stub') (pkts : List (List Byte))
    (hpkts : SessionAlike stub stub' pkts) (n : ℕ) :
    Alike (stub.session · (pkts.take n)) (stub'.session · (pkts.take n)) ∧
      ∀ fuel fuel' next next', stub.session fuel (pkts.take n) = some next →
        stub'.session fuel' (pkts.take n) = some next' →
        next.conn.sent = next'.conn.sent ∧
          handleReadRegs next.cpu = handleReadRegs next'.cpu ∧ next.cpu.mem = next'.cpu.mem ∧
          ∀ args, let resumed := next'.resumeAt args
            resumed.stepCpu.lastResult = .Ok ∧ resumed.stepCpu.cpu.regs = resumed.cpu.regs ∧
              resumed.stepCpu.cpu.mem = resumed.cpu.mem ∧
              resumed.stepCpu.cpu.cp0 = resumed.cpu.cp0 := by
  have halike := h.session (hpkts.take n)
  refine ⟨halike, ?_⟩
  intro fuel fuel' next next' hnext hnext'
  rcases halike with ⟨f, f', last, last', hlast, hlast', hrel⟩ | hnone
  · rw [session_unique hnext hlast, session_unique hnext' hlast']
    refine ⟨hrel.sent, sameState_interchangeable.handleReadRegs hrel.cpu,
      sameState_interchangeable.mem hrel.cpu, fun args => ?_⟩
    exact (hrel.resumeAt sameState_interchangeable args).cpu.step_idle
  · have hf : stub.session fuel (pkts.take n) = none := (hnone fuel).1
    rw [hf] at hnext
    cases hnext

end Sessions

-- addiu $1, $0, 5; nop; break
def nopProgram : Memory :=
  Memory.loadWordsFrom 0#32 0 [0x24010005#32, 0#32, 0x0000000D#32] (.ofSize 16)

def nopStub : GdbStub SingleCycleCpu := { cpu := { regs := .initial, mem := nopProgram } }

def nopStub' : GdbStub PipelinedCpu := { cpu := { regs := .initial, mem := nopProgram } }

theorem nopStub_related : Related SameState nopStub nopStub' where
  cpu := ⟨rfl, rfl, rfl, PipelinedCpu.Empty.settled ⟨rfl, rfl, rfl, rfl⟩⟩
  sent := rfl
  quiet := ⟨by decide, by decide⟩
  quiet' := ⟨by decide, by decide⟩
  breakpoints := rfl
  detached := rfl

theorem nopStub_continuesAlike : ContinuesAlike nopStub.cpu nopStub'.cpu := by
  have hs : Stops nopStub.cpu 2 .Exception := ⟨by decide, by decide, by decide⟩
  have hs' : Stops nopStub'.cpu 4 .Exception := ⟨by decide, by decide, by decide⟩
  refine ⟨?_, ?_, ?_⟩
  · intro n hok
    have hn : n ≤ 2 := by
      by_contra hlt
      exact hs.ne_ok (hs.last.symm.trans (hok 2 (by omega)))
    have hall : nopStub.cpu.NoSelfModification 3 := by decide
    exact fun j hj => hall j (by omega)
  · intro n hhalt
    cases (hs.unique hhalt).2
  · intro k hstops
    obtain ⟨rfl, -⟩ := hs'.unique hstops
    decide

theorem session_cpuModels_nopProgram :
    ∃ next next', nopStub.session 3 [text "c", text "p1"] = some next ∧
      nopStub'.session 5 [text "c", text "p1"] = some next' ∧
      next.conn.sent = next'.conn.sent ∧
      next.conn.sent = [.packet (text "T05thread:01;"), .packet (text "05000000")] := by
  have hsession : SessionAlike nopStub nopStub' [text "c", text "p1"] := by
    intro _
    refine ⟨by decide, ?_, ?_⟩
    · intro args hargs
      obtain rfl : args = [] := by simpa using (List.cons.inj hargs).2.symm
      exact nopStub_continuesAlike
    · intro fuel fuel' next next' _ _ _
      refine ⟨by decide, ?_, fun _ _ _ _ _ _ => trivial⟩
      intro args hargs
      exact absurd (List.cons.inj hargs).1 (by decide)
  obtain ⟨-, hsame⟩ := session_cpuModels nopStub nopStub' nopStub_related _ hsession 2
  have hsome : (nopStub.session 3 [text "c", text "p1"]).isSome = true := by decide
  have hsome' : (nopStub'.session 5 [text "c", text "p1"]).isSome = true := by decide
  have hsent : (nopStub.session 3 [text "c", text "p1"]).map (·.conn.sent) =
      some [.packet (text "T05thread:01;"), .packet (text "05000000")] := by decide
  obtain ⟨next, hnext⟩ := Option.isSome_iff_exists.mp hsome
  obtain ⟨next', hnext'⟩ := Option.isSome_iff_exists.mp hsome'
  rw [hnext, Option.map_some, Option.some.injEq] at hsent
  exact ⟨next, next', hnext, hnext', (hsame 3 5 next next' hnext hnext').1, hsent⟩

-- One s executes nothing on the pipeline, a GPR write is pending when the instruction
-- after it traps, and after a halt PC is past the jump.
theorem session_depends_on_model :
    (nopStub.session 0 [text "s", text "p1"]).map (·.conn.sent) =
        some [.packet (text "S05"), .packet (text "05000000")] ∧
      (nopStub'.session 0 [text "s", text "p1"]).map (·.conn.sent) =
        some [.packet (text "S05"), .packet (text "00000000")] ∧
      (nopStub.session 9 [text "M4,4:0d000000", text "c", text "p1"]).map (·.conn.sent) ≠
        (nopStub'.session 9 [text "M4,4:0d000000", text "c", text "p1"]).map (·.conn.sent) ∧
      (nopStub.session 9 [text "M0,4:00000008", text "c", text "p25"]).map (·.conn.sent) ≠
        (nopStub'.session 9 [text "M0,4:00000008", text "c", text "p25"]).map (·.conn.sent) := by
  decide

end GdbStub

end ClearCore.Mips
