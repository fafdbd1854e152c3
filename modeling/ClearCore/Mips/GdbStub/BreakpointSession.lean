import ClearCore.Mips.GdbStub.Continue
import ClearCore.Mips.GdbStub.Patched

-- A session that inserts breakpoints, continues and removes them again.

namespace ClearCore.Mips

open Isa Isa.Memory Gdb

namespace GdbStub

variable {stub : GdbStub SingleCycleCpu} {plain : Memory} {breakpoints : List Breakpoint}
  {addrs : List Word} {argss : List (List Byte)}

def okReply : Message := .packet (text "OK")

-- What the packets of the session ask for.
def Asks (argss : List (List Byte)) (addrs : List Word) : Prop :=
  List.Forall₂ (fun args addr => parseBreakpoint args = .software addr) argss addrs

theorem Shadows.insert_start {mem : Memory} (h : Shadows (.start plain) mem breakpoints)
    {addr word : Word} (hnew : ∀ bp ∈ breakpoints, bp.addr ≠ addr)
    (hread : mem.readWord addr = some word) :
    Shadows (.start plain) (mem.setWord addr kBreakWord)
      (breakpoints ++ [{ addr, savedWord := word }]) := by
  have hstart : (Shadow.start plain).insert addr = .start plain := by
    simp [Shadow.insert, Shadow.start]
  rw [← hstart]
  exact h.insert hnew hread

def withMem (cpu : SingleCycleCpu) (mem : Memory) : SingleCycleCpu := { cpu with mem }

@[simp] theorem withMem_mem (cpu : SingleCycleCpu) : withMem cpu cpu.mem = cpu := rfl

@[simp] theorem withMem_withMem (cpu : SingleCycleCpu) (mem mem' : Memory) :
    withMem (withMem cpu mem) mem' = withMem cpu mem' := rfl

-- The stub after `count` more OK replies.
def replied (stub : GdbStub SingleCycleCpu) (count : ℕ) (mem : Memory)
    (breakpoints : List Breakpoint) : GdbStub SingleCycleCpu :=
  { stub with
    cpu := withMem stub.cpu mem, breakpoints
    conn := { stub.conn with sent := stub.conn.sent ++ List.replicate count okReply } }

theorem replied_replied (stub : GdbStub SingleCycleCpu) (m n : ℕ) (mem mem' : Memory)
    (breakpoints breakpoints' : List Breakpoint) :
    replied (replied stub m mem breakpoints) n mem' breakpoints' =
      replied stub (m + n) mem' breakpoints' := by
  simp only [replied, withMem_withMem, List.append_assoc, List.replicate_append_replicate]

theorem dispatch_insert (h : Shadows (.start plain) stub.cpu.mem stub.breakpoints)
    {args : List Byte} {addr : Word} (hparse : parseBreakpoint args = .software addr)
    (hnew : ∀ bp ∈ stub.breakpoints, bp.addr ≠ addr) (ha : addr.toNat % 4 = 0)
    (hb : addr.toNat + 4 ≤ stub.cpu.mem.size) (fuel : ℕ) :
    ∃ mem word, stub.dispatch fuel (byte 'Z' :: args) =
        some (replied stub 1 mem (stub.breakpoints ++ [{ addr, savedWord := word }])) ∧
      Shadows (.start plain) mem (stub.breakpoints ++ [{ addr, savedWord := word }]) := by
  have hread := readWord_of_aligned ha hb
  have hany : (stub.breakpoints.any fun bp => bp.addr = addr) = false := by
    simpa using hnew
  refine ⟨_, _, ?_, h.insert_start hnew hread⟩
  have hdispatch : stub.dispatch fuel (byte 'Z' :: args) = some (stub.handleBreakpointSet args) :=
    rfl
  have hmem : IMipsProcessor.mem stub.cpu = stub.cpu.mem := rfl
  simp only [hdispatch, handleBreakpointSet, handleBreakpoint, hparse, insertBreakpoint, hmem, hany,
    Bool.false_eq_true, if_false, hread, writeWord_of_aligned ha hb]
  rfl

theorem session_insert (hattached : stub.detached = false)
    (h : Shadows (.start plain) stub.cpu.mem stub.breakpoints) (hasks : Asks argss addrs)
    (hnodup : (stub.breakpoints.map (·.addr) ++ addrs).Nodup)
    (hin : ∀ addr ∈ addrs, addr.toNat % 4 = 0 ∧ addr.toNat + 4 ≤ stub.cpu.mem.size) (fuel : ℕ)
    (rest : List (List Byte)) :
    ∃ mem breakpoints, stub.session fuel (argss.map (byte 'Z' :: ·) ++ rest) =
        (replied stub addrs.length mem breakpoints).session fuel rest ∧
      breakpoints.map (·.addr) = stub.breakpoints.map (·.addr) ++ addrs ∧
      Shadows (.start plain) mem breakpoints := by
  induction hasks generalizing stub with
  | nil =>
    refine ⟨stub.cpu.mem, stub.breakpoints, ?_, by simp, h⟩
    simp [replied]
  | @cons args addr argss addrs hparse _ ih =>
    obtain ⟨ha, hb⟩ := hin addr List.mem_cons_self
    have hnew : ∀ bp ∈ stub.breakpoints, bp.addr ≠ addr := by
      intro bp hbp he
      have hdisjoint := (List.nodup_append.mp hnodup).2.2
      exact hdisjoint bp.addr (List.mem_map_of_mem hbp) addr List.mem_cons_self he
    obtain ⟨mem, word, hfirst, hmem⟩ := dispatch_insert h hparse hnew ha hb fuel
    have hsize : mem.size = stub.cpu.mem.size := hmem.size_plain.symm.trans h.size_plain
    let next := replied stub 1 mem (stub.breakpoints ++ [{ addr, savedWord := word }])
    have hattached' : next.detached = false := hattached
    have hshadows : Shadows (.start plain) next.cpu.mem next.breakpoints := hmem
    have hnodup' : (next.breakpoints.map (·.addr) ++ addrs).Nodup := by
      simpa [next, replied] using hnodup
    have hin' : ∀ a ∈ addrs, a.toNat % 4 = 0 ∧ a.toNat + 4 ≤ next.cpu.mem.size := by
      intro a ha
      rw [show next.cpu.mem = mem from rfl, hsize]
      exact hin a (List.mem_cons_of_mem addr ha)
    obtain ⟨mem', breakpoints, hrest, haddrs, hmem'⟩ := ih hattached' hshadows hnodup' hin'
    refine ⟨mem', breakpoints, ?_, ?_, hmem'⟩
    · rw [List.map_cons, List.cons_append, session, hattached, hfirst]
      simp only [Bool.false_eq_true, if_false, Option.bind_some]
      rw [hrest, replied_replied, List.length_cons, Nat.add_comm]
    · rw [haddrs]
      simp [next, replied]

theorem dispatch_remove (h : Shadows (.start plain) stub.cpu.mem stub.breakpoints)
    {args : List Byte} {bp : Breakpoint} {rest : List Breakpoint}
    (hparse : parseBreakpoint args = .software bp.addr) (hbps : stub.breakpoints = bp :: rest)
    (fuel : ℕ) :
    ∃ mem, stub.dispatch fuel (byte 'z' :: args) = some (replied stub 1 mem rest) ∧
      Shadows (.start plain) mem rest := by
  have hbp : bp ∈ stub.breakpoints := by
    rw [hbps]
    exact List.mem_cons_self
  have hwrite := writeWord_of_aligned (h.aligned bp hbp) (h.inBounds bp hbp) bp.savedWord
  have hrest := h.remove hbp
  rw [hbps, List.eraseP_cons_of_pos (by simp)] at hrest
  refine ⟨_, ?_, hrest⟩
  have hdispatch : stub.dispatch fuel (byte 'z' :: args) =
      some (stub.handleBreakpointClear args) := rfl
  have hmem : IMipsProcessor.mem stub.cpu = stub.cpu.mem := rfl
  have hfind : (bp :: rest).find? (fun other => other.addr = bp.addr) = some bp := by simp
  have herase : (bp :: rest).eraseP (fun other => other.addr = bp.addr) = rest := by simp
  simp only [hdispatch, handleBreakpointClear, handleBreakpoint, hparse, removeBreakpoint, hmem,
    hbps, hfind, herase, hwrite, Option.getD_some]
  rfl

theorem session_remove (hattached : stub.detached = false)
    (h : Shadows (.start plain) stub.cpu.mem stub.breakpoints) (hasks : Asks argss addrs)
    (haddrs : stub.breakpoints.map (·.addr) = addrs) (fuel : ℕ) :
    stub.session fuel (argss.map (byte 'z' :: ·)) = some (replied stub addrs.length plain []) := by
  induction hasks generalizing stub with
  | nil =>
    have hnone : stub.breakpoints = [] := List.map_eq_nil_iff.mp haddrs
    have hmem : stub.cpu.mem = plain := by
      apply eq_of_getElem?
      intro n
      apply h.outside
      simp [Covered, hnone]
    simp [session, replied, ← hmem, ← hnone]
  | @cons args addr argss addrs hparse _ ih =>
    obtain ⟨bp, rest, hbps, rfl, hrest⟩ := List.map_eq_cons_iff.mp haddrs
    obtain ⟨mem, hfirst, hmem⟩ := dispatch_remove h hparse hbps fuel
    let next := replied stub 1 mem rest
    have hattached' : next.detached = false := hattached
    have hshadows : Shadows (.start plain) next.cpu.mem next.breakpoints := hmem
    have hnext := ih hattached' hshadows hrest
    rw [List.map_cons, session, hattached, hfirst]
    simp only [Bool.false_eq_true, if_false, Option.bind_some]
    rw [hnext, replied_replied, List.length_cons, Nat.add_comm]

section Continue

variable {P : Type} [IMipsProcessor P]

-- How handle_continue ends after a step that is not Ok.
def stopped (stub : GdbStub P) : GdbStub P :=
  match stub.lastResult with
  | .Exception => reportException { stub with running := false }
  | _ => sendSignal { stub with running := false } kSIGTRAP

def stopReply (stub : GdbStub P) : Message :=
  match stub.lastResult with
  | .Exception => .packet (text "T" ++ hexByte stub.stopSignal ++ text "thread:01;")
  | _ => .packet (text "S" ++ hexByte kSIGTRAP)

theorem stopped_sent (stub : GdbStub P) :
    (stopped stub).conn.sent = stub.conn.sent ++ [stub.stopReply] := by
  unfold stopped stopReply
  cases hlast : stub.lastResult with
  | Exception =>
    simp only [reportException, sendPacket, Conn.send, stopSignal, hlast]
  | Ok | Fault | Halt => rfl

theorem stopReply_congr {stub stub' : GdbStub P} (hlast : stub.lastResult = stub'.lastResult)
    (hcp0 : IMipsProcessor.cp0 stub.cpu = IMipsProcessor.cp0 stub'.cpu) :
    stub.stopReply = stub'.stopReply := by
  simp only [stopReply, stopSignal, hlast, hcp0]

theorem stopReply_break {stub : GdbStub P} (hlast : stub.lastResult = .Exception)
    (hexc : (IMipsProcessor.cp0 stub.cpu).lastExc = .Bp) :
    stub.stopReply = .packet (text "T05thread:01;") := by
  have htext : text "T" ++ hexByte kSIGTRAP ++ text "thread:01;" = text "T05thread:01;" := by decide
  simp only [stopReply, stopSignal, hlast, hexc, htext]

-- The stub after the steps of a c.
def ranTo (stub : GdbStub P) (cpu : P) (conn : Conn) (result : StepResult) : GdbStub P :=
  { stub with cpu, conn, running := true, lastResult := result }

theorem continueLoop_stopped {fuel k : ℕ} {stub : GdbStub P} {result : StepResult}
    (h : stub.conn.Quiet) (hk : k < fuel) (hstops : Stops stub.cpu k result) (steps : ℕ) :
    ∃ conn, conn.Quiet ∧ conn.sent = stub.conn.sent ∧
      continueLoop fuel steps stub =
        some (stopped { stub with cpu := stepped stub.cpu (k + 1), conn, lastResult := result }) := by
  induction fuel generalizing steps stub k with
  | zero => omega
  | succ fuel ih =>
    cases k with
    | zero =>
      obtain ⟨conn, hpoll, hq, hsent⟩ := pollTurn_quiet h (steps + 1)
      refine ⟨conn, hq, hsent, ?_⟩
      have hlast : (IMipsProcessor.step stub.cpu).1 = result := hstops.last
      rw [continueLoop]
      simp only [hpoll, Bool.false_eq_true, if_false, stepCpu, hlast]
      cases result with
      | Ok => exact absurd rfl hstops.ne_ok
      | Exception | Fault | Halt => rfl
    | succ k =>
      have hok : (IMipsProcessor.step stub.cpu).1 = .Ok := hstops.before 0 (by omega)
      obtain ⟨conn, hq, hsent, hturn⟩ := continueLoop_ok h hok fuel steps
      have hrest : Stops (stepCpu { stub with conn }).cpu k result :=
        ⟨fun i hi => hstops.before (i + 1) (by omega), hstops.last, hstops.ne_ok⟩
      have hq₂ : (stepCpu { stub with conn }).conn.Quiet := hq
      obtain ⟨conn', hq', hsent', hrun⟩ := ih hq₂ (by omega) hrest (steps + 1)
      refine ⟨conn', hq', hsent'.trans hsent, ?_⟩
      rw [hturn, hrun]
      rfl

theorem dispatch_continue {fuel k : ℕ} {stub : GdbStub P} {result : StepResult}
    (h : stub.conn.Quiet) (hk : k < fuel) (hstops : Stops stub.cpu k result) :
    ∃ conn, conn.Quiet ∧ conn.sent = stub.conn.sent ∧
      stub.dispatch fuel (text "c") =
        some (stopped (stub.ranTo (stepped stub.cpu (k + 1)) conn result)) := by
  have hq : ({ stub with running := true } : GdbStub P).conn.Quiet := h
  exact continueLoop_stopped hq hk hstops 0

end Continue

section Session

variable {cpu : SingleCycleCpu} {n fuel : ℕ}

theorem Patched.stops {plain : SingleCycleCpu} (h : Patched plain.arch cpu.arch breakpoints)
    {result : StepResult} (hstops : Stops plain n result)
    (hclear : ∀ i ≤ n, Clear (plain.run i).arch (breakpoints.map (·.addr))) :
    Stops cpu n result := by
  have hstep : ∀ i ≤ n, (cpu.run i).step.1 = (plain.run i).step.1 := by
    intro i hi
    have hrun := h.run fun j (hj : j < i) => hclear j (by omega)
    exact hrun.step_result (hclear i hi)
  refine ⟨fun i hi => ?_, ?_, hstops.ne_ok⟩
  · exact (hstep i (by omega)).trans (hstops.before i hi)
  · exact (hstep n le_rfl).trans hstops.last

-- The step at the first breakpoint is the first that is not Ok.
theorem Patched.stops_hit {plain : SingleCycleCpu} (h : Patched plain.arch cpu.arch breakpoints)
    (hok : ∀ i < n, (plain.run i).step.1 = .Ok)
    (hclear : ∀ i < n, Clear (plain.run i).arch (breakpoints.map (·.addr)))
    (hhit : (plain.run n).pc ∈ breakpoints.map (·.addr)) : Stops cpu n .Exception := by
  obtain ⟨bp, hbp, hpc⟩ := List.mem_map.mp hhit
  refine ⟨?_, ?_, by decide⟩
  · intro i hi
    have hrun := h.run fun j (hj : j < i) => hclear j (by omega)
    exact (hrun.step_result (hclear i hi)).trans (hok i hi)
  · have htrap : (cpu.run n).arch.trapped = true := by
      rw [Arch.trapped, (h.run hclear).outcome_hit hbp hpc.symm]
    exact (SingleCycleCpu.trapped_iff _).mpr htrap

-- The trap that a breakpoint makes of the instruction it replaces.
theorem Patched.run_hit {plain : SingleCycleCpu} (h : Patched plain.arch cpu.arch breakpoints)
    (hclear : ∀ i < n, Clear (plain.run i).arch (breakpoints.map (·.addr)))
    (hhit : (plain.run n).pc ∈ breakpoints.map (·.addr)) :
    (cpu.run (n + 1)).arch =
        { regs := (plain.run n).regs
          mem := (cpu.run n).mem
          cp0 := (plain.run n).cp0.raise .Bp (plain.run n).pc 0#32
          pc := kExceptionVector } ∧
      Shadows (.start (plain.run n).mem) (cpu.run n).mem breakpoints := by
  obtain ⟨bp, hbp, hpc⟩ := List.mem_map.mp hhit
  have hn := h.run hclear
  have hregs : (cpu.run n).regs = (plain.run n).regs := hn.regs
  have hcp0 : (cpu.run n).cp0 = (plain.run n).cp0 := hn.cp0
  have hpc' : (cpu.run n).pc = (plain.run n).pc := hn.pc
  refine ⟨?_, hn.mem⟩
  rw [SingleCycleCpu.run_succ, SingleCycleCpu.step_arch,
    Arch.step_of_trap (hn.outcome_hit hbp hpc.symm)]
  simp only [SingleCycleCpu.arch, hregs, hcp0, hpc']

theorem run_hi_lo (cpu : SingleCycleCpu) (n : ℕ) :
    (cpu.run n).hi = cpu.hi ∧ (cpu.run n).lo = cpu.lo :=
  ⟨stepped_eq (f := SingleCycleCpu.hi) (fun c => c.step_hi_lo.1) cpu n,
    stepped_eq (f := SingleCycleCpu.lo) (fun c => c.step_hi_lo.2) cpu n⟩

-- A c between packets that insert breakpoints and packets that remove them.
def breakpointSession (argss : List (List Byte)) : List (List Byte) :=
  argss.map (byte 'Z' :: ·) ++ text "c" :: argss.map (byte 'z' :: ·)

-- A stub with no breakpoints, and the packets for breakpoints at `addrs`.
structure Inserts (stub : GdbStub SingleCycleCpu) (argss : List (List Byte)) (addrs : List Word) :
    Prop where
  attached : stub.detached = false
  none : stub.breakpoints = []
  quiet : stub.conn.Quiet
  asks : Asks argss addrs
  distinct : addrs.Nodup
  inMemory : ∀ addr ∈ addrs, addr.toNat % 4 = 0 ∧ addr.toNat + 4 ≤ stub.cpu.mem.size

-- Where the CPU is left: after an exception PC goes back to EPC.
theorem stopped_arch {stub stub' : GdbStub SingleCycleCpu} (hlast : stub.lastResult = stub'.lastResult)
    (hregs : stub.cpu.regs = stub'.cpu.regs) (hcp0 : stub.cpu.cp0 = stub'.cpu.cp0)
    (hpc : stub.cpu.pc = stub'.cpu.pc) :
    (withMem (stopped stub).cpu stub'.cpu.mem).arch = (stopped stub').cpu.arch := by
  unfold stopped
  rw [hlast]
  cases stub'.lastResult with
  | Exception =>
    change Arch.mk stub.cpu.regs stub'.cpu.mem stub.cpu.cp0 stub.cpu.cp0.epc = _
    rw [hregs, hcp0]
    rfl
  | Ok | Fault | Halt =>
    change Arch.mk stub.cpu.regs stub'.cpu.mem stub.cpu.cp0 stub.cpu.pc = _
    rw [hregs, hcp0, hpc]
    rfl

theorem stopped_hi_lo (stub : GdbStub SingleCycleCpu) :
    (stopped stub).cpu.hi = stub.cpu.hi ∧ (stopped stub).cpu.lo = stub.cpu.lo := by
  rw [stopped]
  split
  · exact ⟨rfl, rfl⟩
  · exact ⟨rfl, rfl⟩

theorem replied_sent {ran : GdbStub SingleCycleCpu} {sent : List Message} {count : ℕ}
    (hsent : ran.conn.sent = sent ++ List.replicate count okReply) (mem : Memory) :
    (replied (stopped ran) count mem []).conn.sent =
      sent ++ (List.replicate count okReply ++
        ran.stopReply :: List.replicate count okReply) := by
  simp only [replied, stopped_sent, hsent, List.append_assoc, List.cons_append, List.nil_append]

@[simp] theorem stopped_mem (stub : GdbStub SingleCycleCpu) :
    (stopped stub).cpu.mem = stub.cpu.mem := by
  rw [stopped]
  split <;> rfl

@[simp] theorem stopped_breakpoints (stub : GdbStub SingleCycleCpu) :
    (stopped stub).breakpoints = stub.breakpoints := by
  rw [stopped]
  split <;> rfl

@[simp] theorem stopped_detached (stub : GdbStub SingleCycleCpu) :
    (stopped stub).detached = stub.detached := by
  rw [stopped]
  split <;> rfl

-- The packets around the c do to the target what they do to its memory.
theorem Inserts.session_eq (h : Inserts stub argss addrs) {result : StepResult} {after : Memory}
    (hstops : ∀ mem breakpoints, breakpoints.map (·.addr) = addrs →
      Patched stub.cpu.arch (withMem stub.cpu mem).arch breakpoints →
      Stops (withMem stub.cpu mem) n result ∧
        Shadows (.start after) ((withMem stub.cpu mem).run (n + 1)).mem breakpoints)
    (hfuel : n < fuel) :
    ∃ mem breakpoints conn, breakpoints.map (·.addr) = addrs ∧
      Patched stub.cpu.arch (withMem stub.cpu mem).arch breakpoints ∧
      conn.sent = stub.conn.sent ++ List.replicate addrs.length okReply ∧
      stub.session fuel (breakpointSession argss) = some (replied (stopped
        (ranTo { stub with breakpoints } ((withMem stub.cpu mem).run (n + 1)) conn result))
          addrs.length after []) := by
  have hstart : Shadows (.start stub.cpu.mem) stub.cpu.mem stub.breakpoints := by
    rw [h.none]
    exact .start _
  have hnodup : (stub.breakpoints.map (·.addr) ++ addrs).Nodup := by
    rw [h.none]
    exact h.distinct
  obtain ⟨mem, breakpoints, hinsert, haddrs, hmem⟩ := session_insert h.attached hstart h.asks hnodup
    h.inMemory fuel (text "c" :: argss.map (byte 'z' :: ·))
  rw [h.none, List.map_nil, List.nil_append] at haddrs
  have hpatched : Patched stub.cpu.arch (withMem stub.cpu mem).arch breakpoints :=
    ⟨rfl, rfl, rfl, hmem⟩
  obtain ⟨hstop, hafter⟩ := hstops mem breakpoints haddrs hpatched
  let inserted := replied stub addrs.length mem breakpoints
  have hquiet : inserted.conn.Quiet := ⟨h.quiet.rx, h.quiet.socket⟩
  have hstop' : Stops inserted.cpu n result := hstop
  obtain ⟨conn, -, hsent, hcontinue⟩ := dispatch_continue hquiet hfuel hstop'
  refine ⟨mem, breakpoints, conn, haddrs, hpatched, hsent, ?_⟩
  have hopen : inserted.detached = false := h.attached
  rw [breakpointSession, hinsert, session, show (replied stub _ mem _).detached = false from hopen,
    hcontinue]
  simp only [Bool.false_eq_true, if_false, Option.bind_some]
  refine session_remove ?_ ?_ h.asks ?_ fuel
  · rw [stopped_detached]
    exact h.attached
  · rw [stopped_mem, stopped_breakpoints]
    exact hafter
  · rw [stopped_breakpoints]
    exact haddrs

-- Insert, continue, remove: the target stops where the program first comes to one of the
-- addresses, in the state the program has there, and only CP0 shows the breakpoint.
theorem breakpoint_session_hit (h : Inserts stub argss addrs)
    (hok : ∀ i < n, (stub.cpu.run i).step.1 = .Ok)
    (hclear : ∀ i < n, Clear (stub.cpu.run i).arch addrs) (hhit : (stub.cpu.run n).pc ∈ addrs)
    (hfuel : n < fuel) :
    ∃ next, stub.session fuel (breakpointSession argss) = some next ∧
      next.conn.sent = stub.conn.sent ++ (List.replicate addrs.length okReply ++
        .packet (text "T05thread:01;") :: List.replicate addrs.length okReply) ∧
      next.breakpoints = [] ∧
      next.cpu.regs = (stub.cpu.run n).regs ∧ next.cpu.mem = (stub.cpu.run n).mem ∧
      next.cpu.hi = stub.cpu.hi ∧ next.cpu.lo = stub.cpu.lo ∧
      next.cpu.cp0 = (stub.cpu.run n).cp0.raise .Bp (stub.cpu.run n).pc 0#32 ∧
      next.cpu.pc = next.cpu.cp0.epc ∧
      ((stub.cpu.run n).cp0.inException = false → next.cpu.pc = (stub.cpu.run n).pc) := by
  have hstops : ∀ mem breakpoints, breakpoints.map (·.addr) = addrs →
      Patched stub.cpu.arch (withMem stub.cpu mem).arch breakpoints →
      Stops (withMem stub.cpu mem) n .Exception ∧ Shadows (.start (stub.cpu.run n).mem)
        ((withMem stub.cpu mem).run (n + 1)).mem breakpoints := by
    rintro mem breakpoints rfl hpatched
    obtain ⟨hrun, hshadows⟩ := hpatched.run_hit hclear hhit
    have hmem : ((withMem stub.cpu mem).run (n + 1)).mem = ((withMem stub.cpu mem).run n).mem :=
      congrArg Arch.mem hrun
    rw [hmem]
    exact ⟨hpatched.stops_hit hok hclear hhit, hshadows⟩
  obtain ⟨mem, breakpoints, conn, rfl, hpatched, hsent, hsession⟩ := h.session_eq hstops hfuel
  refine ⟨_, hsession, ?_⟩
  have hrun := (hpatched.run_hit hclear hhit).1
  have hregs : ((withMem stub.cpu mem).run (n + 1)).regs = (stub.cpu.run n).regs :=
    congrArg Arch.regs hrun
  have hcp0 : ((withMem stub.cpu mem).run (n + 1)).cp0 =
      (stub.cpu.run n).cp0.raise .Bp (stub.cpu.run n).pc 0#32 := congrArg Arch.cp0 hrun
  obtain ⟨hhi, hlo⟩ := run_hi_lo (withMem stub.cpu mem) (n + 1)
  refine ⟨?_, rfl, hregs, rfl, hhi, hlo, hcp0, rfl, ?_⟩
  · rw [replied_sent hsent, stopReply_break rfl (congrArg Cp0.lastExc hcp0)]
  · intro hexl
    have hepc : ((withMem stub.cpu mem).run (n + 1)).cp0.epc = (stub.cpu.run n).pc := by
      rw [hcp0, Cp0.raise, hexl]
      rfl
    exact hepc

-- addiu $1, $0, 5; addiu $2, $1, 1; break
def additions : GdbStub SingleCycleCpu where
  cpu :=
    { regs := .initial
      mem := .loadWordsFrom 0#32 0 [0x24010005#32, 0x24220001#32, 0x0000000D#32] (.ofSize 16) }

theorem additions_inserts {args : List Byte} {addr : Word}
    (hparse : parseBreakpoint args = .software addr) (ha : addr.toNat % 4 = 0)
    (hb : addr.toNat + 4 ≤ additions.cpu.mem.size) : Inserts additions [args] [addr] where
  attached := rfl
  none := rfl
  quiet := ⟨by decide, by decide⟩
  asks := .cons hparse .nil
  distinct := by simp
  inMemory := by simpa using ⟨ha, hb⟩

theorem additions_clear {addr : Word} (haddr : 8 ≤ addr.toNat) :
    ∀ i < 2, Clear (additions.cpu.run i).arch [addr] := by
  intro i hi
  have hpc : (additions.cpu.run i).pc.toNat = 4 * i ∧ (additions.cpu.run i).arch.dataAddr = none := by
    obtain rfl | rfl : i = 0 ∨ i = 1 := by omega
    · decide
    · decide
  constructor
  · intro hmem
    obtain rfl := List.mem_singleton.mp hmem
    simp only [SingleCycleCpu.arch_pc] at haddr
    omega
  · simp [hpc.2]

theorem breakpoint_session_hit_additions :
    ∃ next, additions.session 3 (breakpointSession [text "0,8,4"]) = some next ∧
      next.cpu.pc = 8#32 ∧ next.cpu.regs.read 2#5 = 6#32 ∧ next.cpu.mem = additions.cpu.mem := by
  have hinserts : Inserts additions [text "0,8,4"] [8#32] :=
    additions_inserts (by decide) (by decide) (by decide)
  obtain ⟨next, hsession, -, -, hregs, hmem, -, -, -, -, hpc⟩ := breakpoint_session_hit (n := 2)
    hinserts (by decide) (additions_clear (by decide)) (by decide) (Nat.lt_succ_self 2)
  refine ⟨next, hsession, (hpc (by decide)).trans (by decide), ?_, hmem.trans (by decide)⟩
  rw [hregs]
  decide

-- Breakpoints that the program does not come to change only the replies around the c.
theorem breakpoint_session_missed (h : Inserts stub argss addrs) {result : StepResult}
    (hstops : Stops stub.cpu n result) (hclear : ∀ i ≤ n, Clear (stub.cpu.run i).arch addrs)
    (hfuel : n < fuel) :
    ∃ next next' reply, stub.session fuel (breakpointSession argss) = some next ∧
      stub.session fuel [text "c"] = some next' ∧
      next'.conn.sent = stub.conn.sent ++ [reply] ∧
      next.conn.sent = stub.conn.sent ++ (List.replicate addrs.length okReply ++
        reply :: List.replicate addrs.length okReply) ∧
      next.breakpoints = [] ∧ next.cpu.arch = next'.cpu.arch ∧
      next.cpu.hi = next'.cpu.hi ∧ next.cpu.lo = next'.cpu.lo := by
  have hpatchedRun : ∀ mem breakpoints, breakpoints.map (·.addr) = addrs →
      Patched stub.cpu.arch (withMem stub.cpu mem).arch breakpoints →
      Patched (stub.cpu.run (n + 1)).arch ((withMem stub.cpu mem).run (n + 1)).arch breakpoints := by
    rintro mem breakpoints rfl hpatched
    exact hpatched.run fun i hi => hclear i (by omega)
  have hend : ∀ mem breakpoints, breakpoints.map (·.addr) = addrs →
      Patched stub.cpu.arch (withMem stub.cpu mem).arch breakpoints →
      Stops (withMem stub.cpu mem) n result ∧ Shadows (.start (stub.cpu.run (n + 1)).mem)
        ((withMem stub.cpu mem).run (n + 1)).mem breakpoints := by
    rintro mem breakpoints rfl hpatched
    exact ⟨hpatched.stops hstops hclear, (hpatchedRun mem breakpoints rfl hpatched).mem⟩
  obtain ⟨mem, breakpoints, conn, haddrs, hpatched, hsent, hsession⟩ := h.session_eq hend hfuel
  obtain ⟨conn', -, hsent', hcontinue⟩ := dispatch_continue h.quiet hfuel hstops
  have hrun := hpatchedRun mem breakpoints haddrs hpatched
  have hsession' : stub.session fuel [text "c"] =
      some (stopped (stub.ranTo (stub.cpu.run (n + 1)) conn' result)) := by
    rw [session, h.attached, hcontinue]
    rfl
  let ran := ranTo { stub with breakpoints } ((withMem stub.cpu mem).run (n + 1)) conn result
  let ran' := stub.ranTo (stub.cpu.run (n + 1)) conn' result
  have hregs : ran.cpu.regs = ran'.cpu.regs := hrun.regs
  have hcp0 : ran.cpu.cp0 = ran'.cpu.cp0 := hrun.cp0
  have hpc : ran.cpu.pc = ran'.cpu.pc := hrun.pc
  have hreply : ran.stopReply = ran'.stopReply := stopReply_congr rfl hcp0
  obtain ⟨hhi, hlo⟩ := run_hi_lo (withMem stub.cpu mem) (n + 1)
  obtain ⟨hhi', hlo'⟩ := run_hi_lo stub.cpu (n + 1)
  have hlast : ran.lastResult = ran'.lastResult := rfl
  have harch := stopped_arch hlast hregs hcp0 hpc
  refine ⟨_, _, ran'.stopReply, hsession, hsession', ?_, ?_, rfl, harch, ?_, ?_⟩
  · rw [stopped_sent]
    exact congrArg (· ++ _) hsent'
  · rw [replied_sent hsent, ← hreply]
  · have hran : ran.cpu.hi = ran'.cpu.hi := hhi.trans hhi'.symm
    exact (stopped_hi_lo ran).1.trans (hran.trans (stopped_hi_lo ran').1.symm)
  · have hran : ran.cpu.lo = ran'.cpu.lo := hlo.trans hlo'.symm
    exact (stopped_hi_lo ran).2.trans (hran.trans (stopped_hi_lo ran').2.symm)

theorem breakpoint_session_missed_additions :
    ∃ next next', additions.session 3 (breakpointSession [text "0,c,4"]) = some next ∧
      additions.session 3 [text "c"] = some next' ∧ next.cpu.arch = next'.cpu.arch := by
  have hinserts : Inserts additions [text "0,c,4"] [12#32] :=
    additions_inserts (by decide) (by decide) (by decide)
  have hstops : Stops additions.cpu 2 .Exception := ⟨by decide, by decide, by decide⟩
  have hclear : ∀ i ≤ 2, Clear (additions.cpu.run i).arch [12#32] := by
    intro i hi
    obtain hlt | rfl := Nat.lt_or_eq_of_le hi
    · exact additions_clear (by decide) i hlt
    · have hdata : (additions.cpu.run 2).arch.dataAddr = none := by decide
      exact ⟨by decide, by simp [hdata]⟩
  obtain ⟨next, next', -, hsession, hsession', -, -, -, harch, -⟩ :=
    breakpoint_session_missed hinserts hstops hclear (Nat.lt_succ_self 2)
  exact ⟨next, next', hsession, hsession', harch⟩

end Session

end GdbStub

end ClearCore.Mips
