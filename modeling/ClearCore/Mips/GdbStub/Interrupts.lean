import ClearCore.Mips.GdbStub.Replies
import ClearCore.Mips.GdbStub.Serve

-- Ctrl-C is answered once, and every packet dispatched once.

namespace ClearCore.Mips

open Isa Gdb Gdb.Conn

namespace GdbStub

namespace Serving

-- Between two states of the connection the stream brings these packets, and each Ctrl-C in
-- it is answered.
def Serves (conn next : Conn) (packets : List (List Byte)) : Prop :=
  ∃ bytes interrupts, conn.stream = bytes ++ next.stream ∧ Brings bytes interrupts packets ∧
    sigints next.sent = sigints conn.sent + interrupts

theorem serves_refl (conn : Conn) : Serves conn conn [] := ⟨[], 0, rfl, .nil, rfl⟩

theorem serves_of_reads {conn next : Conn} {packets : List (List Byte)}
    (h : Reads conn next 0 packets) : Serves conn next packets := by
  obtain ⟨bytes, hstream, hbytes⟩ := h.taken
  exact ⟨bytes, 0, hstream, hbytes, h.unanswered⟩

theorem serves_of_interrupt {conn next : Conn} (h : Reads conn next 1 []) :
    Serves conn (next.send (.packet (text "S02"))) [] := by
  obtain ⟨bytes, hstream, hbytes⟩ := h.taken
  exact ⟨bytes, 1, hstream, hbytes, by rw [sigints_send_sigint, h.unanswered]⟩

variable {P : Type}

theorem Serves.reply {conn : Conn} {stub next : GdbStub P} {packets : List (List Byte)}
    (h : Serves conn stub.conn packets) (hreply : Replies stub next) :
    Serves conn next.conn packets := by
  obtain ⟨bytes, interrupts, hstream, hbytes, hsent⟩ := h
  exact ⟨bytes, interrupts, by rw [hreply.stream, hstream], hbytes, by rw [hreply.sigints, hsent]⟩

-- The connection of a running c that has made `turns` turns: what a poll has seen holds no
-- Ctrl-C any more.
structure Attentive (conn : Conn) (turns : Option ℕ) : Prop where
  scanned : conn.Scanned
  polled : ∀ steps, turns = some steps → kInterruptPollSteps ≤ steps → Quiet conn.rx

theorem Attentive.of_room {conn : Conn} (h : conn.rx.length < kRxBufSize) :
    Attentive conn none := by
  refine ⟨fun hfull => ?_, nofun⟩
  omega

theorem Attentive.of_quiet {conn : Conn} (h : Quiet conn.rx) (turns : Option ℕ) :
    Attentive conn turns :=
  ⟨fun _ => h, fun _ _ _ => h⟩

theorem Attentive.congr {conn next : Conn} {turns : Option ℕ} (h : Attentive conn turns)
    (hrx : next.rx = conn.rx) : Attentive next turns := by
  refine ⟨?_, ?_⟩
  · rw [Scanned, hrx]
    exact h.scanned
  · rw [hrx]
    exact h.polled

-- The end of a c, and the start of one.
theorem Attentive.stopped {conn : Conn} {turns : Option ℕ} (h : Attentive conn turns) :
    Attentive conn none := ⟨h.scanned, nofun⟩

theorem Attentive.started {conn : Conn} (h : conn.rx.length < kRxBufSize) :
    Attentive conn (some 0) := by
  refine ⟨(Attentive.of_room h).scanned, ?_⟩
  intro steps hsteps hle
  obtain rfl := Option.some.inj hsteps
  simp [kInterruptPollSteps] at hle

-- The poll of a turn, if it makes one.
theorem pollTurn_attentive {stub polled : GdbStub P} {steps : ℕ} {ended : Bool}
    (hpoll : stub.pollTurn (steps + 1) = (ended, polled))
    (hall : (steps + 1) % kInterruptPollSteps = 0 → AllStop stub.conn.arrived)
    (h : Attentive stub.conn (some steps)) :
    Serves stub.conn polled.conn [] ∧
      Attentive polled.conn (if ended then none else some (steps + 1)) := by
  unfold pollTurn at hpoll
  split at hpoll
  · rename_i hmod
    have hspec := pollInput_spec (hall hmod) h.scanned
    obtain ⟨⟨result, conn⟩, hresult⟩ : ∃ r, stub.conn.pollInput = r := ⟨_, rfl⟩
    rw [hresult] at hspec
    cases hspec with
    | interrupt hint hreads hroom =>
      obtain rfl : result = .Interrupt := hint
      simp only [hresult, Prod.mk.injEq] at hpoll
      obtain ⟨rfl, rfl⟩ := hpoll
      exact ⟨serves_of_interrupt hreads, (Attentive.of_room hroom).congr rfl⟩
    | nothing hne hreads hquiet =>
      cases result with
      | Interrupt => exact absurd rfl hne
      | Closed | Idle =>
        simp only [hresult, Prod.mk.injEq] at hpoll
        obtain ⟨rfl, rfl⟩ := hpoll
        exact ⟨serves_of_reads hreads, .of_quiet hquiet _⟩
  · rename_i hmod
    simp only [Prod.mk.injEq] at hpoll
    obtain ⟨rfl, rfl⟩ := hpoll
    refine ⟨serves_refl _, h.scanned, ?_⟩
    intro steps' hsteps hle
    obtain rfl := Option.some.inj hsteps
    refine h.polled steps rfl ?_
    simp only [kInterruptPollSteps] at hle hmod ⊢
    omega

-- A turn that polls: it takes what has arrived, as far as there is room, and ends with one S02
-- at the first Ctrl-C it finds.
structure Polls (s t : Serving P) : Prop where
  taken : deliverable s.stub.conn.socket = s.stub.conn.taken ++ deliverable t.stub.conn.socket
  interrupted : 0x03#8 ∈ s.stub.conn.polled →
    t.turns = none ∧ t.stub.conn.sent = s.stub.conn.sent ++ [.packet (text "S02")] ∧
      ∃ before, 0x03#8 ∉ before ∧ s.stub.conn.polled = before ++ 0x03#8 :: t.stub.conn.rx
  silent : 0x03#8 ∉ s.stub.conn.polled →
    t.stub.conn.rx = s.stub.conn.polled ∧ sigints t.stub.conn.sent = sigints s.stub.conn.sent

-- What one step of the session does to the stream, the replies and the packets.
structure StepSpec (s t : Serving P) (packets : List (List Byte)) : Prop where
  serves : Serves s.stub.conn t.stub.conn packets
  dispatched : t.dispatched = s.dispatched ++ packets
  attentive : Attentive t.stub.conn t.turns

-- The state of a session after the stream `bytes`: every Ctrl-C in it has been answered
-- once, and every packet in it dispatched once and in order.
structure Answered (s : Serving P) (bytes : List Byte) : Prop where
  interrupts : sigints s.stub.conn.sent = (parse bytes).interrupts
  packets : s.dispatched = (parse bytes).packets

-- The invariant of a run from `start`: `received` is what has been taken off the stream.
structure Served (start s : Serving P) (received : List Byte) : Prop where
  stream : start.stub.conn.stream = received ++ s.stub.conn.stream
  brings : Brings received (sigints s.stub.conn.sent) s.dispatched
  attentive : Attentive s.stub.conn s.turns

theorem Served.answered {start s : Serving P} {received : List Byte}
    (h : Served start s received) : s.Answered received := by
  have hparse := h.brings.parse
  exact ⟨by rw [hparse], by rw [hparse]⟩

variable [IMipsProcessor P]

-- After the poll the CPU is stepped, and a stop is reported.
theorem continueTurn_spec {stub polled : GdbStub P} {steps : ℕ} {ended : Bool}
    (hpoll : stub.pollTurn (steps + 1) = (ended, polled)) :
    (ended = true ∧ stub.continueTurn steps = (true, polled)) ∨
      (ended = false ∧ ∃ next, stub.continueTurn steps = (true, next) ∧ Replies polled next) ∨
      (ended = false ∧ ∃ next, stub.continueTurn steps = (false, next) ∧
        next.conn = polled.conn) := by
  rw [continueTurn]
  simp only [hpoll]
  cases ended with
  | true => exact .inl ⟨rfl, rfl⟩
  | false =>
    right
    have htrap : Replies polled (sendSignal { polled.stepCpu with running := false } kSIGTRAP) :=
      replies_trap { polled.stepCpu with running := false }
    cases polled.stepCpu.lastResult with
    | Halt => exact .inl ⟨rfl, _, rfl, htrap⟩
    | Fault => exact .inl ⟨rfl, _, rfl, htrap⟩
    | Exception => exact .inl ⟨rfl, _, rfl, replies_reportException _⟩
    | Ok => exact .inr ⟨rfl, _, rfl, rfl⟩

-- No packet byte has been sent when a running c polls.
def AllStop (s : Serving P) : Prop :=
  ∀ steps, s.turns = some steps → (steps + 1) % kInterruptPollSteps = 0 →
    Conn.AllStop s.stub.conn.arrived

-- A step in which the peer keeps to all-stop mode.
def AllStopNext (s t : Serving P) : Prop := s.AllStop ∧ s.Next t

theorem turn_spec {s t : Serving P} {steps : ℕ} (hturns : s.turns = some steps)
    (hall : s.AllStop) (hnext : s.Next t) (h : Attentive s.stub.conn s.turns) :
    StepSpec s t [] := by
  obtain ⟨⟨ended, polled⟩, hpoll⟩ : ∃ p, s.stub.pollTurn (steps + 1) = p := ⟨_, rfl⟩
  rw [hturns] at h
  obtain ⟨hserves, hatt⟩ := pollTurn_attentive hpoll (hall steps hturns) h
  rw [Next, step, hturns] at hnext
  rcases continueTurn_spec hpoll with ⟨rfl, hturn⟩ | ⟨rfl, next, hturn, hreply⟩ |
    ⟨rfl, next, hturn, hconn⟩
  · simp only [hturn, Option.some.injEq] at hnext
    subst hnext
    exact ⟨hserves, by simp, hatt⟩
  · simp only [hturn, Option.some.injEq] at hnext
    subst hnext
    exact ⟨hserves.reply hreply, by simp, hatt.stopped.congr hreply.rx⟩
  · simp only [hturn, Option.some.injEq] at hnext
    subst hnext
    refine ⟨?_, by simp, ?_⟩
    · simp only [hconn]
      exact hserves
    · simp only [hconn]
      exact hatt

theorem receive_spec {s mid t : Serving P} {pkt : List Byte} (h : mid.receive pkt = some t)
    (hidle : mid.turns = none) (hdispatched : mid.dispatched = s.dispatched)
    (hserves : Serves s.stub.conn mid.stub.conn [pkt])
    (hroom : mid.stub.conn.rx.length < kRxBufSize) : StepSpec s t [pkt] := by
  rw [receive] at h
  split at h
  · simp only [Option.some.injEq] at h
    subst h
    refine ⟨?_, by rw [hdispatched], ?_⟩
    · simp only [conn_resumeAt]
      exact hserves
    · simp only [conn_resumeAt]
      exact .started hroom
  · rename_i hc
    obtain ⟨next, hdispatch, rfl⟩ := Option.map_eq_some_iff.mp h
    have hreply := answers_dispatch mid.stub 0 hc next hdispatch
    refine ⟨hserves.reply hreply, by rw [hdispatched], ?_⟩
    rw [hidle]
    exact (Attentive.of_room hroom).congr hreply.rx

theorem step_spec {s t : Serving P} (hnext : s.AllStopNext t)
    (h : Attentive s.stub.conn s.turns) : ∃ packets, StepSpec s t packets := by
  obtain ⟨hall, hstep⟩ := hnext
  cases hturns : s.turns with
  | some steps => exact ⟨[], turn_spec hturns hall hstep h⟩
  | none =>
    rw [Next, step, hturns] at hstep
    dsimp only at hstep
    split at hstep
    · cases hstep
    · split at hstep
      · cases hstep
      · cases hstep
      · rename_i conn hrecv
        have hroom := room_of_recvPacket hrecv (by decide)
        simp only [Option.some.injEq] at hstep
        subst hstep
        cases recvPacket_spec s.stub.conn with
        | interrupt next hrecv' hreads =>
          rw [hrecv, Option.some.injEq, Prod.mk.injEq] at hrecv'
          rw [← hrecv'.2] at hreads
          have hatt : Attentive (conn.send (.packet (text "S02"))) none :=
            (Attentive.of_room hroom).congr rfl
          exact ⟨[], serves_of_interrupt hreads, by simp, hatt⟩
        | packet pkt next hrecv' => simp [hrecv] at hrecv'
        | starved hstarved => simp [Starved, hrecv] at hstarved
      · rename_i pkt conn hrecv
        have hroom := room_of_recvPacket hrecv (by simp)
        cases recvPacket_spec s.stub.conn with
        | interrupt next hrecv' => simp [hrecv] at hrecv'
        | packet pkt' next hrecv' hreads =>
          simp only [hrecv, Option.some.injEq, Prod.mk.injEq, RecvStatus.Packet.injEq] at hrecv'
          obtain ⟨rfl, rfl⟩ := hrecv'
          exact ⟨[pkt], receive_spec hstep rfl rfl (serves_of_reads hreads) hroom⟩
        | starved hstarved => simp [Starved, hrecv] at hstarved

theorem Served.next {start s t : Serving P} {received : List Byte}
    (h : Served start s received) (hnext : s.AllStopNext t) :
    ∃ more, Served start t (received ++ more) := by
  obtain ⟨packets, hstep⟩ := step_spec hnext h.attentive
  obtain ⟨bytes, interrupts, hstream, hbytes, hsent⟩ := hstep.serves
  refine ⟨bytes, ?_, ?_, hstep.attentive⟩
  · rw [h.stream, hstream, List.append_assoc]
  · rw [hsent, hstep.dispatched]
    exact h.brings.append hbytes

def queryFrame : Frame where
  noise := []
  body := text "?"
  hi := byte '3'
  lo := byte 'f'
  quiet := quiet_nil
  closed := by decide

end Serving

end GdbStub

end ClearCore.Mips
