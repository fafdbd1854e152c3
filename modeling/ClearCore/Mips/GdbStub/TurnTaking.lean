import ClearCore.Mips.GdbStub.Interrupts

-- The peer asks and the stub answers, in turn, and the peer can read every answer.

namespace ClearCore.Mips

open Isa Gdb Gdb.Conn

namespace GdbStub

-- The frame of a c.
def Continues (frame : Frame) : Prop :=
  ∃ pkt, payload frame.body frame.hi frame.lo = some pkt ∧ pkt.head? = some (byte 'c')

-- What a running c passes over: full buffers without a Ctrl-C.
structure Overrun (bytes : List Byte) : Prop where
  silent : 0x03#8 ∉ bytes
  full : kRxBufSize ∣ bytes.length

-- How a c ends: at a Ctrl-C, or by itself.
inductive Finishes (skipped reply : List Byte) : Prop
  | interrupted (before : List Byte) (h : 0x03#8 ∉ before) (hskipped : skipped = before ++ [0x03#8])
      (hreply : reply = text "S02")
  | byItself (h : Overrun skipped) (hreply : Ordinary reply)

-- What passes between the peer and the stub, with the bytes of the peer: a frame that is
-- refused, a Ctrl-C while the target is stopped, a packet and its reply, and a c without one.
-- `skipped` is what the stub takes of the stream while the c runs.
inductive Exchange
  | refused (frame : Frame)
  | interrupted (noise : List Byte)
  | answered (frame : Frame) (skipped reply : List Byte)
  | unanswered (frame : Frame) (skipped : List Byte)

theorem overrun_nil : Overrun [] := ⟨List.not_mem_nil, Nat.dvd_zero _⟩

theorem Overrun.append {bytes more : List Byte} (h : Overrun bytes) (hmore : Overrun more) :
    Overrun (bytes ++ more) := by
  refine ⟨?_, ?_⟩
  · intro hmem
    rcases List.mem_append.mp hmem with hmem | hmem
    · exact h.silent hmem
    · exact hmore.silent hmem
  · rw [List.length_append]
    exact Nat.dvd_add h.full hmore.full

theorem Overrun.finishes {bytes more reply : List Byte} (h : Overrun bytes)
    (hmore : Finishes more reply) : Finishes (bytes ++ more) reply := by
  cases hmore with
  | interrupted before hbefore hskipped hreply =>
    refine .interrupted (bytes ++ before) ?_ (by rw [hskipped, List.append_assoc]) hreply
    intro hmem
    rcases List.mem_append.mp hmem with hmem | hmem
    · exact h.silent hmem
    · exact hbefore hmem
  | byItself hover hreply => exact .byItself (h.append hover) hreply

theorem Finishes.plain {skipped reply : List Byte} (h : Finishes skipped reply) : Plain reply := by
  cases h with
  | interrupted before hbefore hskipped hreply =>
    rw [hreply]
    decide
  | byItself hover hreply => exact hreply.1

namespace Exchange

-- What the stub takes off the stream.
def bytes : Exchange → List Byte
  | refused frame => frame.bytes
  | interrupted noise => noise ++ [0x03#8]
  | answered frame skipped _ | unanswered frame skipped => frame.bytes ++ skipped

-- What it sends.
def messages : Exchange → List Message
  | refused _ => [.nak]
  | interrupted _ => [.packet (text "S02")]
  | answered _ _ reply => [.ack, .packet reply]
  | unanswered _ _ => [.ack]

-- What it dispatches.
def request : Exchange → Option (List Byte)
  | refused _ | interrupted _ => none
  | answered frame _ _ | unanswered frame _ => payload frame.body frame.hi frame.lo

-- A c that has no reply yet.
def Open : Exchange → Prop
  | unanswered frame skipped => Continues frame ∧ Overrun skipped
  | _ => False

-- Only what is no packet is refused, only a c takes more than its frame, and only a peer that
-- closes its side while a c runs is left without an answer.
def Sound (socket : List Recv) : Exchange → Prop
  | refused frame => payload frame.body frame.hi frame.lo = none
  | interrupted noise => Gdb.Quiet noise
  | answered frame skipped reply =>
      (payload frame.body frame.hi frame.lo).isSome ∧ Finishes skipped reply ∧
        (Continues frame ∨ skipped = [])
  | unanswered frame skipped => (unanswered frame skipped).Open ∧ .closed ∈ socket

theorem Sound.plain {socket : List Recv} {exchange : Exchange} (h : exchange.Sound socket)
    {data : List Byte} (hmem : .packet data ∈ exchange.messages) : Plain data := by
  cases exchange with
  | refused | unanswered => simp [messages] at hmem
  | interrupted =>
    obtain rfl : data = text "S02" := by simpa [messages] using hmem
    decide
  | answered frame skipped reply =>
    obtain rfl : data = reply := by simpa [messages] using hmem
    exact h.2.1.plain

theorem Open.plain {exchange : Exchange} (h : exchange.Open) {data : List Byte}
    (hmem : .packet data ∈ exchange.messages) : Plain data := by
  cases exchange with
  | unanswered => simp [messages] at hmem
  | refused | interrupted | answered => exact h.elim

-- What recv_packet refuses before it returns.
theorem messages_refused (frames : List Frame) :
    (frames.map refused).flatMap messages = frames.map fun _ => .nak := by
  rw [List.flatMap_map]
  exact List.flatMap_pure_eq_map _ _

theorem bytes_refused (frames : List Frame) :
    (frames.map refused).flatMap bytes = frames.flatMap Frame.bytes := by
  rw [List.flatMap_map]
  rfl

theorem request_refused (frames : List Frame) : (frames.map refused).filterMap request = [] := by
  rw [List.filterMap_map]
  exact List.filterMap_eq_nil_iff.mpr fun _ _ => rfl

theorem sound_refused {socket : List Recv} {frames : List Frame}
    (h : ∀ frame ∈ frames, frame.accepted = none) :
    ∀ exchange ∈ frames.map refused, exchange.Sound socket := by
  intro exchange hmem
  obtain ⟨frame, hframe, rfl⟩ := List.mem_map.mp hmem
  rw [Sound, ← frame.accepted_eq_payload]
  exact h frame hframe

end Exchange

section Turn

variable {P : Type} [IMipsProcessor P]

-- A buffer that a poll would drop holds no Ctrl-C.
def Searched (conn : Conn) : Prop := conn.rx.length = kRxBufSize → 0x03#8 ∉ conn.rx

theorem Searched.dropped {conn : Conn} (h : Searched conn) : Overrun conn.dropped := by
  rw [Conn.dropped]
  split
  · rename_i hfull
    exact ⟨h hfull, 1, by rw [hfull, Nat.mul_one]⟩
  · exact overrun_nil

-- What a turn of a running c does: it goes on, ends with a reply, or ends without one because
-- the peer has closed the connection.
inductive Turn (stub : GdbStub P) : Bool × GdbStub P → Prop
  | runs {skipped : List Byte} {next : GdbStub P} (h : Listens stub.conn next.conn)
      (hstream : stub.conn.stream = skipped ++ next.conn.stream) (hskipped : Overrun skipped)
      (hsearched : Searched next.conn) : Turn stub (false, next)
  | answers {skipped data : List Byte} {mid : Conn} {next : GdbStub P} (h : Listens stub.conn mid)
      (hstream : stub.conn.stream = skipped ++ mid.stream) (hfinishes : Finishes skipped data)
      (hconn : next.conn = mid.send (.packet data)) : Turn stub (true, next)
  | hangsUp {skipped : List Byte} {next : GdbStub P} (h : Listens stub.conn next.conn)
      (hstream : stub.conn.stream = skipped ++ next.conn.stream) (hskipped : Overrun skipped)
      (hclosed : .closed ∈ stub.conn.socket) : Turn stub (true, next)

-- The poll of a turn, if it makes one.
inductive PollTurn (stub : GdbStub P) : Bool × GdbStub P → Prop
  | runs {skipped : List Byte} {polled : GdbStub P} (h : Listens stub.conn polled.conn)
      (hstream : stub.conn.stream = skipped ++ polled.conn.stream) (hskipped : Overrun skipped)
      (hsearched : Searched polled.conn) : PollTurn stub (false, polled)
  | ends {polled : GdbStub P} (h : Turn stub (true, polled)) : PollTurn stub (true, polled)

omit [IMipsProcessor P] in
theorem pollTurn_turn {stub : GdbStub P} (h : Searched stub.conn) (steps : ℕ) :
    PollTurn stub (stub.pollTurn steps) := by
  obtain ⟨hlistens, hclosed⟩ := stub.conn.listens_pollInput
  have hpolls := stub.conn.pollInput_polls
  unfold pollTurn
  split
  · rcases hpoll : stub.conn.pollInput with ⟨result, conn⟩
    rw [hpoll] at hlistens hclosed hpolls
    by_cases hctrl : 0x03#8 ∈ stub.conn.polled
    · obtain rfl : result = .Interrupt := (hpolls.interrupted hctrl).1
      obtain ⟨before, hbefore, -, hstream⟩ := hpolls.stream_interrupted hctrl
      exact .ends (.answers hlistens hstream
        (h.dropped.finishes (.interrupted before hbefore rfl rfl)) rfl)
    · obtain ⟨hresult, hrx⟩ := hpolls.silent hctrl
      have hstream := hpolls.stream_silent hctrl
      have hsearched : Searched conn := by
        rw [Searched, hrx]
        exact fun _ => hctrl
      cases result with
      | Interrupt => exact absurd rfl hresult
      | Closed => exact .ends (.hangsUp hlistens hstream h.dropped (hclosed rfl))
      | Idle => exact .runs hlistens hstream h.dropped hsearched
  · exact .runs (.refl _) rfl overrun_nil h

theorem continueTurn_turn {stub : GdbStub P} (h : Searched stub.conn) (steps : ℕ) :
    Turn stub (stub.continueTurn steps) := by
  obtain ⟨⟨ended, polled⟩, hpoll⟩ : ∃ p, stub.pollTurn (steps + 1) = p := ⟨_, rfl⟩
  have hturn := pollTurn_turn h (steps + 1)
  rw [hpoll] at hturn
  rcases Serving.continueTurn_spec hpoll with ⟨rfl, hspec⟩ | ⟨rfl, next, hspec, hreplies⟩ |
    ⟨rfl, next, hspec, hconn⟩
  · cases hturn with
    | ends hturn =>
      rw [hspec]
      exact hturn
  · obtain ⟨data, hdata, hconn⟩ := hreplies
    cases hturn with
    | runs hlistens hstream hskipped =>
      rw [hspec]
      exact .answers hlistens hstream (.byItself hskipped hdata) hconn
  · cases hturn with
    | runs hlistens hstream hskipped hsearched =>
      rw [← hconn] at hlistens hstream hsearched
      rw [hspec]
      exact .runs hlistens hstream hskipped hsearched

end Turn

namespace Serving

variable {P : Type} {socket : List Recv} {s t : Serving P}

-- All that has been taken off the stream, sent and dispatched belongs to these exchanges and to
-- the c that runs.
structure TakesTurns (socket : List Recv) (s : Serving P) (exchanges : List Exchange)
    (running : Option Exchange) : Prop where
  taken : deliverable socket =
    (exchanges ++ running.toList).flatMap Exchange.bytes ++ s.stub.conn.stream
  sent : s.stub.conn.sent = (exchanges ++ running.toList).flatMap Exchange.messages
  dispatched : s.dispatched = (exchanges ++ running.toList).filterMap Exchange.request
  runs : running.isSome = s.turns.isSome
  opened : ∀ exchange, running = some exchange → exchange.Open
  sound : ∀ exchange ∈ exchanges, exchange.Sound socket
  closed : .closed ∈ s.stub.conn.socket → .closed ∈ socket
  searched : s.turns.isSome → Searched s.stub.conn

variable {exchanges : List Exchange} {running : Option Exchange}

theorem takesTurns_serve (stub : GdbStub P) (socket : List Recv) :
    TakesTurns socket (serve stub socket) [] none where
  taken := rfl
  sent := rfl
  dispatched := rfl
  runs := rfl
  opened := by rintro exchange ⟨⟩
  sound := fun _ hmem => absurd hmem List.not_mem_nil
  closed := id
  searched := by rintro ⟨⟩

-- A step finishes the c that ran, if one did, and adds to what has passed.
theorem TakesTurns.extend (h : TakesTurns socket s exchanges running) (more : List Exchange)
    (running' : Option Exchange) (messages : List Message) (packets : List (List Byte))
    (htaken : running.toList.flatMap Exchange.bytes ++ s.stub.conn.stream =
      (more ++ running'.toList).flatMap Exchange.bytes ++ t.stub.conn.stream)
    (hsent : t.stub.conn.sent = s.stub.conn.sent ++ messages)
    (hmessages : (more ++ running'.toList).flatMap Exchange.messages =
      running.toList.flatMap Exchange.messages ++ messages)
    (hdispatched : t.dispatched = s.dispatched ++ packets)
    (hrequests : (more ++ running'.toList).filterMap Exchange.request =
      running.toList.filterMap Exchange.request ++ packets)
    (hruns : running'.isSome = t.turns.isSome)
    (hopened : ∀ exchange, running' = some exchange → exchange.Open)
    (hsound : ∀ exchange ∈ more, exchange.Sound socket)
    (hclosed : .closed ∈ t.stub.conn.socket → .closed ∈ s.stub.conn.socket)
    (hsearched : t.turns.isSome → Searched t.stub.conn) :
    TakesTurns socket t (exchanges ++ more) running' where
  taken := by
    rw [h.taken, List.flatMap_append, List.append_assoc, htaken, ← List.append_assoc,
      ← List.flatMap_append, List.append_assoc]
  sent := by
    rw [hsent, h.sent, List.flatMap_append, List.append_assoc, ← hmessages, ← List.flatMap_append,
      List.append_assoc]
  dispatched := by
    rw [hdispatched, h.dispatched, List.filterMap_append, List.append_assoc, ← hrequests,
      ← List.filterMap_append, List.append_assoc]
  runs := hruns
  opened := hopened
  sound := by
    intro exchange hmem
    rcases List.mem_append.mp hmem with hold | hnew
    · exact h.sound exchange hold
    · exact hsound exchange hnew
  closed := fun hin => h.closed (hclosed hin)
  searched := hsearched

theorem TakesTurns.plain (h : TakesTurns socket s exchanges running) {data : List Byte}
    (hmem : .packet data ∈ s.stub.conn.sent) : Plain data := by
  rw [h.sent] at hmem
  obtain ⟨exchange, hexchange, hin⟩ := List.mem_flatMap.mp hmem
  rcases List.mem_append.mp hexchange with hpast | hrunning
  · exact (h.sound exchange hpast).plain hin
  · exact (h.opened exchange (Option.mem_toList.mp hrunning)).plain hin

-- The frames refused before a Ctrl-C or a packet, and the exchange that it starts.
theorem TakesTurns.receives (h : TakesTurns socket s exchanges none) {conn : Conn}
    {status : RecvStatus} {refused : List Frame} {last : List Byte}
    (hreceives : Receives s.stub.conn conn status refused last) (more : List Exchange)
    (running : Option Exchange) (messages : List Message)
    (hbytes : (more ++ running.toList).flatMap Exchange.bytes = last)
    (hstream : t.stub.conn.stream = conn.stream) (hsent : t.stub.conn.sent = conn.sent ++ messages)
    (hmessages : (more ++ running.toList).flatMap Exchange.messages =
      acknowledged status ++ messages)
    (hdispatched : t.dispatched =
      s.dispatched ++ (more ++ running.toList).filterMap Exchange.request)
    (hruns : running.isSome = t.turns.isSome)
    (hopened : ∀ exchange, running = some exchange → exchange.Open)
    (hsound : ∀ exchange ∈ more, exchange.Sound socket)
    (hsocket : t.stub.conn.socket = conn.socket)
    (hsearched : t.turns.isSome → Searched t.stub.conn) :
    TakesTurns socket t (exchanges ++ (refused.map .refused ++ more)) running := by
  refine h.extend _ _ (refused.map (fun _ => .nak) ++ (acknowledged status ++ messages)) _ ?taken
    ?sent ?messages hdispatched ?requests hruns hopened ?sound ?closed hsearched
  case taken =>
    rw [List.append_assoc, List.flatMap_append, Exchange.bytes_refused, hbytes, hstream]
    exact hreceives.stream
  case sent =>
    rw [hsent, hreceives.sent]
    simp only [List.append_assoc]
  case messages =>
    rw [List.append_assoc, List.flatMap_append, Exchange.messages_refused, hmessages]
    rfl
  case requests =>
    rw [List.append_assoc, List.filterMap_append, Exchange.request_refused]
    rfl
  case sound =>
    intro exchange hmem
    rcases List.mem_append.mp hmem with hrefused | hnew
    · exact Exchange.sound_refused hreceives.refuses exchange hrefused
    · exact hsound exchange hnew
  case closed =>
    rw [hsocket]
    exact hreceives.closed

theorem no_open : ∀ exchange, (none : Option Exchange) = some exchange → exchange.Open :=
  fun _ hsome => by cases hsome

theorem TakesTurns.interrupt (h : TakesTurns socket s exchanges none) {conn : Conn}
    (hrecv : s.stub.conn.recvPacket = some (.Interrupt, conn)) :
    ∃ exchanges running, TakesTurns socket
      { s with stub := sendSignal { s.stub with conn } kSIGINT, turns := none } exchanges running := by
  obtain ⟨refused, last, hreceives⟩ := receives_recvPacket hrecv (by decide)
  obtain ⟨noise, hnoise, rfl⟩ : ∃ noise, Gdb.Quiet noise ∧ last = noise ++ [0x03#8] := by
    cases hreceives.ends with
    | interrupt hnoise => exact ⟨_, hnoise, rfl⟩
  refine ⟨_, _, h.receives hreceives [.interrupted noise] none [.packet (text "S02")] ?_ rfl rfl
    rfl ?_ rfl no_open ?_ rfl ?_⟩
  · simp [Exchange.bytes]
  · simp [Exchange.request]
  · intro exchange hmem
    obtain rfl := List.mem_singleton.mp hmem
    exact hnoise
  · rintro ⟨⟩

variable [IMipsProcessor P]

theorem TakesTurns.turn {steps : ℕ} (h : TakesTurns socket s exchanges running)
    (hturns : s.turns = some steps) (hnext : s.Next t) :
    ∃ exchanges running, TakesTurns socket t exchanges running := by
  have hruns := h.runs
  rw [hturns] at hruns
  obtain ⟨exchange, rfl⟩ := Option.isSome_iff_exists.mp hruns
  obtain ⟨frame, skipped, rfl, hopen⟩ :
      ∃ frame skipped, exchange = .unanswered frame skipped ∧ exchange.Open := by
    have hopen := h.opened exchange rfl
    cases exchange with
    | unanswered frame skipped => exact ⟨frame, skipped, rfl, hopen⟩
    | refused | interrupted | answered => exact hopen.elim
  obtain ⟨hcontinues, hover⟩ := hopen
  obtain ⟨pkt, hpkt, -⟩ := id hcontinues
  have hspec := continueTurn_turn (h.searched (by rw [hturns]; rfl)) steps
  rw [Next, step, hturns] at hnext
  dsimp only at hnext
  rcases hturn : s.stub.continueTurn steps with ⟨ended, next⟩
  rw [hturn] at hspec hnext
  cases hspec with
  | runs hlistens hstream hskipped hsearched =>
    rename_i taken
    obtain rfl := Option.some.inj hnext
    refine ⟨_, _, h.extend [] (some (.unanswered frame (skipped ++ taken))) [] [] ?_ ?_ rfl ?_ ?_
      rfl ?_ ?_ hlistens.closed ?_⟩
    · simp [Exchange.bytes, hstream]
    · rw [List.append_nil]
      exact hlistens.sent
    · rw [List.append_nil]
    · simp [Exchange.request, hpkt]
    · rintro _ ⟨⟩
      exact ⟨hcontinues, hover.append hskipped⟩
    · exact fun _ hmem => absurd hmem List.not_mem_nil
    · exact fun _ => hsearched
  | answers hlistens hstream hfinishes hconn =>
    rename_i taken data mid
    obtain rfl := Option.some.inj hnext
    refine ⟨_, _, h.extend [.answered frame (skipped ++ taken) data] none [.packet data] []
      ?_ ?_ rfl ?_ ?_ rfl no_open ?_ ?_ ?_⟩
    · simp [Exchange.bytes, hstream, hconn]
    · rw [hconn, sent_send, hlistens.sent]
    · rw [List.append_nil]
    · simp [Exchange.request, hpkt]
    · intro exchange hmem
      obtain rfl := List.mem_singleton.mp hmem
      exact ⟨by rw [hpkt]; rfl, hover.finishes hfinishes, .inl hcontinues⟩
    · rw [hconn]
      exact hlistens.closed
    · rintro ⟨⟩
  | hangsUp hlistens hstream hskipped hclosed =>
    rename_i taken
    obtain rfl := Option.some.inj hnext
    refine ⟨_, _, h.extend [.unanswered frame (skipped ++ taken)] none [] [] ?_ ?_ rfl ?_ ?_ rfl
      no_open ?_ hlistens.closed ?_⟩
    · simp [Exchange.bytes, hstream]
    · rw [List.append_nil]
      exact hlistens.sent
    · rw [List.append_nil]
    · simp [Exchange.request, hpkt]
    · intro exchange hmem
      obtain rfl := List.mem_singleton.mp hmem
      exact ⟨⟨hcontinues, hover.append hskipped⟩, h.closed hclosed⟩
    · rintro ⟨⟩

theorem TakesTurns.receive (h : TakesTurns socket s exchanges none) {pkt : List Byte} {conn : Conn}
    (hrecv : s.stub.conn.recvPacket = some (.Packet pkt, conn))
    (hnext : Serving.receive { s with stub := { s.stub with conn }, turns := none } pkt = some t) :
    ∃ exchanges running, TakesTurns socket t exchanges running := by
  obtain ⟨refused, last, hreceives⟩ := receives_recvPacket hrecv (by simp)
  obtain ⟨frame, haccepted, rfl⟩ : ∃ frame : Frame, frame.accepted = some pkt ∧ last = frame.bytes := by
    cases hreceives.ends with
    | packet haccepted => exact ⟨_, haccepted, rfl⟩
  rw [frame.accepted_eq_payload] at haccepted
  rw [Serving.receive] at hnext
  split at hnext
  · rename_i hc
    obtain rfl := Option.some.inj hnext
    have hroom := room_of_recvPacket hrecv (by simp)
    refine ⟨_, _, h.receives hreceives [] (some (.unanswered frame [])) [] ?_ ?_ ?_ rfl ?_ rfl ?_ ?_
      ?_ ?_⟩
    · simp [Exchange.bytes]
    · simp only [conn_resumeAt]
    · simp only [conn_resumeAt, List.append_nil]
    · simp [Exchange.request, haccepted]
    · rintro _ ⟨⟩
      exact ⟨⟨pkt, haccepted, hc⟩, overrun_nil⟩
    · exact fun _ hmem => absurd hmem List.not_mem_nil
    · simp only [conn_resumeAt]
    · intro _ hfull
      simp only [conn_resumeAt] at hfull
      omega
  · rename_i hc
    obtain ⟨next, hdispatch, rfl⟩ := Option.map_eq_some_iff.mp hnext
    obtain ⟨data, hdata, hconn⟩ := answers_dispatch _ 0 hc next hdispatch
    refine ⟨_, _, h.receives hreceives [.answered frame [] data] none [.packet data] ?_ ?_ ?_ rfl ?_
      rfl no_open ?_ ?_ ?_⟩
    · simp [Exchange.bytes]
    · rw [hconn]
      rfl
    · rw [hconn]
      rfl
    · simp [Exchange.request, haccepted]
    · intro exchange hmem
      obtain rfl := List.mem_singleton.mp hmem
      exact ⟨by rw [haccepted]; rfl, .byItself overrun_nil hdata, .inr rfl⟩
    · rw [hconn]
      rfl
    · rintro ⟨⟩

theorem TakesTurns.next (h : TakesTurns socket s exchanges running) (hnext : s.Next t) :
    ∃ exchanges running, TakesTurns socket t exchanges running := by
  cases hturns : s.turns with
  | some steps => exact h.turn hturns hnext
  | none =>
    have hidle := h.runs
    rw [hturns, Option.isSome_none, Option.isSome_eq_false_iff, Option.isNone_iff_eq_none] at hidle
    subst hidle
    rw [Next, step, hturns] at hnext
    dsimp only at hnext
    split at hnext
    · cases hnext
    · split at hnext
      · cases hnext
      · cases hnext
      · rename_i conn hrecv
        obtain rfl := Option.some.inj hnext
        exact h.interrupt hrecv
      · rename_i pkt conn hrecv
        exact h.receive hrecv hnext

theorem takesTurns_of_run {stub : GdbStub P}
    (hrun : Relation.ReflTransGen Next (serve stub socket) s) :
    ∃ exchanges running, TakesTurns socket s exchanges running := by
  induction hrun with
  | refl => exact ⟨[], none, takesTurns_serve stub socket⟩
  | tail _ hnext ih =>
    obtain ⟨exchanges, running, h⟩ := ih
    exact h.next hnext

-- Whatever arrives, and however it is cut: what the stub has taken off the stream is one frame
-- or Ctrl-C after the other, and the peer hears what belongs to each, in that order and before
-- what belongs to the next. Only a c is without a reply: one that runs still, or whose peer has
-- hung up. When the stub waits, no packet and no Ctrl-C is left.
theorem peer_hears (stub : GdbStub P) (socket : List Recv) (s : Serving P)
    (hrun : Relation.ReflTransGen Next (serve stub socket) s) :
    ∃ (exchanges : List Exchange) (running : Option Exchange),
      deliverable socket =
        (exchanges ++ running.toList).flatMap Exchange.bytes ++ s.stub.conn.stream ∧
      hear (wire s.stub.conn.sent) =
        { messages := (exchanges ++ running.toList).flatMap Exchange.messages } ∧
      s.dispatched = (exchanges ++ running.toList).filterMap Exchange.request ∧
      running.isSome = s.turns.isSome ∧ (∀ exchange, running = some exchange → exchange.Open) ∧
      (∀ exchange ∈ exchanges, exchange.Sound socket) ∧
      (s.turns = none → s.stub.conn.Starved → Pending s.stub.conn.stream) := by
  obtain ⟨exchanges, running, h⟩ := takesTurns_of_run hrun
  refine ⟨exchanges, running, h.taken, ?_, h.dispatched, h.runs, h.opened, h.sound, ?_⟩
  · rw [hear_wire fun data hmem => h.plain hmem, h.sent]
  · intro _ hstarved
    exact hstarved.pending

theorem length_wrong : (text "$m0#00").length < kRxBufSize := by decide

theorem length_query : (text "$?#3f").length < kRxBufSize := by decide

-- A frame with a wrong checksum, then a Ctrl-C and a question in one chunk.
def querySocket : List Recv :=
  [.data { first := byte '+', rest := text "$m0#00", bounded := length_wrong },
    .data { first := 0x03#8, rest := text "$?#3f", bounded := length_query }]

theorem peer_hears_query : ∃ (s : Serving SingleCycleCpu) (exchanges : List Exchange)
    (running : Option Exchange),
    Relation.ReflTransGen Next (serve { cpu := .create 16 } querySocket) s ∧
      s.stub.conn.sent = [.nak, .packet (text "S02"), .ack, .packet (text "S05")] ∧
      deliverable querySocket = (exchanges ++ running.toList).flatMap Exchange.bytes ∧
      hear (wire s.stub.conn.sent) =
        { messages := (exchanges ++ running.toList).flatMap Exchange.messages } ∧
      [text "?"] = (exchanges ++ running.toList).filterMap Exchange.request := by
  have hbad : wrongFrame.Bad := .checksum (by decide)
  have hcarries : queryFrame.Carries (text "?") := ⟨by decide, by decide, by decide⟩
  have hstream : Conn.stream { socket := querySocket } =
      wrongFrame.bytes ++ (0x03#8 :: (queryFrame.bytes ++ [])) := by decide
  obtain ⟨refused, hrefused, hrest, hnak⟩ := recvPacket_bad hbad hstream
  obtain ⟨c1, hread, h1, hsent1⟩ := readFrame_of_interrupt quiet_nil hrest
  have hrecv1 : Conn.recvPacket { socket := querySocket } = some (.Interrupt, c1) := by
    rw [hrefused, recvPacket_eq, hread]
  have hframe : (c1.send (.packet (text "S02"))).stream = queryFrame.bytes ++ [] := h1
  obtain ⟨c2, hrecv2, h2, hsent2⟩ := recvPacket_good hcarries hframe
  obtain ⟨stub, hstub⟩ : ∃ stub : GdbStub SingleCycleCpu, stub = { cpu := .create 16 } := ⟨_, rfl⟩
  let s1 : Serving SingleCycleCpu :=
    { stub := sendSignal { stub with conn := c1, lastResult := .Ok, detached := false } kSIGINT }
  let s2 : Serving SingleCycleCpu :=
    { stub := sendSignal { s1.stub with conn := c2 } kSIGTRAP, dispatched := [text "?"] }
  have hnext1 : (serve stub querySocket).Next s1 := by
    rw [Next, step]
    simp only [serve, hrecv1]
    rfl
  have hnext2 : s1.Next s2 := by
    have hconn : s1.stub.conn = c1.send (.packet (text "S02")) := rfl
    have hopen : s1.stub.detached = false := rfl
    have hidle : s1.turns = none := rfl
    rw [Next, step, hidle, hconn, hrecv2]
    simp only [hopen]
    rfl
  have hsent : s2.stub.conn.sent = [.nak, .packet (text "S02"), .ack, .packet (text "S05")] := by
    have hlast : s2.stub.conn.sent = c2.sent ++ [.packet (text "S05")] := rfl
    rw [hlast, hsent2, sent_send, hsent1, hnak]
    rfl
  have hrun : Relation.ReflTransGen Next (serve stub querySocket) s2 := .tail (.single hnext1) hnext2
  obtain ⟨exchanges, running, htaken, hheard, hdispatched, -⟩ := peer_hears stub querySocket s2 hrun
  have hempty : s2.stub.conn.stream = [] := h2
  rw [hempty, List.append_nil] at htaken
  subst hstub
  exact ⟨s2, exchanges, running, hrun, hsent, htaken, hheard, hdispatched⟩

end Serving

end GdbStub

end ClearCore.Mips
