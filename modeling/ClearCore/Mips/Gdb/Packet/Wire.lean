import ClearCore.Mips.Gdb.Packet.Framing

-- The stub's side of the wire, as the peer reads it.

namespace ClearCore.Mips.Gdb

open Isa

-- The bytes of what has been sent.
def wire (sent : List Message) : List Byte := sent.flatMap Message.bytes

-- The peer takes acknowledgements between frames, and frames whose checksum is right.
structure Heard where
  framing : Framing := .outside
  messages : List Message := []
deriving DecidableEq

namespace Heard

def read (heard : Heard) (c : Byte) : Heard :=
  match heard.framing with
  | .outside =>
      if c = byte '+' then { heard with messages := heard.messages ++ [.ack] }
      else if c = byte '-' then { heard with messages := heard.messages ++ [.nak] }
      else if c = byte '$' then { heard with framing := .body [] }
      else heard
  | .body data =>
      if c = byte '#' then { heard with framing := .sum data }
      else { heard with framing := .body (data ++ [c]) }
  | .sum data => { heard with framing := .lastDigit data c }
  | .lastDigit data hi =>
      { framing := .outside
        messages := heard.messages ++
          ((if checksumMatches data hi c then unescape data else none).map Message.packet).toList }

def readAll (heard : Heard) (bytes : List Byte) : Heard := bytes.foldl read heard

end Heard

def hear (bytes : List Byte) : Heard := Heard.readAll {} bytes

-- A payload that stands for itself: no character of it is escaped, ends the frame, or asks
-- GDB to repeat the one before.
def Plain (data : List Byte) : Prop := ∀ c ∈ data, isSpecial c = false ∧ c ≠ byte '*'

instance (data : List Byte) : Decidable (Plain data) :=
  inferInstanceAs (Decidable (∀ c ∈ data, isSpecial c = false ∧ c ≠ byte '*'))

theorem plain_nil : Plain [] := fun _ hc => absurd hc List.not_mem_nil

theorem Plain.append {data more : List Byte} (h : Plain data) (hmore : Plain more) :
    Plain (data ++ more) := by
  intro c hc
  rcases List.mem_append.mp hc with hc | hc
  · exact h c hc
  · exact hmore c hc

theorem Plain.tail {c : Byte} {data : List Byte} (h : Plain (c :: data)) : Plain data :=
  fun d hd => h d (List.mem_cons_of_mem c hd)

theorem Plain.ne {c : Byte} {data : List Byte} (h : Plain (c :: data)) :
    c ≠ byte '#' ∧ c ≠ byte '}' := by
  have hc := (h c List.mem_cons_self).1
  simp only [isSpecial, Bool.or_eq_false_iff, decide_eq_false_iff_not] at hc
  exact ⟨hc.1.1, hc.2⟩

theorem Plain.unescape {data : List Byte} (h : Plain data) : unescape data = some data := by
  induction data with
  | nil => rfl
  | cons c data ih =>
    have hrest := ih h.tail
    rw [Gdb.unescape] at hrest ⊢
    rw [Escape.decode_cons h.ne.2, hrest]
    rfl

theorem Plain.hash_not_mem {data : List Byte} (h : Plain data) : byte '#' ∉ data := by
  intro hmem
  have hspecial := (h _ hmem).1
  revert hspecial
  decide

theorem plain_hexDigit {n : ℕ} (h : n < 16) : Plain [hexDigit n] := by
  have hall : ∀ m : Fin 16, isSpecial (hexDigit m.val) = false ∧ hexDigit m.val ≠ byte '*' := by
    decide
  intro c hc
  rw [List.mem_singleton.mp hc]
  exact hall ⟨n, h⟩

theorem plain_hexByte (b : Byte) : Plain (hexByte b) := by
  have hb := b.isLt
  exact (plain_hexDigit (by omega)).append (plain_hexDigit (Nat.mod_lt _ (by omega)))

theorem plain_toHexLe (v : Word) : Plain (toHexLe v) :=
  (((plain_hexByte _).append (plain_hexByte _)).append (plain_hexByte _)).append (plain_hexByte _)

theorem parseHexByte_hexByte (b : Byte) : parseHexByte (hexByte b) 0 = some b := by
  have hb := b.isLt
  have hlt : b.toNat % 16 < 16 := Nat.mod_lt _ (by omega)
  have hchars := fromChars_pair (hexValue_hexDigit (n := b.toNat / 16) (by omega)) (by omega)
    (hexValue_hexDigit hlt) hlt
  rw [Nat.div_add_mod'] at hchars
  have htake : ((hexByte b).drop 0).take 2 = [hexDigit (b.toNat / 16), hexDigit (b.toNat % 16)] := rfl
  rw [parseHexByte, htake, hchars, if_neg (by simp [hexByte])]
  simp only [Option.some.injEq]
  apply BitVec.eq_of_toNat_eq
  rw [BitVec.toNat_setWidth, BitVec.toNat_ofNat]
  omega

theorem checksumMatches_hexByte (data : List Byte) :
    checksumMatches data (hexDigit ((checksum data).toNat / 16))
      (hexDigit ((checksum data).toNat % 16)) = true := by
  rw [checksumMatches]
  exact decide_eq_true (parseHexByte_hexByte _)

namespace Heard

theorem readAll_append (heard : Heard) (bytes more : List Byte) :
    heard.readAll (bytes ++ more) = (heard.readAll bytes).readAll more := List.foldl_append

theorem readAll_body {data body : List Byte} (hbody : byte '#' ∉ body)
    (messages : List Message) :
    readAll ⟨.body data, messages⟩ body = ⟨.body (data ++ body), messages⟩ := by
  induction body generalizing data with
  | nil => rw [List.append_nil]; rfl
  | cons c body ih =>
    obtain ⟨hc, hrest⟩ := not_or.mp (mt List.mem_cons.mpr hbody)
    have hread : read ⟨.body data, messages⟩ c = ⟨.body (data ++ [c]), messages⟩ :=
      if_neg (Ne.symm hc)
    have htail : readAll ⟨.body (data ++ [c]), messages⟩ body =
      ⟨.body (data ++ [c] ++ body), messages⟩ := ih hrest
    rw [readAll, List.foldl_cons, hread]
    rw [readAll, List.append_assoc, List.singleton_append] at htail
    exact htail

-- A message is heard as it was sent.
theorem readAll_message {message : Message} (hplain : ∀ data, message = .packet data → Plain data)
    (messages : List Message) :
    readAll ⟨.outside, messages⟩ message.bytes = ⟨.outside, messages ++ [message]⟩ := by
  cases message with
  | ack => rfl
  | nak => rfl
  | packet data =>
    have hdata := hplain data rfl
    have hbytes : Message.bytes (.packet data) =
        [byte '$'] ++ (data ++ (byte '#' :: hexByte (checksum data))) := by simp [Message.bytes]
    have hstart : readAll ⟨.outside, messages⟩ [byte '$'] = ⟨.body [], messages⟩ := rfl
    rw [hbytes, readAll_append, hstart, readAll_append, readAll_body hdata.hash_not_mem]
    change read ⟨.lastDigit data _, messages⟩ _ = _
    unfold read
    simp only [checksumMatches_hexByte, if_true, hdata.unescape]
    rfl

theorem readAll_wire {sent : List Message}
    (hplain : ∀ data, .packet data ∈ sent → Plain data) (messages : List Message) :
    readAll ⟨.outside, messages⟩ (wire sent) = ⟨.outside, messages ++ sent⟩ := by
  induction sent generalizing messages with
  | nil => rw [List.append_nil]; rfl
  | cons message sent ih =>
    have hmessage : ∀ data, message = .packet data → Plain data := by
      rintro data rfl
      exact hplain data List.mem_cons_self
    have hrest := ih (fun data hmem => hplain data (List.mem_cons_of_mem _ hmem))
      (messages ++ [message])
    rw [wire, List.flatMap_cons, readAll_append, readAll_message hmessage]
    rw [wire] at hrest
    rw [hrest, List.append_assoc, List.singleton_append]

end Heard

-- The peer hears what has been sent, message by message.
theorem hear_wire {sent : List Message} (hplain : ∀ data, .packet data ∈ sent → Plain data) :
    hear (wire sent) = { messages := sent } := Heard.readAll_wire hplain []

namespace Conn

-- From `conn` to `next` nothing is sent, and the peer does not come to close the connection.
structure Listens (conn next : Conn) : Prop where
  sent : next.sent = conn.sent
  closed : .closed ∈ next.socket → .closed ∈ conn.socket

theorem Listens.refl (conn : Conn) : Listens conn conn := ⟨rfl, id⟩

theorem Listens.trans {conn mid next : Conn} (h : Listens conn mid) (hnext : Listens mid next) :
    Listens conn next :=
  ⟨hnext.sent.trans h.sent, fun hclosed => h.closed (hnext.closed hclosed)⟩

theorem closed_fill {socket socket' : List Recv} {chunk : Option Chunk}
    (h : fill socket = some (chunk, socket')) (hclosed : .closed ∈ socket') : .closed ∈ socket := by
  induction socket with
  | nil => cases h
  | cons event socket ih =>
    cases event with
    | data c =>
      obtain ⟨-, rfl⟩ := Prod.mk.inj (Option.some.inj h)
      exact List.mem_cons_of_mem _ hclosed
    | interrupted => exact List.mem_cons_of_mem _ (ih h)
    | wouldBlock => exact List.mem_cons_of_mem _ (ih h)
    | closed => exact List.mem_cons_self

theorem listens_readByte {conn next : Conn} {event : Option Byte}
    (h : conn.readByte = some (event, next)) : Listens conn next := by
  unfold readByte at h
  split at h
  · obtain ⟨-, rfl⟩ := Prod.mk.inj (Option.some.inj h)
    exact ⟨rfl, id⟩
  · split at h
    · cases h
    · rename_i socket hfill
      obtain ⟨-, rfl⟩ := Prod.mk.inj (Option.some.inj h)
      exact ⟨rfl, closed_fill hfill⟩
    · rename_i chunk socket hfill
      obtain ⟨-, rfl⟩ := Prod.mk.inj (Option.some.inj h)
      exact ⟨rfl, closed_fill hfill⟩

theorem listens_skipNoise {conn next : Conn} {event : Skipped}
    (h : conn.skipNoise = some (event, next)) : Listens conn next := by
  induction hn : conn.size using Nat.strong_induction_on generalizing conn with
  | _ n ih =>
    rw [skipNoise_eq] at h
    split at h
    · cases h
    · rename_i mid hread
      obtain ⟨-, rfl⟩ := Prod.mk.inj (Option.some.inj h)
      exact listens_readByte hread
    · rename_i c mid hread
      have hmid := listens_readByte hread
      have hlt := size_readByte hread
      split_ifs at h
      · obtain ⟨-, rfl⟩ := Prod.mk.inj (Option.some.inj h)
        exact hmid
      · exact hmid.trans (ih mid.size (by omega) h rfl)
      · obtain ⟨-, rfl⟩ := Prod.mk.inj (Option.some.inj h)
        exact hmid

theorem listens_readBody {conn next : Conn} {out : List Byte} {tooLong : Bool}
    {result : Option (List Byte × Bool)} (h : conn.readBody out tooLong = some (result, next)) :
    Listens conn next := by
  induction hn : conn.size using Nat.strong_induction_on generalizing conn out tooLong with
  | _ n ih =>
    rw [readBody_eq] at h
    split at h
    · cases h
    · rename_i mid hread
      obtain ⟨-, rfl⟩ := Prod.mk.inj (Option.some.inj h)
      exact listens_readByte hread
    · rename_i c mid hread
      have hmid := listens_readByte hread
      have hlt := size_readByte hread
      split_ifs at h
      · obtain ⟨-, rfl⟩ := Prod.mk.inj (Option.some.inj h)
        exact hmid
      all_goals exact hmid.trans (ih mid.size (by omega) h rfl)

theorem listens_readFrame {conn next : Conn} {received : Received}
    (h : conn.readFrame = some (received, next)) (hopen : received ≠ .closed) :
    Listens conn next := by
  rcases readFrame_cases h with hreceived | ⟨-, hskip⟩ |
    ⟨_, _, _, _, conn1, conn2, conn3, -, hskip, hbody, hhi, hlo⟩
  · exact absurd hreceived hopen
  · exact listens_skipNoise hskip
  · exact (((listens_skipNoise hskip).trans (listens_readBody hbody)).trans
      (listens_readByte hhi)).trans (listens_readByte hlo)

-- One turn of the loop in recv_packet takes a Ctrl-C or a whole frame off the stream.
theorem readFrame_takes {conn next : Conn} {received : Received}
    (h : conn.readFrame = some (received, next)) (hopen : received ≠ .closed) :
    (received = .interrupt ∧
      ∃ noise, Quiet noise ∧ conn.stream = noise ++ [0x03#8] ++ next.stream) ∨
    ∃ frame : Frame, received = .frame frame.stored frame.overran frame.hi frame.lo ∧
      conn.stream = frame.bytes ++ next.stream := by
  have hstarved : ¬(conn.readFrame = none ∨ ∃ next, conn.readFrame = some (.closed, next)) := by
    rintro (hnone | ⟨mid, hclosed⟩)
    · rw [hnone] at h
      cases h
    · rw [hclosed] at h
      exact hopen (Prod.mk.inj (Option.some.inj h)).1.symm
  cases heads conn.stream with
  | noise hquiet => exact absurd (readFrame_of_quiet hquiet) hstarved
  | body noise body hnoise hbody hstream =>
    exact absurd (readFrame_of_body hnoise hbody hstream) hstarved
  | sum noise body digits hnoise hbody hdigits hstream =>
    exact absurd (readFrame_of_sum hnoise hbody hdigits hstream) hstarved
  | interrupt noise rest hnoise hstream =>
    obtain ⟨mid, hread, hrest, -⟩ := readFrame_of_interrupt hnoise hstream
    obtain ⟨rfl, rfl⟩ := Prod.mk.inj (Option.some.inj (h.symm.trans hread))
    exact .inl ⟨rfl, noise, hnoise, by rw [hstream, hrest, List.append_assoc]; rfl⟩
  | frame frame rest hstream =>
    obtain ⟨mid, hread, hrest, -⟩ := readFrame_of_stream hstream
    obtain ⟨rfl, rfl⟩ := Prod.mk.inj (Option.some.inj (h.symm.trans hread))
    exact .inr ⟨frame, rfl, by rw [hstream, hrest]⟩

-- The acknowledgement of what recv_packet returns.
def acknowledged : RecvStatus → List Message
  | .Packet _ => [.ack]
  | .Interrupt | .Closed => []

-- The bytes recv_packet returns for.
inductive Ends : RecvStatus → List Byte → Prop
  | interrupt {noise : List Byte} (h : Quiet noise) : Ends .Interrupt (noise ++ [0x03#8])
  | packet {frame : Frame} {pkt : List Byte} (h : frame.accepted = some pkt) :
      Ends (.Packet pkt) frame.bytes

-- Frames that are refused one by one, and the packet or the Ctrl-C that comes after them.
structure Receives (conn next : Conn) (status : RecvStatus) (refused : List Frame)
    (last : List Byte) : Prop where
  refuses : ∀ frame ∈ refused, frame.accepted = none
  ends : Ends status last
  stream : conn.stream = refused.flatMap Frame.bytes ++ last ++ next.stream
  sent : next.sent = conn.sent ++ refused.map (fun _ => .nak) ++ acknowledged status
  closed : .closed ∈ next.socket → .closed ∈ conn.socket

theorem Receives.of_refused {conn mid next : Conn} {status : RecvStatus} {frame : Frame}
    {refused : List Frame} {last : List Byte} (haccept : frame.accepted = none)
    (hstream : conn.stream = frame.bytes ++ mid.stream) (h : Listens conn mid)
    (hnext : Receives (mid.send .nak) next status refused last) :
    Receives conn next status (frame :: refused) last where
  refuses := by
    intro other hmem
    rcases List.mem_cons.mp hmem with rfl | hmem
    · exact haccept
    · exact hnext.refuses other hmem
  ends := hnext.ends
  stream := by
    have hrest := hnext.stream
    rw [stream_send] at hrest
    rw [hstream, hrest]
    simp only [List.flatMap_cons, List.append_assoc]
  sent := by
    rw [hnext.sent, sent_send, h.sent]
    simp
  closed := fun hclosed => h.closed (hnext.closed hclosed)

theorem receives_recvPacket {conn next : Conn} {status : RecvStatus}
    (h : conn.recvPacket = some (status, next)) (hopen : status ≠ .Closed) :
    ∃ refused last, Receives conn next status refused last := by
  have hnil : ∀ frame ∈ ([] : List Frame), frame.accepted = none :=
    fun _ hmem => absurd hmem List.not_mem_nil
  induction hn : conn.size using Nat.strong_induction_on generalizing conn with
  | _ n ih =>
    rw [recvPacket_eq] at h
    split at h
    · cases h
    · obtain ⟨rfl, -⟩ := Prod.mk.inj (Option.some.inj h)
      exact absurd rfl hopen
    · rename_i mid hread
      obtain ⟨rfl, rfl⟩ := Prod.mk.inj (Option.some.inj h)
      have hmid := listens_readFrame hread (by decide)
      rcases readFrame_takes hread (by decide) with ⟨-, noise, hnoise, hstream⟩ | ⟨frame, hframe, -⟩
      · refine ⟨[], _, hnil, .interrupt hnoise, hstream, ?_, hmid.closed⟩
        rw [hmid.sent]
        simp [acknowledged]
      · cases hframe
    · rename_i out tooLong hi lo mid hread
      have hmid := listens_readFrame hread (by simp)
      have hlt := size_readFrame hread
      rcases readFrame_takes hread (by simp) with ⟨hframe, -⟩ | ⟨frame, hframe, hstream⟩
      · cases hframe
      · obtain ⟨rfl, rfl, rfl, rfl⟩ := Received.frame.inj hframe
        split at h
        · rename_i pkt haccept
          obtain ⟨rfl, rfl⟩ := Prod.mk.inj (Option.some.inj h)
          refine ⟨[], _, hnil, .packet haccept, hstream, ?_, hmid.closed⟩
          rw [sent_send, hmid.sent]
          simp [acknowledged]
        · rename_i haccept
          obtain ⟨refused, last, hrest⟩ :=
            ih (mid.send .nak).size (by rw [size_send]; omega) h rfl
          exact ⟨frame :: refused, last, .of_refused haccept hstream hmid hrest⟩

theorem closed_unread {chunk : Chunk} {room : ℕ} {socket : List Recv}
    (h : .closed ∈ unread chunk room socket) : .closed ∈ socket := by
  unfold unread at h
  split at h
  · exact h
  · simpa using h

theorem listens_makeRoom (conn : Conn) : Listens conn conn.makeRoom := by
  unfold makeRoom
  split <;> exact ⟨rfl, id⟩

theorem listens_scan (conn : Conn) (closed : Bool) : Listens conn (conn.scan closed).2 := by
  unfold scan
  split <;> exact ⟨rfl, id⟩

theorem scan_closed {conn : Conn} {closed : Bool} (h : (conn.scan closed).1 = .Closed) :
    closed = true := by
  unfold scan at h
  split at h
  · cases h
  · cases closed with
    | true => rfl
    | false => cases h

-- A poll sends nothing, and finds a closed connection only where the peer has closed it.
theorem listens_pollInput (conn : Conn) :
    Listens conn conn.pollInput.2 ∧ (conn.pollInput.1 = .Closed → .closed ∈ conn.socket) := by
  have hroom := conn.listens_makeRoom
  have hidle : ∀ next : Conn, Listens conn.makeRoom next →
      Listens conn (next.scan false).2 ∧ ((next.scan false).1 = .Closed → .closed ∈ conn.socket) := by
    intro next hnext
    refine ⟨(hroom.trans hnext).trans (listens_scan next false), fun hclosed => ?_⟩
    cases scan_closed hclosed
  unfold pollInput
  dsimp only
  split
  · exact hidle _ (.refl _)
  · rename_i socket hsocket
    exact hidle _ ⟨rfl, fun hclosed => by rw [hsocket]; exact List.mem_cons_of_mem _ hclosed⟩
  · rename_i socket hsocket
    exact hidle _ ⟨rfl, fun hclosed => by rw [hsocket]; exact List.mem_cons_of_mem _ hclosed⟩
  · rename_i socket hsocket
    refine ⟨hroom.trans (listens_scan _ true), fun _ => hroom.closed ?_⟩
    rw [hsocket]
    exact List.mem_cons_self
  · rename_i chunk socket hsocket
    refine hidle _ ⟨rfl, fun hclosed => ?_⟩
    rw [hsocket]
    exact List.mem_cons_of_mem _ (closed_unread hclosed)

end Conn

end ClearCore.Mips.Gdb
