import ClearCore.Mips.Gdb.Packet

namespace ClearCore.Mips.Gdb

open Isa

-- The bytes a peer must escape in a payload.
def isSpecial (c : Byte) : Bool :=
  decide (c = byte '#') || decide (c = byte '$') || decide (c = byte '}')

def escape (payload : List Byte) : List Byte :=
  Escape.encode (byte '}') (· ^^^ 0x20#8) isSpecial payload

theorem mask_mask (c : Byte) : c ^^^ 0x20#8 ^^^ 0x20#8 = c := by
  rw [BitVec.xor_assoc, BitVec.xor_self, BitVec.xor_zero]

theorem unescape_escape (payload : List Byte) : unescape (escape payload) = some payload :=
  Escape.decode_encode (by decide) (fun c _ => mask_mask c) payload

-- A frame as it stands in the byte stream: noise, '$', the body, '#' and two checksum
-- characters.
structure Frame where
  noise : List Byte
  body : List Byte
  hi : Byte
  lo : Byte
  quiet : ∀ c ∈ noise, c ≠ byte '$' ∧ c ≠ 0x03#8
  closed : byte '#' ∉ body

namespace Frame

def bytes (frame : Frame) : List Byte :=
  frame.noise ++ byte '$' :: frame.body ++ [byte '#', frame.hi, frame.lo]

-- A wrong or non-hex checksum, a body over the limit, or a body that ends in a lone '}'.
inductive Bad (frame : Frame) : Prop
  | checksum (h : parseHexByte [frame.hi, frame.lo] 0 ≠ some (Gdb.checksum frame.body))
  | tooLong (h : kMaxPacketSize < frame.body.length)
  | loneEscape (front : List Byte) (h : frame.body = front ++ [byte '}'])
      (hfront : (unescape front).isSome = true)

-- The body stored by recv_packet and whether it overran.
def stored (frame : Frame) : List Byte := frame.body.take kMaxPacketSize

def overran (frame : Frame) : Bool := decide (kMaxPacketSize < frame.body.length)

-- What recv_packet makes of a frame.
def accepted (frame : Frame) : Option (List Byte) :=
  Conn.accept frame.stored frame.overran frame.hi frame.lo

theorem accepted_eq_none_iff (frame : Frame) : frame.accepted = none ↔ frame.Bad := by
  by_cases hlong : kMaxPacketSize < frame.body.length
  · have hover : frame.overran = true := decide_eq_true hlong
    exact ⟨fun _ => .tooLong hlong, fun _ => by simp [accepted, Conn.accept, hover]⟩
  · have hover : frame.overran = false := decide_eq_false hlong
    have hstored : frame.stored = frame.body := List.take_of_length_le (by omega)
    simp only [accepted, Conn.accept, hover, hstored, Bool.not_false, Bool.true_and,
      checksumMatches, decide_eq_true_eq]
    constructor
    · intro h
      by_cases hsum : parseHexByte [frame.hi, frame.lo] 0 = some (Gdb.checksum frame.body)
      · rw [if_pos hsum] at h
        obtain ⟨front, hbody, hfront⟩ := Escape.decode_eq_none_iff.mp h
        exact .loneEscape front hbody hfront
      · exact .checksum hsum
    · intro h
      cases h with
      | checksum hsum => rw [if_neg hsum]
      | tooLong h => exact absurd h hlong
      | loneEscape front hbody hfront =>
        have hnone : unescape frame.body = none :=
          Escape.decode_eq_none_iff.mpr ⟨front, hbody, hfront⟩
        rw [hnone, ite_self]

-- The frame a peer sends for a payload: escaped, with either case of its checksum.
structure Carries (frame : Frame) (payload : List Byte) : Prop where
  body : frame.body = escape payload
  checksum : parseHexByte [frame.hi, frame.lo] 0 = some (Gdb.checksum (escape payload))
  length_le : (escape payload).length ≤ kMaxPacketSize

theorem Carries.accepted {frame : Frame} {payload : List Byte} (h : frame.Carries payload) :
    frame.accepted = some payload := by
  have hle := h.length_le
  rw [← h.body] at hle
  have hover : frame.overran = false := decide_eq_false (by omega)
  have hstored : frame.stored = frame.body := List.take_of_length_le hle
  have hsum : checksumMatches frame.body frame.hi frame.lo = true :=
    decide_eq_true (by rw [h.body]; exact h.checksum)
  rw [Frame.accepted, Conn.accept, hover, hstored, hsum, h.body]
  exact unescape_escape payload

end Frame

namespace Conn

-- The bytes that recv() will deliver before the connection is closed.
def deliverable : List Recv → List Byte
  | [] => []
  | .data chunk :: socket => chunk.bytes ++ deliverable socket
  | .interrupted :: socket => deliverable socket
  | .wouldBlock :: socket => deliverable socket
  | .closed :: _ => []

-- The byte stream still to be read, whatever the chunks it comes in.
def stream (conn : Conn) : List Byte := conn.rx ++ deliverable conn.socket

@[simp] theorem stream_send (conn : Conn) (message : Message) :
    (conn.send message).stream = conn.stream := rfl

@[simp] theorem sent_send (conn : Conn) (message : Message) :
    (conn.send message).sent = conn.sent ++ [message] := rfl

theorem fill_of_deliverable {socket : List Recv} {c : Byte} {rest : List Byte}
    (h : deliverable socket = c :: rest) :
    ∃ chunk socket', fill socket = some (some chunk, socket') ∧ chunk.first = c ∧
      chunk.rest ++ deliverable socket' = rest := by
  induction socket with
  | nil => simp [deliverable] at h
  | cons event socket ih =>
    cases event with
    | data chunk =>
      simp only [deliverable, Chunk.bytes, List.cons_append, List.cons.injEq] at h
      exact ⟨chunk, socket, rfl, h.1, h.2⟩
    | interrupted => exact ih h
    | wouldBlock => exact ih h
    | closed => simp [deliverable] at h

-- Reading takes the first byte of the stream, wherever it is.
theorem readByte_of_stream {conn : Conn} {c : Byte} {rest : List Byte}
    (h : conn.stream = c :: rest) :
    ∃ next, conn.readByte = some (some c, next) ∧ next.stream = rest ∧ next.sent = conn.sent := by
  unfold readByte
  split
  · rename_i c' rx hrx
    rw [stream, hrx, List.cons_append, List.cons.injEq] at h
    obtain ⟨rfl, hrest⟩ := h
    exact ⟨_, rfl, hrest, rfl⟩
  · rename_i hrx
    rw [stream, hrx, List.nil_append] at h
    obtain ⟨chunk, socket, hfill, hfirst, hrest⟩ := fill_of_deliverable h
    simp only [hfill, hfirst]
    exact ⟨_, rfl, hrest, rfl⟩

theorem skipNoise_of_stream {conn : Conn} {noise rest : List Byte}
    (hnoise : ∀ c ∈ noise, c ≠ byte '$' ∧ c ≠ 0x03#8)
    (h : conn.stream = noise ++ byte '$' :: rest) :
    ∃ next, conn.skipNoise = some (.start, next) ∧ next.stream = rest ∧
      next.sent = conn.sent := by
  induction noise generalizing conn with
  | nil =>
    obtain ⟨next, hread, hstream, hsent⟩ := readByte_of_stream h
    refine ⟨next, ?_, hstream, hsent⟩
    have hdollar : byte '$' ≠ 0x03#8 := by decide
    rw [skipNoise_eq, hread]
    simp only [if_neg hdollar, ne_eq, not_true_eq_false, if_false]
  | cons c noise ih =>
    obtain ⟨hdollar, hctrl⟩ := hnoise c List.mem_cons_self
    obtain ⟨next, hread, hstream, hsent⟩ := readByte_of_stream h
    obtain ⟨last, hlast, hrest, hsent'⟩ :=
      ih (fun d hd => hnoise d (List.mem_cons_of_mem c hd)) hstream
    refine ⟨last, ?_, hrest, hsent'.trans hsent⟩
    rw [skipNoise_eq, hread]
    simp only [if_neg hctrl, if_pos hdollar, hlast]

-- The body is stored up to the limit, and read to its end.
theorem readBody_of_stream {conn : Conn} {out body rest : List Byte} (tooLong : Bool)
    (hout : out.length ≤ kMaxPacketSize) (hbody : byte '#' ∉ body)
    (h : conn.stream = body ++ byte '#' :: rest) :
    ∃ next, conn.readBody out tooLong =
        some (some ((out ++ body).take kMaxPacketSize,
          tooLong || decide (kMaxPacketSize < out.length + body.length)), next) ∧
      next.stream = rest ∧ next.sent = conn.sent := by
  induction body generalizing conn out tooLong with
  | nil =>
    obtain ⟨next, hread, hstream, hsent⟩ := readByte_of_stream h
    refine ⟨next, ?_, hstream, hsent⟩
    have hfits : ¬kMaxPacketSize < out.length + ([] : List Byte).length := by simpa using hout
    rw [readBody_eq, hread, List.append_nil, List.take_of_length_le hout, decide_eq_false hfits,
      Bool.or_false]
    simp only [if_true]
  | cons c body ih =>
    obtain ⟨hc, hrest⟩ := not_or.mp (mt List.mem_cons.mpr hbody)
    obtain ⟨next, hread, hstream, hsent⟩ := readByte_of_stream h
    rw [readBody_eq, hread]
    simp only [if_neg (Ne.symm hc)]
    by_cases hroom : out.length < kMaxPacketSize
    · have hlen : (out ++ [c]).length ≤ kMaxPacketSize := by
        rw [List.length_append, List.length_singleton]
        omega
      obtain ⟨last, hlast, hend, hsent'⟩ := ih _ hlen hrest hstream
      refine ⟨last, ?_, hend, hsent'.trans hsent⟩
      rw [if_pos hroom, hlast, List.append_assoc, List.singleton_append, List.length_append,
        List.length_singleton, List.length_cons, Nat.add_assoc, Nat.add_comm 1]
    · obtain ⟨last, hlast, hend, hsent'⟩ := ih _ hout hrest hstream
      refine ⟨last, ?_, hend, hsent'.trans hsent⟩
      have hfull : out.length = kMaxPacketSize := by omega
      have hover : kMaxPacketSize < out.length + (c :: body).length := by
        rw [List.length_cons]
        omega
      rw [if_neg hroom, hlast, decide_eq_true hover, Bool.true_or, Bool.or_true,
        List.take_left' hfull, List.take_left' hfull]

theorem readFrame_of_stream {conn : Conn} {frame : Frame} {rest : List Byte}
    (h : conn.stream = frame.bytes ++ rest) :
    ∃ next, conn.readFrame =
        some (.frame frame.stored frame.overran frame.hi frame.lo, next) ∧
      next.stream = rest ∧ next.sent = conn.sent := by
  have hstream : conn.stream =
      frame.noise ++ byte '$' :: (frame.body ++ byte '#' :: frame.hi :: frame.lo :: rest) := by
    simp [h, Frame.bytes]
  have hzero : ([] : List Byte).length ≤ kMaxPacketSize := Nat.zero_le _
  obtain ⟨c1, hskip, h1, hs1⟩ := skipNoise_of_stream frame.quiet hstream
  obtain ⟨c2, hbody, h2, hs2⟩ := readBody_of_stream false hzero frame.closed h1
  obtain ⟨c3, hhi, h3, hs3⟩ := readByte_of_stream h2
  obtain ⟨c4, hlo, h4, hs4⟩ := readByte_of_stream h3
  refine ⟨c4, ?_, h4, hs4.trans (hs3.trans (hs2.trans hs1))⟩
  rw [List.nil_append, List.length_nil, Nat.zero_add, Bool.false_or] at hbody
  simp only [readFrame, hskip, hbody, hhi, hlo, Frame.stored, Frame.overran]

-- A bad frame costs one '-' and nothing else.
theorem recvPacket_bad {conn : Conn} {frame : Frame} {rest : List Byte} (hbad : frame.Bad)
    (h : conn.stream = frame.bytes ++ rest) :
    ∃ next : Conn, conn.recvPacket = next.recvPacket ∧ next.stream = rest ∧
      next.sent = conn.sent ++ [.nak] := by
  obtain ⟨next, hread, hstream, hsent⟩ := readFrame_of_stream h
  have hnone : accept frame.stored frame.overran frame.hi frame.lo = none :=
    frame.accepted_eq_none_iff.mpr hbad
  refine ⟨next.send .nak, ?_, hstream, by rw [sent_send, hsent]⟩
  rw [recvPacket_eq conn, hread]
  simp only [hnone]

theorem recvPacket_good {conn : Conn} {frame : Frame} {payload rest : List Byte}
    (hgood : frame.Carries payload) (h : conn.stream = frame.bytes ++ rest) :
    ∃ next, conn.recvPacket = some (.Packet payload, next) ∧ next.stream = rest ∧
      next.sent = conn.sent ++ [.ack] := by
  obtain ⟨next, hread, hstream, hsent⟩ := readFrame_of_stream h
  have hsome : accept frame.stored frame.overran frame.hi frame.lo = some payload :=
    hgood.accepted
  refine ⟨next.send .ack, ?_, hstream, by rw [sent_send, hsent]⟩
  rw [recvPacket_eq conn, hread]
  simp only [hsome]

-- However the stream is cut into chunks, bad frames are refused one by one and the
-- first good one is received whole.
theorem recvPacket_exact (conn : Conn) (bad : List Frame) (frame : Frame)
    (payload rest : List Byte) (hbad : ∀ f ∈ bad, f.Bad) (hgood : frame.Carries payload)
    (hstream : conn.stream = bad.flatMap Frame.bytes ++ frame.bytes ++ rest) :
    ∃ next, conn.recvPacket = some (.Packet payload, next) ∧ next.stream = rest ∧
      next.sent = conn.sent ++ List.replicate bad.length .nak ++ [.ack] := by
  induction bad generalizing conn with
  | nil =>
    obtain ⟨next, hrecv, hrest, hsent⟩ := recvPacket_good hgood hstream
    exact ⟨next, hrecv, hrest, by simpa using hsent⟩
  | cons f bad ih =>
    rw [List.flatMap_cons, List.append_assoc, List.append_assoc] at hstream
    obtain ⟨mid, heq, hmid, hsent⟩ := recvPacket_bad (hbad f List.mem_cons_self) hstream
    rw [← List.append_assoc] at hmid
    obtain ⟨next, hrecv, hrest, hsent'⟩ :=
      ih mid (fun g hg => hbad g (List.mem_cons_of_mem f hg)) hmid
    refine ⟨next, heq.trans hrecv, hrest, ?_⟩
    rw [hsent', hsent, List.length_cons, List.replicate_succ]
    simp

theorem quiet_nil : ∀ c ∈ ([] : List Byte), c ≠ byte '$' ∧ c ≠ 0x03#8 := nofun

-- A packet cut inside its escape, after a frame with a wrong checksum.
def splitConn : Conn where
  socket := [
    .data { first := byte '+', rest := text "$m0#0", bounded := by decide },
    .interrupted,
    .data { first := byte '0', rest := text "$\x7d", bounded := by decide },
    .data { first := 0x03#8, rest := text "#80+", bounded := by decide }]

def wrongFrame : Frame where
  noise := [byte '+']
  body := text "m0"
  hi := byte '0'
  lo := byte '0'
  quiet := by decide
  closed := by decide

def hashFrame : Frame where
  noise := []
  body := [byte '}', 0x03#8]
  hi := byte '8'
  lo := byte '0'
  quiet := quiet_nil
  closed := by decide

theorem recvPacket_exact_split :
    ∃ next, splitConn.recvPacket = some (.Packet [byte '#'], next) ∧ next.stream = text "+" ∧
      next.sent = [.nak, .ack] := by
  have hbad : ∀ f ∈ [wrongFrame], f.Bad := by
    intro f hf
    obtain rfl := List.mem_singleton.mp hf
    exact .checksum (by decide)
  have hgood : hashFrame.Carries [byte '#'] := ⟨by decide, by decide, by decide⟩
  exact recvPacket_exact splitConn [wrongFrame] hashFrame [byte '#'] (text "+") hbad hgood
    (by decide)

end Conn

end ClearCore.Mips.Gdb
