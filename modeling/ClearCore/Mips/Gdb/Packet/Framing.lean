import ClearCore.Mips.Gdb.Packet.Theorems

-- The byte stream read as the protocol has it, without buffers and sockets: Ctrl-C between
-- frames, and the packets whole frames carry.

namespace ClearCore.Mips.Gdb

open Isa

-- Where a stream stands: between frames, in the body of one, or at its checksum.
inductive Framing
  | outside
  | body (data : List Byte)
  | sum (data : List Byte)
  | lastDigit (data : List Byte) (hi : Byte)
deriving DecidableEq

-- What a stream has brought so far.
structure Parsed where
  framing : Framing := .outside
  interrupts : ℕ := 0
  packets : List (List Byte) := []
deriving DecidableEq

-- What an intact frame carries.
def payload (data : List Byte) (hi lo : Byte) : Option (List Byte) :=
  if data.length ≤ kMaxPacketSize ∧ checksumMatches data hi lo then unescape data else none

namespace Parsed

def read (p : Parsed) (c : Byte) : Parsed :=
  match p.framing with
  | .outside =>
      if c = 0x03#8 then { p with interrupts := p.interrupts + 1 }
      else if c = byte '$' then { p with framing := .body [] }
      else p
  | .body data =>
      if c = byte '#' then { p with framing := .sum data }
      else { p with framing := .body (data ++ [c]) }
  | .sum data => { p with framing := .lastDigit data c }
  | .lastDigit data hi =>
      { p with framing := .outside, packets := p.packets ++ (payload data hi c).toList }

def readAll (p : Parsed) (bytes : List Byte) : Parsed := bytes.foldl read p

theorem readAll_append (p : Parsed) (bytes more : List Byte) :
    p.readAll (bytes ++ more) = (p.readAll bytes).readAll more := List.foldl_append

end Parsed

def parse (bytes : List Byte) : Parsed := Parsed.readAll {} bytes

-- Between frames before and after, `bytes` brings these interrupts and packets.
def Brings (bytes : List Byte) (interrupts : ℕ) (packets : List (List Byte)) : Prop :=
  ∀ p : Parsed, p.framing = .outside →
    p.readAll bytes =
      { p with interrupts := p.interrupts + interrupts, packets := p.packets ++ packets }

-- `bytes` brings nothing, though it may end inside a frame.
def Pending (bytes : List Byte) : Prop :=
  ∀ p : Parsed, p.framing = .outside →
    (p.readAll bytes).interrupts = p.interrupts ∧ (p.readAll bytes).packets = p.packets

def Quiet (noise : List Byte) : Prop := ∀ c ∈ noise, c ≠ byte '$' ∧ c ≠ 0x03#8

theorem Brings.nil : Brings [] 0 [] := by
  intro p hp
  simp [Parsed.readAll]

theorem Brings.append {bytes more : List Byte} {i j : ℕ} {ps qs : List (List Byte)}
    (h : Brings bytes i ps) (hmore : Brings more j qs) :
    Brings (bytes ++ more) (i + j) (ps ++ qs) := by
  intro p hp
  have hmid : { p with interrupts := p.interrupts + i, packets := p.packets ++ ps }.framing =
      Framing.outside := hp
  rw [Parsed.readAll_append, h p hp, hmore _ hmid]
  simp only [Nat.add_assoc, List.append_assoc]

theorem Brings.append_pending {bytes more : List Byte} (h : Brings bytes 0 [])
    (hmore : Pending more) : Pending (bytes ++ more) := by
  intro p hp
  rw [Parsed.readAll_append, h p hp]
  simpa using hmore { p with interrupts := p.interrupts + 0, packets := p.packets ++ [] } hp

theorem Brings.pending {bytes : List Byte} (h : Brings bytes 0 []) : Pending bytes := by
  intro p hp
  rw [h p hp]
  simp

theorem Brings.parse {bytes : List Byte} {i : ℕ} {ps : List (List Byte)} (h : Brings bytes i ps) :
    Gdb.parse bytes = { interrupts := i, packets := ps } := by
  rw [Gdb.parse, h {} rfl, Nat.zero_add, List.nil_append]

theorem Quiet.brings {noise : List Byte} (h : Quiet noise) : Brings noise 0 [] := by
  induction noise with
  | nil => exact Brings.nil
  | cons c noise ih =>
    obtain ⟨hdollar, hctrl⟩ := h c List.mem_cons_self
    intro p hp
    have hread : p.read c = p := by
      rw [Parsed.read, hp]
      simp only [if_neg hctrl, if_neg hdollar]
    have hrest := ih (fun d hd => h d (List.mem_cons_of_mem c hd)) p hp
    rw [Parsed.readAll, List.foldl_cons, hread]
    exact hrest

theorem brings_ctrlC : Brings [0x03#8] 1 [] := by
  intro p hp
  simp [Parsed.readAll, Parsed.read, hp]

theorem Quiet.brings_interrupt {noise : List Byte} (h : Quiet noise) :
    Brings (noise ++ [0x03#8]) 1 [] := by
  simpa using h.brings.append brings_ctrlC

theorem read_start {p : Parsed} (hp : p.framing = .outside) :
    p.read (byte '$') = { p with framing := .body [] } := by
  have hne : byte '$' ≠ 0x03#8 := by decide
  rw [Parsed.read, hp]
  simp only [if_neg hne, if_true]

theorem readAll_body {p : Parsed} {data body : List Byte} (hp : p.framing = .body data)
    (hbody : byte '#' ∉ body) :
    p.readAll body = { p with framing := .body (data ++ body) } := by
  induction body generalizing p data with
  | nil => simp [Parsed.readAll, ← hp]
  | cons c body ih =>
    obtain ⟨hc, hrest⟩ := not_or.mp (mt List.mem_cons.mpr hbody)
    have hread : p.read c = { p with framing := .body (data ++ [c]) } := by
      rw [Parsed.read, hp]
      simp only [if_neg (Ne.symm hc)]
    rw [Parsed.readAll, List.foldl_cons, hread]
    have htail := ih (p := { p with framing := .body (data ++ [c]) }) rfl hrest
    rw [Parsed.readAll] at htail
    rw [htail, List.append_assoc, List.singleton_append]

theorem readAll_frame {p : Parsed} (hp : p.framing = .outside) {noise body : List Byte}
    (hnoise : Quiet noise) (hbody : byte '#' ∉ body) :
    p.readAll (noise ++ byte '$' :: body) = { p with framing := .body body } := by
  have hstart := readAll_body (p := { p with framing := .body [] }) rfl hbody
  rw [Parsed.readAll_append, hnoise.brings p hp]
  simp only [Nat.add_zero, List.append_nil]
  rw [Parsed.readAll, List.foldl_cons, read_start hp]
  exact hstart

theorem Frame.brings (frame : Frame) :
    Brings frame.bytes 0 (payload frame.body frame.hi frame.lo).toList := by
  intro p hp
  rw [Frame.bytes, Parsed.readAll_append, readAll_frame hp frame.quiet frame.closed]
  simp [Parsed.readAll, Parsed.read, hp]

-- A stream starts with a whole frame, with a Ctrl-C, or brings nothing.
inductive Heads (bytes : List Byte) : Prop
  | frame (frame : Frame) (rest : List Byte) (h : bytes = frame.bytes ++ rest)
  | interrupt (noise rest : List Byte) (hnoise : Quiet noise) (h : bytes = noise ++ 0x03#8 :: rest)
  | noise (h : Quiet bytes)
  | body (noise body : List Byte) (hnoise : Quiet noise) (hbody : byte '#' ∉ body)
      (h : bytes = noise ++ byte '$' :: body)
  | sum (noise body digits : List Byte) (hnoise : Quiet noise) (hbody : byte '#' ∉ body)
      (hdigits : digits.length < 2) (h : bytes = noise ++ byte '$' :: body ++ byte '#' :: digits)

theorem quiet_or (bytes : List Byte) :
    Quiet bytes ∨ ∃ noise c rest, Quiet noise ∧ (c = byte '$' ∨ c = 0x03#8) ∧
      bytes = noise ++ c :: rest := by
  induction bytes with
  | nil => exact .inl (by simp [Quiet])
  | cons c bytes ih =>
    by_cases hc : c = byte '$' ∨ c = 0x03#8
    · exact .inr ⟨[], c, bytes, by simp [Quiet], hc, rfl⟩
    · have hcons : ∀ {noise}, Quiet noise → Quiet (c :: noise) := by
        intro noise hnoise d hd
        rcases List.mem_cons.mp hd with rfl | hd
        · exact not_or.mp hc
        · exact hnoise d hd
      rcases ih with hquiet | ⟨noise, d, rest, hnoise, hd, hrest⟩
      · exact .inl (hcons hquiet)
      · exact .inr ⟨c :: noise, d, rest, hcons hnoise, hd, by rw [hrest, List.cons_append]⟩

theorem heads (bytes : List Byte) : Heads bytes := by
  rcases quiet_or bytes with hquiet | ⟨noise, c, rest, hnoise, rfl | rfl, rfl⟩
  · exact .noise hquiet
  · by_cases hhash : byte '#' ∈ rest
    · obtain ⟨body, digits, rfl, hbody⟩ := List.eq_append_cons_of_mem hhash
      match digits with
      | [] => exact .sum noise body [] hnoise hbody (by decide) (by simp)
      | [hi] => exact .sum noise body [hi] hnoise hbody (by simp) (by simp)
      | hi :: lo :: rest =>
        exact .frame ⟨noise, body, hi, lo, hnoise, hbody⟩ rest (by simp [Frame.bytes])
    · exact .body noise rest hnoise hhash rfl
  · exact .interrupt noise rest hnoise rfl

theorem pending_body {noise body : List Byte} (hnoise : Quiet noise) (hbody : byte '#' ∉ body) :
    Pending (noise ++ byte '$' :: body) := by
  intro p hp
  rw [readAll_frame hp hnoise hbody]
  exact ⟨rfl, rfl⟩

theorem pending_sum {noise body digits : List Byte} (hnoise : Quiet noise)
    (hbody : byte '#' ∉ body) (hdigits : digits.length < 2) :
    Pending (noise ++ byte '$' :: body ++ byte '#' :: digits) := by
  intro p hp
  rw [Parsed.readAll_append, readAll_frame hp hnoise hbody]
  match digits with
  | [] => simp [Parsed.readAll, Parsed.read]
  | [hi] => simp [Parsed.readAll, Parsed.read]
  | _ :: _ :: _ => simp only [List.length_cons] at hdigits; omega

theorem Frame.accepted_eq_payload (frame : Frame) :
    frame.accepted = payload frame.body frame.hi frame.lo := by
  unfold Frame.accepted Frame.stored Frame.overran Conn.accept payload
  by_cases hlong : kMaxPacketSize < frame.body.length
  · have hle : ¬frame.body.length ≤ kMaxPacketSize := by omega
    simp [hlong, hle]
  · have hle : frame.body.length ≤ kMaxPacketSize := by omega
    simp [hlong, hle, List.take_of_length_le hle]

namespace Conn

-- recv_packet is still waiting, or the connection is gone.
def Starved (conn : Conn) : Prop :=
  conn.recvPacket = none ∨ ∃ next, conn.recvPacket = some (.Closed, next)

theorem deliverable_fill {socket socket' : List Recv} {chunk : Chunk}
    (h : fill socket = some (some chunk, socket')) :
    deliverable socket = chunk.bytes ++ deliverable socket' := by
  induction socket with
  | nil => simp [fill] at h
  | cons event socket ih =>
    cases event with
    | data c =>
      simp only [fill, Option.some.injEq, Prod.mk.injEq] at h
      obtain ⟨rfl, rfl⟩ := h
      rfl
    | interrupted => exact ih h
    | wouldBlock => exact ih h
    | closed => simp [fill] at h

theorem readByte_of_empty {conn : Conn} (h : conn.stream = []) :
    conn.readByte = none ∨ ∃ next, conn.readByte = some (none, next) := by
  obtain ⟨hrx, hsocket⟩ := List.append_eq_nil_iff.mp h
  unfold readByte
  split
  · rename_i c rx hcons
    rw [hrx] at hcons
    cases hcons
  · cases hfill : fill conn.socket with
    | none => exact .inl rfl
    | some filled =>
      obtain ⟨chunk, socket⟩ := filled
      cases chunk with
      | none => exact .inr ⟨_, rfl⟩
      | some chunk =>
        rw [deliverable_fill hfill] at hsocket
        simp [Chunk.bytes] at hsocket

theorem skipNoise_of_quiet {conn : Conn} (h : Quiet conn.stream) :
    conn.skipNoise = none ∨ ∃ next, conn.skipNoise = some (.closed, next) := by
  induction hn : conn.stream generalizing conn with
  | nil =>
    rw [skipNoise_eq]
    rcases readByte_of_empty hn with hread | ⟨next, hread⟩
    · exact .inl (by rw [hread])
    · exact .inr ⟨next, by rw [hread]⟩
  | cons c rest ih =>
    obtain ⟨next, hread, hstream, -⟩ := readByte_of_stream hn
    rw [hn] at h
    obtain ⟨hdollar, hctrl⟩ := h c List.mem_cons_self
    have hrest : Quiet next.stream := by
      rw [hstream]
      exact fun d hd => h d (List.mem_cons_of_mem c hd)
    rw [skipNoise_eq, hread]
    simp only [if_neg hctrl, if_pos hdollar]
    exact ih hrest hstream

theorem skipNoise_of_interrupt {conn : Conn} {noise rest : List Byte} (hnoise : Quiet noise)
    (h : conn.stream = noise ++ 0x03#8 :: rest) :
    ∃ next, conn.skipNoise = some (.interrupt, next) ∧ next.stream = rest ∧
      next.sent = conn.sent := by
  induction noise generalizing conn with
  | nil =>
    obtain ⟨next, hread, hstream, hsent⟩ := readByte_of_stream h
    refine ⟨next, ?_, hstream, hsent⟩
    rw [skipNoise_eq, hread]
    simp only [if_true]
  | cons c noise ih =>
    obtain ⟨hdollar, hctrl⟩ := hnoise c List.mem_cons_self
    obtain ⟨next, hread, hstream, hsent⟩ := readByte_of_stream h
    obtain ⟨last, hlast, hrest, hsent'⟩ :=
      ih (fun d hd => hnoise d (List.mem_cons_of_mem c hd)) hstream
    refine ⟨last, ?_, hrest, hsent'.trans hsent⟩
    rw [skipNoise_eq, hread]
    simp only [if_neg hctrl, if_pos hdollar, hlast]

theorem readBody_of_open {conn : Conn} (h : byte '#' ∉ conn.stream) (out : List Byte)
    (tooLong : Bool) :
    conn.readBody out tooLong = none ∨ ∃ next, conn.readBody out tooLong = some (none, next) := by
  induction hn : conn.stream generalizing conn out tooLong with
  | nil =>
    rw [readBody_eq]
    rcases readByte_of_empty hn with hread | ⟨next, hread⟩
    · exact .inl (by rw [hread])
    · exact .inr ⟨next, by rw [hread]⟩
  | cons c rest ih =>
    obtain ⟨next, hread, hstream, -⟩ := readByte_of_stream hn
    rw [hn] at h
    obtain ⟨hc, hrest⟩ := not_or.mp (mt List.mem_cons.mpr h)
    rw [← hstream] at hrest
    rw [readBody_eq, hread]
    simp only [if_neg (Ne.symm hc)]
    split
    · exact ih hrest _ _ hstream
    · exact ih hrest _ _ hstream

theorem readFrame_of_quiet {conn : Conn} (h : Quiet conn.stream) :
    conn.readFrame = none ∨ ∃ next, conn.readFrame = some (.closed, next) := by
  unfold readFrame
  rcases skipNoise_of_quiet h with hskip | ⟨next, hskip⟩
  · exact .inl (by rw [hskip])
  · exact .inr ⟨next, by rw [hskip]⟩

theorem readFrame_of_interrupt {conn : Conn} {noise rest : List Byte} (hnoise : Quiet noise)
    (h : conn.stream = noise ++ 0x03#8 :: rest) :
    ∃ next, conn.readFrame = some (.interrupt, next) ∧ next.stream = rest ∧
      next.sent = conn.sent := by
  obtain ⟨next, hskip, hstream, hsent⟩ := skipNoise_of_interrupt hnoise h
  exact ⟨next, by rw [readFrame, hskip], hstream, hsent⟩

theorem readFrame_of_body {conn : Conn} {noise body : List Byte} (hnoise : Quiet noise)
    (hbody : byte '#' ∉ body) (h : conn.stream = noise ++ byte '$' :: body) :
    conn.readFrame = none ∨ ∃ next, conn.readFrame = some (.closed, next) := by
  obtain ⟨c1, hskip, h1, -⟩ := skipNoise_of_stream hnoise h
  rw [← h1] at hbody
  rw [readFrame, hskip]
  rcases readBody_of_open hbody [] false with hread | ⟨next, hread⟩
  · exact .inl (by simp only [hread])
  · exact .inr ⟨next, by simp only [hread]⟩

theorem readFrame_of_sum {conn : Conn} {noise body digits : List Byte} (hnoise : Quiet noise)
    (hbody : byte '#' ∉ body) (hdigits : digits.length < 2)
    (h : conn.stream = noise ++ byte '$' :: body ++ byte '#' :: digits) :
    conn.readFrame = none ∨ ∃ next, conn.readFrame = some (.closed, next) := by
  have hstream : conn.stream = noise ++ byte '$' :: (body ++ byte '#' :: digits) := by simp [h]
  have hzero : ([] : List Byte).length ≤ kMaxPacketSize := Nat.zero_le _
  obtain ⟨c1, hskip, h1, -⟩ := skipNoise_of_stream hnoise hstream
  obtain ⟨c2, hread, h2, -⟩ := readBody_of_stream false hzero hbody h1
  rw [readFrame, hskip]
  simp only [hread]
  rcases digits with - | ⟨hi, - | ⟨lo, rest⟩⟩
  · rcases readByte_of_empty h2 with hhi | ⟨next, hhi⟩
    · exact .inl (by simp only [hhi])
    · exact .inr ⟨next, by simp only [hhi]⟩
  · obtain ⟨c3, hhi, h3, -⟩ := readByte_of_stream h2
    simp only [hhi]
    rcases readByte_of_empty h3 with hlo | ⟨next, hlo⟩
    · exact .inl (by simp only [hlo])
    · exact .inr ⟨next, by simp only [hlo]⟩
  · simp only [List.length_cons] at hdigits
    omega

theorem starved_of_readFrame {conn : Conn}
    (h : conn.readFrame = none ∨ ∃ next, conn.readFrame = some (.closed, next)) :
    conn.Starved := by
  unfold Starved
  rw [recvPacket_eq]
  rcases h with hread | ⟨next, hread⟩
  · exact .inl (by rw [hread])
  · exact .inr ⟨next, by rw [hread]⟩

-- The stop replies sent for a Ctrl-C.
def sigints (sent : List Message) : ℕ := sent.count (.packet (text "S02"))

theorem sigints_send (conn : Conn) {message : Message} (h : message ≠ .packet (text "S02")) :
    sigints (conn.send message).sent = sigints conn.sent := by
  rw [sigints, sent_send, List.count_append, List.count_singleton, if_neg (by simpa using h),
    Nat.add_zero, sigints]

theorem sigints_send_sigint (conn : Conn) :
    sigints (conn.send (.packet (text "S02"))).sent = sigints conn.sent + 1 := by
  rw [sigints, sent_send, List.count_append, List.count_singleton_self, sigints]

-- From `conn` to `next` a part of the stream is read that brings these interrupts and
-- packets, and no Ctrl-C is answered.
structure Reads (conn next : Conn) (interrupts : ℕ) (packets : List (List Byte)) : Prop where
  taken : ∃ bytes, conn.stream = bytes ++ next.stream ∧ Brings bytes interrupts packets
  unanswered : sigints next.sent = sigints conn.sent

theorem Reads.trans {conn mid next : Conn} {i j : ℕ} {ps qs : List (List Byte)}
    (h : Reads conn mid i ps) (hnext : Reads mid next j qs) :
    Reads conn next (i + j) (ps ++ qs) := by
  obtain ⟨bytes, hstream, hbytes⟩ := h.taken
  obtain ⟨more, hmid, hmore⟩ := hnext.taken
  refine ⟨⟨bytes ++ more, ?_, hbytes.append hmore⟩, hnext.unanswered.trans h.unanswered⟩
  rw [hstream, hmid, List.append_assoc]

theorem Reads.of_frame {conn next : Conn} {frame : Frame} {message : Message}
    (hmessage : message ≠ .packet (text "S02")) (hstream : conn.stream = frame.bytes ++ next.stream)
    (hsent : next.sent = conn.sent) :
    Reads conn (next.send message) 0 frame.accepted.toList := by
  refine ⟨⟨frame.bytes, hstream, ?_⟩, ?_⟩
  · rw [frame.accepted_eq_payload]
    exact frame.brings
  · rw [sigints_send next hmessage, hsent]

-- What recv_packet can do: take one Ctrl-C, take one packet, or find the stream without either.
inductive RecvSpec (conn : Conn) : Prop
  | interrupt (next : Conn) (h : conn.recvPacket = some (.Interrupt, next))
      (hreads : Reads conn next 1 [])
  | packet (pkt : List Byte) (next : Conn) (h : conn.recvPacket = some (.Packet pkt, next))
      (hreads : Reads conn next 0 [pkt])
  | starved (h : conn.Starved) (hpending : Pending conn.stream)

theorem RecvSpec.of_refused {conn next : Conn} (heq : conn.recvPacket = next.recvPacket)
    (hreads : Reads conn next 0 []) (h : next.RecvSpec) : conn.RecvSpec := by
  cases h with
  | interrupt last hlast hrest => exact .interrupt last (heq.trans hlast) (hreads.trans hrest)
  | packet pkt last hlast hrest => exact .packet pkt last (heq.trans hlast) (hreads.trans hrest)
  | starved hlast hpending =>
    obtain ⟨bytes, hstream, hbytes⟩ := hreads.taken
    refine .starved ?_ ?_
    · rw [Starved, heq]
      exact hlast
    · rw [hstream]
      exact hbytes.append_pending hpending

theorem recvPacket_spec (conn : Conn) : conn.RecvSpec := by
  induction hn : conn.stream.length using Nat.strong_induction_on generalizing conn with
  | _ n ih =>
    cases heads conn.stream with
    | noise h => exact .starved (starved_of_readFrame (readFrame_of_quiet h)) h.brings.pending
    | interrupt noise rest hnoise h =>
      obtain ⟨next, hread, hstream, hsent⟩ := readFrame_of_interrupt hnoise h
      refine .interrupt next (by rw [recvPacket_eq, hread]) ⟨⟨noise ++ [0x03#8], ?_, ?_⟩, ?_⟩
      · rw [h, hstream, List.append_assoc, List.singleton_append]
      · exact hnoise.brings_interrupt
      · rw [hsent]
    | body noise body hnoise hbody h =>
      refine .starved (starved_of_readFrame (readFrame_of_body hnoise hbody h)) ?_
      rw [h]
      exact pending_body hnoise hbody
    | sum noise body digits hnoise hbody hdigits h =>
      refine .starved (starved_of_readFrame (readFrame_of_sum hnoise hbody hdigits h)) ?_
      rw [h]
      exact pending_sum hnoise hbody hdigits
    | frame frame rest h =>
      obtain ⟨next, hread, hstream, hsent⟩ := readFrame_of_stream h
      rw [← hstream] at h
      cases haccept : accept frame.stored frame.overran frame.hi frame.lo with
      | some pkt =>
        have hreads : Reads conn (next.send .ack) 0 frame.accepted.toList :=
          .of_frame (by decide) h hsent
        rw [Frame.accepted, haccept] at hreads
        exact .packet pkt (next.send .ack) (by rw [recvPacket_eq, hread]; simp only [haccept]) hreads
      | none =>
        have hreads : Reads conn (next.send .nak) 0 frame.accepted.toList :=
          .of_frame (by decide) h hsent
        rw [Frame.accepted, haccept] at hreads
        have heq : conn.recvPacket = (next.send .nak).recvPacket := by
          rw [recvPacket_eq conn, hread]
          simp only [haccept]
        have hlt : (next.send .nak).stream.length < n := by
          rw [← hn, h, stream_send, List.length_append, Frame.bytes]
          simp only [List.length_append, List.length_cons]
          omega
        exact .of_refused heq hreads (ih _ hlt (next.send .nak) rfl)

theorem Starved.pending {conn : Conn} (h : conn.Starved) : Pending conn.stream := by
  cases recvPacket_spec conn with
  | interrupt next hrecv => simp [Starved, hrecv] at h
  | packet pkt next hrecv => simp [Starved, hrecv] at h
  | starved _ hpending => exact hpending

-- Reading leaves room in the buffer: what it takes came out of it, or out of a recv() that
-- found it empty.
theorem room_of_readByte {conn next : Conn} {event : Option Byte}
    (h : conn.readByte = some (event, next)) : next.rx.length < kRxBufSize := by
  unfold readByte at h
  split at h
  · rename_i c rx hrx
    have hle := conn.rx_le
    simp only [Option.some.injEq, Prod.mk.injEq] at h
    rw [hrx, List.length_cons] at hle
    rw [← h.2]
    exact hle
  · rename_i hrx
    cases hfill : fill conn.socket with
    | none => simp [hfill] at h
    | some filled =>
      obtain ⟨chunk, socket⟩ := filled
      cases chunk with
      | none =>
        simp only [hfill, Option.some.injEq, Prod.mk.injEq] at h
        rw [← h.2]
        simp [hrx, kRxBufSize]
      | some chunk =>
        simp only [hfill, Option.some.injEq, Prod.mk.injEq] at h
        rw [← h.2]
        exact chunk.bounded

theorem room_of_skipNoise {conn next : Conn} {event : Skipped}
    (h : conn.skipNoise = some (event, next)) : next.rx.length < kRxBufSize := by
  induction hn : conn.size using Nat.strong_induction_on generalizing conn with
  | _ n ih =>
    rw [skipNoise_eq] at h
    cases hread : conn.readByte with
    | none => simp [hread] at h
    | some read =>
      obtain ⟨event', mid⟩ := read
      have hroom := room_of_readByte hread
      cases event' with
      | none =>
        simp only [hread, Option.some.injEq, Prod.mk.injEq] at h
        rw [← h.2]
        exact hroom
      | some c =>
        have hlt := size_readByte hread
        simp only [hread] at h
        split_ifs at h
        · simp only [Option.some.injEq, Prod.mk.injEq] at h
          rw [← h.2]
          exact hroom
        · exact ih mid.size (by omega) h rfl
        · simp only [Option.some.injEq, Prod.mk.injEq] at h
          rw [← h.2]
          exact hroom

theorem room_of_readFrame {conn next : Conn} {received : Received}
    (h : conn.readFrame = some (received, next)) (hopen : received ≠ .closed) :
    next.rx.length < kRxBufSize := by
  rcases readFrame_cases h with hreceived | ⟨-, hskip⟩ |
    ⟨_, _, _, _, _, _, _, -, -, -, -, hlo⟩
  · exact absurd hreceived hopen
  · exact room_of_skipNoise hskip
  · exact room_of_readByte hlo

theorem room_of_recvPacket {conn next : Conn} {status : RecvStatus}
    (h : conn.recvPacket = some (status, next)) (hopen : status ≠ .Closed) :
    next.rx.length < kRxBufSize := by
  induction hn : conn.size using Nat.strong_induction_on generalizing conn with
  | _ n ih =>
    rw [recvPacket_eq] at h
    split at h
    · cases h
    · simp only [Option.some.injEq, Prod.mk.injEq] at h
      exact absurd h.1.symm hopen
    · rename_i mid hread
      simp only [Option.some.injEq, Prod.mk.injEq] at h
      rw [← h.2]
      exact room_of_readFrame hread (by decide)
    · rename_i out tooLong hi lo mid hread
      have hroom := room_of_readFrame hread (by simp)
      have hlt := size_readFrame hread
      split at h
      · simp only [Option.some.injEq, Prod.mk.injEq] at h
        rw [← h.2]
        exact hroom
      · exact ih (mid.send .nak).size (by rw [size_send]; omega) h rfl

end Conn

end ClearCore.Mips.Gdb
