import ClearCore.Library.Escape
import ClearCore.Mips.Gdb.Hex

-- Packet I/O of the stub: the receive buffer, the socket behind it, and framing.

namespace ClearCore.Mips.Gdb

open Isa

def kMaxPacketSize : Nat := 0x4000

-- The size of rx_buf_.
def kRxBufSize : Nat := 4096

-- The bytes one recv() delivers.
structure Chunk where
  first : Byte
  rest : List Byte
  bounded : rest.length < kRxBufSize
deriving DecidableEq

def Chunk.bytes (chunk : Chunk) : List Byte := chunk.first :: chunk.rest

-- What the socket does when recv() is called: it delivers data, fails with EINTR,
-- has nothing yet, or is closed.
inductive Recv
  | data (chunk : Chunk)
  | interrupted
  | wouldBlock
  | closed
deriving DecidableEq

inductive Message
  | ack
  | nak
  | packet (data : List Byte)
deriving DecidableEq

def Recv.bytes : Recv → List Byte
  | .data chunk => chunk.bytes
  | _ => []

theorem emptyBuffer_le : ([] : List Byte).length ≤ kRxBufSize := Nat.zero_le _

-- `rx` is the part of rx_buf_ between rx_begin_ and rx_end_, `socket` what recv() will
-- meet, oldest first. The result of send() is ignored by every caller.
structure Conn where
  rx : List Byte := []
  rx_le : rx.length ≤ kRxBufSize := by exact emptyBuffer_le
  socket : List Recv := []
  sent : List Message := []
deriving DecidableEq

inductive RecvStatus
  | Packet (out : List Byte)
  | Interrupt
  | Closed
deriving DecidableEq

inductive InputPoll
  | Idle
  | Interrupt
  | Closed
deriving DecidableEq

def checksum (data : List Byte) : Byte := data.foldl (· + ·) 0

def Message.bytes : Message → List Byte
  | .ack => [byte '+']
  | .nak => [byte '-']
  | .packet data => byte '$' :: data ++ byte '#' :: hexByte (checksum data)

def checksumMatches (data : List Byte) (hi lo : Byte) : Bool :=
  decide (parseHexByte [hi, lo] 0 = some (checksum data))

def unescape (raw : List Byte) : Option (List Byte) :=
  Escape.decode (byte '}') (· ^^^ 0x20#8) raw

namespace Conn

def send (conn : Conn) (message : Message) : Conn := { conn with sent := conn.sent ++ [message] }

-- The recv() loop of read_byte. `none` waits forever; a closed socket stays closed.
def fill : List Recv → Option (Option Chunk × List Recv)
  | [] => none
  | .interrupted :: socket => fill socket
  | .wouldBlock :: socket => fill socket
  | .closed :: socket => some (none, .closed :: socket)
  | .data chunk :: socket => some (some chunk, socket)

def readByte (conn : Conn) : Option (Option Byte × Conn) :=
  match hrx : conn.rx with
  | c :: rx =>
      have hle := conn.rx_le
      some (some c, { conn with rx, rx_le := by rw [hrx] at hle; exact Nat.le_of_succ_le hle })
  | [] =>
      match fill conn.socket with
      | none => none
      | some (none, socket) => some (none, { conn with socket })
      | some (some chunk, socket) =>
          some (some chunk.first,
            { conn with rx := chunk.rest, rx_le := Nat.le_of_lt chunk.bounded, socket })

-- What is left in the kernel when recv() takes `room` bytes of a chunk.
def unread (chunk : Chunk) (room : Nat) (socket : List Recv) : List Recv :=
  match hrest : chunk.bytes.drop room with
  | [] => socket
  | first :: rest =>
      .data
        { first, rest
          bounded := by
            have hlen := congrArg List.length hrest
            have hbound := chunk.bounded
            simp only [List.length_drop, Chunk.bytes, List.length_cons] at hlen
            omega } :: socket

-- The scan of the buffer for Ctrl-C.
def scan (conn : Conn) (closed : Bool) : InputPoll × Conn :=
  match conn.rx.findIdx? (· = 0x03#8) with
  | some i =>
      (.Interrupt, { conn with
        rx := conn.rx.drop (i + 1)
        rx_le := Nat.le_trans (List.drop_sublist (i + 1) conn.rx).length_le conn.rx_le })
  | none => (if closed then .Closed else .Idle, conn)

-- The buffer when recv() is called: dropped if it is full.
def makeRoom (conn : Conn) : Conn :=
  if conn.rx.length = kRxBufSize then { conn with rx := [], rx_le := emptyBuffer_le } else conn

def pollInput (conn : Conn) : InputPoll × Conn :=
  let conn := conn.makeRoom
  match conn.socket with
  | [] => conn.scan false
  | .interrupted :: socket => scan { conn with socket } false
  | .wouldBlock :: socket => scan { conn with socket } false
  | .closed :: _ => conn.scan true
  | .data chunk :: socket =>
      let room := kRxBufSize - conn.rx.length
      scan
        { conn with
          rx := conn.rx ++ chunk.bytes.take room
          rx_le := by
            have hle := conn.rx_le
            have htake := List.length_take_le room chunk.bytes
            rw [List.length_append]
            omega
          socket := unread chunk room socket } false

-- The number of bytes not yet read, in the buffer and in the socket.
def size (conn : Conn) : Nat := (conn.rx ++ conn.socket.flatMap Recv.bytes).length

@[simp] theorem size_send (conn : Conn) (message : Message) :
    (conn.send message).size = conn.size := rfl

theorem bytes_fill {socket socket' : List Recv} {chunk : Chunk}
    (h : fill socket = some (some chunk, socket')) :
    socket.flatMap Recv.bytes = chunk.bytes ++ socket'.flatMap Recv.bytes := by
  induction socket with
  | nil => simp [fill] at h
  | cons event socket ih =>
    cases event with
    | data c =>
      simp only [fill, Option.some.injEq, Prod.mk.injEq] at h
      obtain ⟨rfl, rfl⟩ := h
      rw [List.flatMap_cons, Recv.bytes]
    | interrupted => exact ih h
    | wouldBlock => exact ih h
    | closed => simp [fill] at h

theorem size_readByte {conn next : Conn} {c : Byte} (h : conn.readByte = some (some c, next)) :
    next.size < conn.size := by
  unfold readByte at h
  split at h
  · rename_i c' rx hrx
    simp only [Option.some.injEq, Prod.mk.injEq] at h
    obtain ⟨-, rfl⟩ := h
    simp [size, hrx]
  · rename_i hrx
    cases hf : fill conn.socket with
    | none => simp [hf] at h
    | some filled =>
      obtain ⟨event, socket⟩ := filled
      cases event with
      | none => simp [hf] at h
      | some chunk =>
        simp only [hf, Option.some.injEq, Prod.mk.injEq] at h
        obtain ⟨-, rfl⟩ := h
        simp [size, hrx, bytes_fill hf, Chunk.bytes]

inductive Skipped
  | start
  | interrupt
  | closed
deriving DecidableEq

-- Skip acks and noise until '$'.
def skipNoise (conn : Conn) : Option (Skipped × Conn) :=
  match _h : conn.readByte with
  | none => none
  | some (none, next) => some (.closed, next)
  | some (some c, next) =>
      if c = 0x03#8 then some (.interrupt, next)
      else if c ≠ byte '$' then next.skipNoise
      else some (.start, next)
termination_by conn.size
decreasing_by exact size_readByte _h

-- Read until '#', storing at most kMaxPacketSize bytes. `none` is a lost connection.
def readBody (conn : Conn) (out : List Byte) (tooLong : Bool) :
    Option (Option (List Byte × Bool) × Conn) :=
  match _h : conn.readByte with
  | none => none
  | some (none, next) => some (none, next)
  | some (some c, next) =>
      if c = byte '#' then some (some (out, tooLong), next)
      else if out.length < kMaxPacketSize then next.readBody (out ++ [c]) tooLong
      else next.readBody out true
termination_by conn.size
decreasing_by all_goals exact size_readByte _h

inductive Received
  | interrupt
  | closed
  | frame (out : List Byte) (tooLong : Bool) (hi lo : Byte)
deriving DecidableEq

-- One turn of the loop in recv_packet, up to the second checksum character.
def readFrame (conn : Conn) : Option (Received × Conn) :=
  match conn.skipNoise with
  | none => none
  | some (.closed, conn) => some (.closed, conn)
  | some (.interrupt, conn) => some (.interrupt, conn)
  | some (.start, conn) =>
      match conn.readBody [] false with
      | none => none
      | some (none, conn) => some (.closed, conn)
      | some (some (out, tooLong), conn) =>
          match conn.readByte with
          | none => none
          | some (none, conn) => some (.closed, conn)
          | some (some hi, conn) =>
              match conn.readByte with
              | none => none
              | some (none, conn) => some (.closed, conn)
              | some (some lo, conn) => some (.frame out tooLong hi lo, conn)

theorem skipNoise_eq (conn : Conn) :
    conn.skipNoise =
      match conn.readByte with
      | none => none
      | some (none, next) => some (.closed, next)
      | some (some c, next) =>
          if c = 0x03#8 then some (.interrupt, next)
          else if c ≠ byte '$' then next.skipNoise
          else some (.start, next) := by
  rw [skipNoise]
  split <;> rename_i hread <;> rw [hread]

theorem readBody_eq (conn : Conn) (out : List Byte) (tooLong : Bool) :
    conn.readBody out tooLong =
      match conn.readByte with
      | none => none
      | some (none, next) => some (none, next)
      | some (some c, next) =>
          if c = byte '#' then some (some (out, tooLong), next)
          else if out.length < kMaxPacketSize then next.readBody (out ++ [c]) tooLong
          else next.readBody out true := by
  rw [readBody]
  split <;> rename_i hread <;> rw [hread]

theorem size_skipNoise {conn next : Conn} (h : conn.skipNoise = some (.start, next)) :
    next.size < conn.size := by
  induction hn : conn.size using Nat.strong_induction_on generalizing conn with
  | _ n ih =>
    rw [skipNoise_eq] at h
    cases hread : conn.readByte with
    | none => simp [hread] at h
    | some read =>
      obtain ⟨event, after⟩ := read
      cases event with
      | none => simp [hread] at h
      | some c =>
        have hlt := size_readByte hread
        simp only [hread] at h
        split_ifs at h
        · simp at h
        · have hle := ih after.size (by omega) h rfl
          omega
        · simp only [Option.some.injEq, Prod.mk.injEq, true_and] at h
          rw [← h]
          omega

theorem size_readBody {conn next : Conn} {out out' : List Byte} {tooLong tooLong' : Bool}
    (h : conn.readBody out tooLong = some (some (out', tooLong'), next)) :
    next.size < conn.size := by
  induction hn : conn.size using Nat.strong_induction_on generalizing conn out tooLong with
  | _ n ih =>
    rw [readBody_eq] at h
    cases hread : conn.readByte with
    | none => simp [hread] at h
    | some read =>
      obtain ⟨event, after⟩ := read
      cases event with
      | none => simp [hread] at h
      | some c =>
        have hlt := size_readByte hread
        simp only [hread] at h
        split_ifs at h
        · simp only [Option.some.injEq, Prod.mk.injEq] at h
          rw [← h.2]
          omega
        all_goals
          have hle := ih after.size (by omega) h rfl
          omega

-- What one turn reads: the end of the stream, a Ctrl-C, or a frame up to its checksum.
theorem readFrame_cases {conn next : Conn} {received : Received}
    (h : conn.readFrame = some (received, next)) :
    received = .closed ∨
    (received = .interrupt ∧ conn.skipNoise = some (.interrupt, next)) ∨
    ∃ out tooLong hi lo conn1 conn2 conn3, received = .frame out tooLong hi lo ∧
      conn.skipNoise = some (.start, conn1) ∧
      conn1.readBody [] false = some (some (out, tooLong), conn2) ∧
      conn2.readByte = some (some hi, conn3) ∧ conn3.readByte = some (some lo, next) := by
  rw [readFrame] at h
  rcases hskip : conn.skipNoise with - | ⟨- | - | -, conn1⟩ <;> simp only [hskip] at h
  · cases h
  rotate_left
  · obtain ⟨rfl, rfl⟩ := Prod.mk.inj (Option.some.inj h)
    exact .inr (.inl ⟨rfl, rfl⟩)
  · exact .inl (Prod.mk.inj (Option.some.inj h)).1.symm
  rcases hbody : conn1.readBody [] false with - | ⟨- | ⟨out, tooLong⟩, conn2⟩ <;>
    simp only [hbody] at h
  · cases h
  · exact .inl (Prod.mk.inj (Option.some.inj h)).1.symm
  rcases hhi : conn2.readByte with - | ⟨- | hi, conn3⟩ <;> simp only [hhi] at h
  · cases h
  · exact .inl (Prod.mk.inj (Option.some.inj h)).1.symm
  rcases hlo : conn3.readByte with - | ⟨- | lo, conn4⟩ <;> simp only [hlo] at h
  · cases h
  · exact .inl (Prod.mk.inj (Option.some.inj h)).1.symm
  · obtain ⟨rfl, rfl⟩ := Prod.mk.inj (Option.some.inj h)
    exact .inr (.inr ⟨out, tooLong, hi, lo, conn1, conn2, conn3, rfl, rfl, hbody, hhi, hlo⟩)

theorem size_readFrame {conn next : Conn} {out : List Byte} {tooLong : Bool} {hi lo : Byte}
    (h : conn.readFrame = some (.frame out tooLong hi lo, next)) : next.size < conn.size := by
  rcases readFrame_cases h with hreceived | ⟨hreceived, -⟩ |
    ⟨_, _, _, _, conn1, conn2, conn3, hreceived, hskip, hbody, hhi, hlo⟩
  · cases hreceived
  · cases hreceived
  · have h1 := size_skipNoise hskip
    have h2 := size_readBody hbody
    have h3 := size_readByte hhi
    have h4 := size_readByte hlo
    omega

-- The payload of a frame that is accepted.
def accept (out : List Byte) (tooLong : Bool) (hi lo : Byte) : Option (List Byte) :=
  if !tooLong && checksumMatches out hi lo then unescape out else none

def recvPacket (conn : Conn) : Option (RecvStatus × Conn) :=
  match _h : conn.readFrame with
  | none => none
  | some (.closed, next) => some (.Closed, next)
  | some (.interrupt, next) => some (.Interrupt, next)
  | some (.frame out tooLong hi lo, next) =>
      match accept out tooLong hi lo with
      | some decoded => some (.Packet decoded, next.send .ack)
      | none => recvPacket (next.send .nak)
termination_by conn.size
decreasing_by
  rw [size_send]
  exact size_readFrame _h

theorem recvPacket_eq (conn : Conn) :
    conn.recvPacket =
      match conn.readFrame with
      | none => none
      | some (.closed, next) => some (.Closed, next)
      | some (.interrupt, next) => some (.Interrupt, next)
      | some (.frame out tooLong hi lo, next) =>
          match accept out tooLong hi lo with
          | some decoded => some (.Packet decoded, next.send .ack)
          | none => recvPacket (next.send .nak) := by
  rw [recvPacket]
  split <;> rename_i hread <;> rw [hread]

end Conn

end ClearCore.Mips.Gdb
