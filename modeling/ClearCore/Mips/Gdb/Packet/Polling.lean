import ClearCore.Mips.Gdb.Packet.Framing

-- What poll_input does to the stream while the target runs.

namespace ClearCore.Mips.Gdb.Conn

open Isa

-- What recv() has to give when poll_input calls it.
def incoming (conn : Conn) : List Byte :=
  match conn.socket with
  | [] => []
  | event :: _ => event.bytes

-- What has arrived when poll_input is called.
def arrived (conn : Conn) : List Byte := conn.rx ++ conn.incoming

-- A full buffer is dropped, and any other kept.
def dropped (conn : Conn) : List Byte := if conn.rx.length = kRxBufSize then conn.rx else []

def kept (conn : Conn) : List Byte := if conn.rx.length = kRxBufSize then [] else conn.rx

-- As much of what has arrived as the buffer has room for.
def taken (conn : Conn) : List Byte := conn.incoming.take (kRxBufSize - conn.kept.length)

-- What a poll looks through.
def polled (conn : Conn) : List Byte := conn.kept ++ conn.taken

-- What a poll does: it takes what has arrived, and ends at the first Ctrl-C it finds.
structure Polls (conn : Conn) (result : InputPoll × Conn) : Prop where
  taken : deliverable conn.socket = conn.taken ++ deliverable result.2.socket
  sent : result.2.sent = conn.sent
  interrupted : 0x03#8 ∈ conn.polled → result.1 = .Interrupt ∧
    ∃ before, 0x03#8 ∉ before ∧ conn.polled = before ++ 0x03#8 :: result.2.rx
  silent : 0x03#8 ∉ conn.polled → result.1 ≠ .Interrupt ∧ result.2.rx = conn.polled

theorem rx_eq (conn : Conn) : conn.rx = conn.dropped ++ conn.kept := by
  rw [dropped, kept]
  split
  · rw [List.append_nil]
  · rw [List.nil_append]

theorem rx_makeRoom (conn : Conn) : conn.makeRoom.rx = conn.kept := by
  rw [makeRoom, kept]
  split <;> rfl

theorem socket_makeRoom (conn : Conn) : conn.makeRoom.socket = conn.socket := by
  unfold makeRoom
  split <;> rfl

theorem sent_makeRoom (conn : Conn) : conn.makeRoom.sent = conn.sent := by
  unfold makeRoom
  split <;> rfl

theorem deliverable_unread (chunk : Chunk) (room : ℕ) (socket : List Recv) :
    deliverable (unread chunk room socket) = chunk.bytes.drop room ++ deliverable socket := by
  unfold unread
  split
  · rename_i hrest
    rw [hrest, List.nil_append]
  · rename_i first rest hrest
    exact congrArg (· ++ deliverable socket) hrest.symm

-- The scan of a buffer that holds what a poll looks through.
theorem polls_scan {conn next : Conn} (closed : Bool) (hrx : next.rx = conn.polled)
    (hsent : next.sent = conn.sent)
    (htaken : deliverable conn.socket = conn.taken ++ deliverable next.socket) :
    conn.Polls (next.scan closed) := by
  unfold scan
  split
  · rename_i i hi
    obtain ⟨hlt, hctrl, hbefore⟩ := List.findIdx?_eq_some_iff_getElem.mp hi
    have hget : next.rx[i] = 0x03#8 := by simpa using hctrl
    have hsplit : conn.polled = next.rx.take i ++ 0x03#8 :: next.rx.drop (i + 1) := by
      rw [← hget, ← List.drop_eq_getElem_cons hlt, List.take_append_drop, hrx]
    have hfirst : 0x03#8 ∉ next.rx.take i := by
      intro hmem
      obtain ⟨j, hj, hget⟩ := List.mem_iff_getElem.mp hmem
      rw [List.length_take] at hj
      have hfalse := hbefore j (by omega)
      rw [List.getElem_take] at hget
      simp [hget] at hfalse
    refine ⟨htaken, hsent, fun _ => ⟨rfl, _, hfirst, hsplit⟩, ?_⟩
    intro hnone
    rw [hsplit] at hnone
    exact absurd (List.mem_append_right _ List.mem_cons_self) hnone
  · rename_i hnone
    rw [List.findIdx?_eq_none_iff] at hnone
    have hnone : 0x03#8 ∉ conn.polled := by
      intro hmem
      rw [← hrx] at hmem
      simpa using hnone _ hmem
    refine ⟨htaken, hsent, fun hmem => absurd hmem hnone, fun _ => ⟨?_, hrx⟩⟩
    cases closed <;> simp

theorem pollInput_polls (conn : Conn) : conn.Polls conn.pollInput := by
  have hidle : ∀ {socket}, conn.incoming = [] → deliverable conn.socket = deliverable socket →
      ∀ closed, conn.Polls (scan { conn.makeRoom with socket } closed) := by
    intro socket hincoming hsocket closed
    have htaken : conn.taken = [] := by rw [taken, hincoming, List.take_nil]
    refine polls_scan closed ?_ conn.sent_makeRoom ?_
    · rw [polled, htaken, List.append_nil]
      exact conn.rx_makeRoom
    · rw [htaken, hsocket, List.nil_append]
  have hsame : { conn.makeRoom with socket := conn.makeRoom.socket } = conn.makeRoom := rfl
  unfold pollInput
  dsimp only
  split
  all_goals rename_i hs; rw [socket_makeRoom] at hs
  · rw [← hsame, socket_makeRoom]
    exact hidle (by rw [incoming, hs]) rfl false
  · exact hidle (by rw [incoming, hs]; rfl) (by rw [hs]; rfl) false
  · exact hidle (by rw [incoming, hs]; rfl) (by rw [hs]; rfl) false
  · rw [← hsame, socket_makeRoom]
    exact hidle (by rw [incoming, hs]; rfl) rfl true
  · rename_i chunk socket
    have htaken : conn.taken = chunk.bytes.take (kRxBufSize - conn.kept.length) := by
      rw [taken, incoming, hs]
      rfl
    refine polls_scan false ?_ conn.sent_makeRoom ?_
    · rw [polled, htaken, ← rx_makeRoom]
    · simp only [htaken, hs, deliverable, deliverable_unread, rx_makeRoom]
      rw [← List.append_assoc, List.take_append_drop]

namespace Polls

variable {conn : Conn} {result : InputPoll × Conn}

-- Where the bytes of the stream are after a poll.
theorem stream_interrupted (h : conn.Polls result) (hctrl : 0x03#8 ∈ conn.polled) :
    ∃ before, 0x03#8 ∉ before ∧ conn.polled = before ++ 0x03#8 :: result.2.rx ∧
      conn.stream = conn.dropped ++ (before ++ [0x03#8]) ++ result.2.stream := by
  obtain ⟨-, before, hbefore, hsplit⟩ := h.interrupted hctrl
  refine ⟨before, hbefore, hsplit, ?_⟩
  have hpolled : conn.kept ++ conn.taken = before ++ 0x03#8 :: result.2.rx := hsplit
  calc conn.stream
      = conn.dropped ++ (conn.kept ++ conn.taken) ++ deliverable result.2.socket := by
        rw [stream, conn.rx_eq, h.taken]
        simp only [List.append_assoc]
    _ = conn.dropped ++ (before ++ [0x03#8]) ++ result.2.stream := by
        rw [hpolled, stream]
        simp

theorem stream_silent (h : conn.Polls result) (hctrl : 0x03#8 ∉ conn.polled) :
    conn.stream = conn.dropped ++ result.2.stream := by
  rw [stream, stream, (h.silent hctrl).2, polled, conn.rx_eq, h.taken]
  simp only [List.append_assoc]

end Polls

-- What GDB sends while the target runs: Ctrl-C and acknowledgements.
def AllStop (bytes : List Byte) : Prop :=
  ∀ c ∈ bytes, c = 0x03#8 ∨ c = byte '+' ∨ c = byte '-'

-- A full buffer has been scanned, and holds neither a Ctrl-C nor the start of a packet.
def Scanned (conn : Conn) : Prop := conn.rx.length = kRxBufSize → Quiet conn.rx

theorem AllStop.quiet {bytes : List Byte} (h : AllStop bytes) (hctrl : 0x03#8 ∉ bytes) :
    Quiet bytes := by
  intro c hc
  rcases h c hc with rfl | rfl | rfl
  · exact absurd hc hctrl
  · decide
  · decide

theorem AllStop.polled {conn : Conn} (h : AllStop conn.arrived) : AllStop conn.polled := by
  intro c hc
  rcases List.mem_append.mp hc with hkept | htaken
  · refine h c (List.mem_append_left _ ?_)
    rw [conn.rx_eq]
    exact List.mem_append_right _ hkept
  · exact h c (List.mem_append_right _ (List.mem_of_mem_take htaken))

theorem length_polled (conn : Conn) : conn.polled.length ≤ kRxBufSize := by
  have hle : conn.kept.length ≤ kRxBufSize := by
    have hrx := conn.rx_le
    rw [conn.rx_eq, List.length_append] at hrx
    omega
  rw [polled, taken, List.length_append, List.length_take]
  omega

theorem Scanned.dropped {conn : Conn} (h : conn.Scanned) : Quiet conn.dropped := by
  rw [Conn.dropped]
  split
  · rename_i hfull
    exact h hfull
  · exact fun c hc => absurd hc List.not_mem_nil

-- The two ways a poll ends, and what it has done to the stream.
inductive PollSpec (conn : Conn) (result : InputPoll × Conn) : Prop
  | interrupt (h : result.1 = .Interrupt) (hreads : Reads conn result.2 1 [])
      (hroom : result.2.rx.length < kRxBufSize)
  | nothing (h : result.1 ≠ .Interrupt) (hreads : Reads conn result.2 0 [])
      (hquiet : Quiet result.2.rx)

-- The bytes of a full buffer have been scanned, so dropping them loses no Ctrl-C.
theorem pollInput_spec {conn : Conn} (h : AllStop conn.arrived) (hscanned : conn.Scanned) :
    conn.PollSpec conn.pollInput := by
  have hpolls := conn.pollInput_polls
  have hsent : sigints conn.pollInput.2.sent = sigints conn.sent := by rw [hpolls.sent]
  by_cases hctrl : 0x03#8 ∈ conn.polled
  · obtain ⟨before, hbefore, hsplit, hstream⟩ := hpolls.stream_interrupted hctrl
    have hquiet : Quiet before := by
      refine AllStop.quiet (fun c hc => h.polled c ?_) hbefore
      rw [hsplit]
      exact List.mem_append_left _ hc
    have hbrings := hscanned.dropped.brings.append hquiet.brings_interrupt
    rw [Nat.zero_add, List.nil_append] at hbrings
    refine .interrupt (hpolls.interrupted hctrl).1 ⟨⟨_, hstream, hbrings⟩, hsent⟩ ?_
    have hle := conn.length_polled
    rw [hsplit] at hle
    simp only [List.length_append, List.length_cons] at hle
    omega
  · obtain ⟨hresult, hrx⟩ := hpolls.silent hctrl
    refine .nothing hresult ⟨⟨_, hpolls.stream_silent hctrl, hscanned.dropped.brings⟩, hsent⟩ ?_
    rw [hrx]
    exact h.polled.quiet hctrl

end ClearCore.Mips.Gdb.Conn
