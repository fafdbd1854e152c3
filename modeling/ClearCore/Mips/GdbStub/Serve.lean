import ClearCore.Mips.Gdb.Packet.Polling
import ClearCore.Mips.GdbStub
import ClearCore.Mips.SingleCycle
import Mathlib.Logic.Relation

-- serve() in small steps: one for each packet or Ctrl-C received, and one for each turn of
-- the loop of a running c, so that bytes may arrive between any two turns.

namespace ClearCore.Mips

open Isa Gdb

namespace GdbStub

variable {P : Type}

-- `turns` is the number of turns a running c has made, and `dispatched` the packets handed
-- to dispatch so far.
structure Serving (P : Type) where
  stub : GdbStub P
  turns : Option ℕ := none
  dispatched : List (List Byte) := []

-- The start of serve() on a connection that has just been accepted.
def serve (stub : GdbStub P) (socket : List Recv) : Serving P where
  stub := { stub with conn := { socket }, lastResult := .Ok, detached := false }

variable [IMipsProcessor P]

-- One turn of the loop of handle_continue, and whether it returns.
def continueTurn (steps : ℕ) (stub : GdbStub P) : Bool × GdbStub P :=
  let (ended, stub) := stub.pollTurn (steps + 1)
  if ended then (true, stub)
  else
    let stub := stub.stepCpu
    match stub.lastResult with
    | .Halt => (true, sendSignal { stub with running := false } kSIGTRAP)
    | .Exception => (true, reportException { stub with running := false })
    | .Fault => (true, sendSignal { stub with running := false } kSIGTRAP)
    | .Ok => (false, stub)

theorem continueLoop_succ (fuel steps : ℕ) (stub : GdbStub P) :
    continueLoop (fuel + 1) steps stub =
      if (stub.continueTurn steps).1 then some (stub.continueTurn steps).2
      else continueLoop fuel (steps + 1) (stub.continueTurn steps).2 := by
  rw [continueLoop, continueTurn]
  obtain ⟨⟨ended, polled⟩, hpoll⟩ : ∃ p, stub.pollTurn (steps + 1) = p := ⟨_, rfl⟩
  simp only [hpoll]
  cases ended with
  | true => rfl
  | false => cases hres : polled.stepCpu.lastResult <;> simp

namespace Serving

-- A packet is dispatched; a c only starts.
def receive (s : Serving P) (pkt : List Byte) : Option (Serving P) :=
  let dispatched := s.dispatched ++ [pkt]
  if pkt.head? = some (byte 'c') then
    some
      { stub := { s.stub.resumeAt pkt.tail with running := true }, turns := some 0, dispatched }
  else (s.stub.dispatch 0 pkt).map fun stub => { s with stub, dispatched }

-- `none` is a recv_packet that waits, or the end of serve().
def step (s : Serving P) : Option (Serving P) :=
  match s.turns with
  | some steps =>
      match s.stub.continueTurn steps with
      | (true, stub) => some { s with stub, turns := none }
      | (false, stub) => some { s with stub, turns := some (steps + 1) }
  | none =>
      if s.stub.detached then none
      else
        match s.stub.conn.recvPacket with
        | none => none
        | some (.Closed, _) => none
        | some (.Interrupt, conn) => some { s with stub := sendSignal { s.stub with conn } kSIGINT }
        | some (.Packet pkt, conn) => receive { s with stub := { s.stub with conn } } pkt

def Next (s t : Serving P) : Prop := s.step = some t

-- The turns of a c that comes to an end are steps of the session.
theorem next_of_continueLoop {fuel steps : ℕ} {stub next : GdbStub P} (s : Serving P)
    (h : continueLoop fuel steps stub = some next) :
    Relation.ReflTransGen Next { s with stub, turns := some steps }
      { s with stub := next, turns := none } := by
  induction fuel generalizing steps stub with
  | zero => simp [continueLoop] at h
  | succ fuel ih =>
    rw [continueLoop_succ] at h
    obtain ⟨⟨ended, turned⟩, hturn⟩ : ∃ p, stub.continueTurn steps = p := ⟨_, rfl⟩
    rw [hturn] at h
    cases ended with
    | true =>
      rw [if_pos rfl, Option.some.injEq] at h
      obtain rfl : turned = next := h
      refine .single ?_
      rw [Next, step]
      simp only [hturn]
    | false =>
      rw [if_neg Bool.false_ne_true] at h
      refine .head ?_ (ih h)
      rw [Next, step]
      simp only [hturn]

-- What dispatch does with a packet, once it is done, is what the session does.
theorem receive_of_dispatch {fuel : ℕ} {s : Serving P} {next : GdbStub P} {pkt : List Byte}
    (hidle : s.turns = none) (h : s.stub.dispatch fuel pkt = some next) :
    ∃ t, s.receive pkt = some t ∧
      Relation.ReflTransGen Next t
        { stub := next, turns := none, dispatched := s.dispatched ++ [pkt] } := by
  rw [receive]
  split
  · rename_i hc
    obtain ⟨args, rfl⟩ : ∃ args, pkt = byte 'c' :: args := List.head?_eq_some_iff.mp hc
    exact ⟨_, rfl, next_of_continueLoop { s with dispatched := s.dispatched ++ [byte 'c' :: args] } h⟩
  · rename_i hc
    have h0 : s.stub.dispatch 0 pkt = some next := by
      cases pkt with
      | nil => exact h
      | cons cmd args =>
        have hne : cmd ≠ byte 'c' := by simpa using hc
        simp only [dispatch, if_neg hne] at h ⊢
        exact h
    exact ⟨_, by rw [h0, Option.map_some], by rw [hidle]⟩

end Serving

end GdbStub

end ClearCore.Mips
