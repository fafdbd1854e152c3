import ClearCore.Mips.Gdb.Packet.Polling
import ClearCore.Mips.GdbStub
import Mathlib.Data.Nat.Find
import Mathlib.Logic.Function.Iterate

-- When c returns: with nothing on the connection it ends with the first step of the CPU
-- that is not Ok.

namespace ClearCore.Mips

open Isa Gdb

namespace Gdb.Conn

-- No Ctrl-C and no end of the connection is on its way.
structure Quiet (conn : Conn) : Prop where
  rx : 0x03#8 ∉ conn.rx
  socket : ∀ event ∈ conn.socket, event ≠ .closed ∧ 0x03#8 ∉ event.bytes

theorem Quiet.scan {conn : Conn} (h : conn.Quiet) : conn.scan false = (.Idle, conn) := by
  have hnone : conn.rx.findIdx? (· = 0x03#8) = none := by
    rw [List.findIdx?_eq_none_iff]
    intro c hc
    simpa using fun he : c = 0x03#8 => h.rx (he ▸ hc)
  unfold Conn.scan
  split
  · rename_i i hi
    rw [hnone] at hi
    cases hi
  · rfl

theorem Quiet.makeRoom {conn : Conn} (h : conn.Quiet) : conn.makeRoom.Quiet := by
  unfold Conn.makeRoom
  split
  · exact ⟨by simp, h.socket⟩
  · exact h

theorem Quiet.send {conn : Conn} (h : conn.Quiet) (message : Message) :
    (conn.send message).Quiet := ⟨h.rx, h.socket⟩

theorem mem_unread {chunk : Chunk} {room : ℕ} {socket : List Recv} {event : Recv}
    (h : event ∈ unread chunk room socket) :
    event ∈ socket ∨ event ≠ .closed ∧ ∀ c ∈ event.bytes, c ∈ chunk.bytes := by
  unfold unread at h
  split at h
  · exact .inl h
  · rename_i first rest hrest
    rcases List.mem_cons.mp h with rfl | h
    · right
      refine ⟨by simp, fun c hc => ?_⟩
      have hdrop : c ∈ chunk.bytes.drop room := by
        rw [hrest]
        exact hc
      exact List.mem_of_mem_drop hdrop
    · exact .inl h

-- Polling a quiet connection finds nothing and keeps it quiet.
theorem Quiet.pollInput {conn : Conn} (h : conn.Quiet) :
    ∃ next, conn.pollInput = (.Idle, next) ∧ next.Quiet ∧ next.sent = conn.sent := by
  have hroom := h.makeRoom
  have hsent := conn.sent_makeRoom
  have htail : ∀ {event socket}, conn.makeRoom.socket = event :: socket →
      ∀ e ∈ socket, e ≠ .closed ∧ 0x03#8 ∉ e.bytes := by
    intro event socket hs e he
    exact hroom.socket e (by rw [hs]; exact List.mem_cons_of_mem _ he)
  unfold Conn.pollInput
  dsimp only
  split
  · exact ⟨_, hroom.scan, hroom, hsent⟩
  · rename_i socket hs
    have hq : Quiet { conn.makeRoom with socket } := ⟨hroom.rx, htail hs⟩
    exact ⟨_, hq.scan, hq, hsent⟩
  · rename_i socket hs
    have hq : Quiet { conn.makeRoom with socket } := ⟨hroom.rx, htail hs⟩
    exact ⟨_, hq.scan, hq, hsent⟩
  · rename_i socket hs
    exact absurd rfl (hroom.socket .closed (by rw [hs]; exact List.mem_cons_self)).1
  · rename_i chunk socket hs
    have hchunk : 0x03#8 ∉ chunk.bytes :=
      (hroom.socket (.data chunk) (by rw [hs]; exact List.mem_cons_self)).2
    have hrx : ∀ room, 0x03#8 ∉ conn.makeRoom.rx ++ chunk.bytes.take room := by
      intro room hc
      rcases List.mem_append.mp hc with hc | hc
      · exact hroom.rx hc
      · exact hchunk (List.mem_of_mem_take hc)
    have hsocket : ∀ room, ∀ event ∈ unread chunk room socket,
        event ≠ .closed ∧ 0x03#8 ∉ event.bytes := by
      intro room event he
      rcases mem_unread he with he | ⟨hne, hbytes⟩
      · exact htail hs event he
      · exact ⟨hne, fun hc => hchunk (hbytes _ hc)⟩
    exact ⟨_, Quiet.scan ⟨hrx _, hsocket _⟩, ⟨hrx _, hsocket _⟩, hsent⟩

end Gdb.Conn

namespace GdbStub

section Continue

variable {P : Type}

theorem pollTurn_quiet {stub : GdbStub P} (h : stub.conn.Quiet) (steps : ℕ) :
    ∃ conn, stub.pollTurn steps = (false, { stub with conn }) ∧ conn.Quiet ∧
      conn.sent = stub.conn.sent := by
  unfold pollTurn
  split
  · obtain ⟨next, hp, hq, hs⟩ := h.pollInput
    exact ⟨next, by rw [hp], hq, hs⟩
  · exact ⟨stub.conn, rfl, h, rfl⟩

variable [IMipsProcessor P]

def stepped (cpu : P) (k : ℕ) : P := (fun c => (IMipsProcessor.step c).2)^[k] cpu

-- Step `k` is the first that is not Ok.
structure Stops (cpu : P) (k : ℕ) (result : StepResult) : Prop where
  before : ∀ i < k, (IMipsProcessor.step (stepped cpu i)).1 = .Ok
  last : (IMipsProcessor.step (stepped cpu k)).1 = result
  ne_ok : result ≠ .Ok

theorem stepped_succ (cpu : P) (k : ℕ) :
    stepped cpu (k + 1) = (IMipsProcessor.step (stepped cpu k)).2 :=
  Function.iterate_succ_apply' _ _ _

theorem stepped_eq {α : Type} {f : P → α} (hf : ∀ cpu, f (IMipsProcessor.step cpu).2 = f cpu)
    (cpu : P) (k : ℕ) : f (stepped cpu k) = f cpu := by
  induction k with
  | zero => rfl
  | succ k ih => rw [stepped_succ, hf, ih]

theorem Stops.unique {cpu : P} {k k' : ℕ} {result result' : StepResult}
    (h : Stops cpu k result) (h' : Stops cpu k' result') : k = k' ∧ result = result' := by
  have hle : ∀ {i j r r'}, Stops cpu i r → Stops cpu j r' → i ≤ j := by
    intro i j r r' hi hj
    by_contra hlt
    exact hj.ne_ok (hj.last.symm.trans (hi.before j (by omega)))
  obtain rfl : k = k' := Nat.le_antisymm (hle h h') (hle h' h)
  exact ⟨rfl, h.last.symm.trans h'.last⟩

theorem Stops.of_step {cpu : P} {k : ℕ} {result : StepResult}
    (hok : (IMipsProcessor.step cpu).1 = .Ok)
    (h : Stops (IMipsProcessor.step cpu).2 k result) : Stops cpu (k + 1) result := by
  refine ⟨?_, h.last, h.ne_ok⟩
  intro i hi
  cases i with
  | zero => exact hok
  | succ i => exact h.before i (by omega)

-- Either some step is the first that is not Ok, or all are Ok.
theorem stops_or_ok (cpu : P) :
    (∃ k result, Stops cpu k result) ∨ ∀ k, (IMipsProcessor.step (stepped cpu k)).1 = .Ok := by
  by_cases h : ∃ k, (IMipsProcessor.step (stepped cpu k)).1 ≠ .Ok
  · left
    classical
    have hbefore : ∀ i < Nat.find h, (IMipsProcessor.step (stepped cpu i)).1 = .Ok := by
      intro i hi
      simpa using Nat.find_min h hi
    exact ⟨Nat.find h, _, hbefore, rfl, Nat.find_spec h⟩
  · right
    simpa using h

-- A turn of the loop in which the CPU does not stop.
theorem continueLoop_ok {stub : GdbStub P} (h : stub.conn.Quiet)
    (hok : (IMipsProcessor.step stub.cpu).1 = .Ok) (fuel steps : ℕ) :
    ∃ conn, conn.Quiet ∧ conn.sent = stub.conn.sent ∧
      continueLoop (fuel + 1) steps stub =
        continueLoop fuel (steps + 1) (stepCpu { stub with conn }) := by
  obtain ⟨conn, hpoll, hq, hsent⟩ := pollTurn_quiet h (steps + 1)
  refine ⟨conn, hq, hsent, ?_⟩
  have hres : (stepCpu { stub with conn }).lastResult = .Ok := hok
  rw [continueLoop]
  simp only [hpoll, Bool.false_eq_true, if_false, hres]

theorem continueLoop_stops {fuel steps : ℕ} {stub next : GdbStub P} (h : stub.conn.Quiet)
    (hrun : continueLoop fuel steps stub = some next) :
    ∃ k < fuel, ∃ result, Stops stub.cpu k result := by
  induction fuel generalizing steps stub with
  | zero => simp [continueLoop] at hrun
  | succ fuel ih =>
    by_cases hok : (IMipsProcessor.step stub.cpu).1 = .Ok
    · obtain ⟨conn, hq, -, hturn⟩ := continueLoop_ok h hok fuel steps
      rw [hturn] at hrun
      have hq' : (stepCpu { stub with conn }).conn.Quiet := hq
      obtain ⟨k, hk, result, hstops⟩ := ih hq' hrun
      exact ⟨k + 1, by omega, result, hstops.of_step hok⟩
    · exact ⟨0, by omega, _, ⟨by omega, rfl, hok⟩⟩

-- The stub after a c that ends with an exception of step `k`.
theorem continueLoop_exception {fuel k : ℕ} {stub : GdbStub P} (h : stub.conn.Quiet)
    (hk : k < fuel) (hstops : Stops stub.cpu k .Exception) (steps : ℕ) :
    ∃ conn, conn.Quiet ∧ conn.sent = stub.conn.sent ∧
      continueLoop fuel steps stub = some (reportException
        { stub with
          cpu := stepped stub.cpu (k + 1), conn, running := false, lastResult := .Exception }) := by
  induction fuel generalizing steps stub k with
  | zero => omega
  | succ fuel ih =>
    cases k with
    | zero =>
      obtain ⟨conn, hpoll, hq, hsent⟩ := pollTurn_quiet h (steps + 1)
      refine ⟨conn, hq, hsent, ?_⟩
      have hx : (IMipsProcessor.step stub.cpu).1 = .Exception := hstops.last
      rw [continueLoop]
      simp only [hpoll, Bool.false_eq_true, if_false, stepCpu, hx]
      rfl
    | succ k =>
      have hok : (IMipsProcessor.step stub.cpu).1 = .Ok := hstops.before 0 (by omega)
      obtain ⟨conn, hq, hsent, hturn⟩ := continueLoop_ok h hok fuel steps
      have hrest : Stops (stepCpu { stub with conn }).cpu k .Exception :=
        ⟨fun i hi => hstops.before (i + 1) (by omega), hstops.last, hstops.ne_ok⟩
      have hq₂ : (stepCpu { stub with conn }).conn.Quiet := hq
      obtain ⟨conn', hq', hsent', hrun⟩ := ih hq₂ (by omega) hrest (steps + 1)
      refine ⟨conn', hq', hsent'.trans hsent, ?_⟩
      rw [hturn, hrun]
      rfl

theorem continueLoop_mono {fuel fuel' steps : ℕ} {stub next : GdbStub P} (hle : fuel ≤ fuel')
    (hrun : continueLoop fuel steps stub = some next) :
    continueLoop fuel' steps stub = some next := by
  induction fuel generalizing fuel' steps stub with
  | zero => simp [continueLoop] at hrun
  | succ fuel ih =>
    obtain ⟨fuel', rfl⟩ : ∃ f, fuel' = f + 1 := ⟨fuel' - 1, by omega⟩
    rw [continueLoop] at hrun ⊢
    obtain ⟨⟨ended, polled⟩, hpoll⟩ : ∃ p, stub.pollTurn (steps + 1) = p := ⟨_, rfl⟩
    simp only [hpoll] at hrun ⊢
    cases ended with
    | true => exact hrun
    | false =>
      simp only [Bool.false_eq_true, if_false] at hrun ⊢
      cases hres : polled.stepCpu.lastResult with
      | Ok =>
        simp only [hres] at hrun ⊢
        exact ih (by omega) hrun
      | Exception | Fault | Halt =>
        simp only [hres] at hrun ⊢
        exact hrun

theorem dispatch_mono {fuel fuel' : ℕ} {stub next : GdbStub P} {pkt : List Byte}
    (hle : fuel ≤ fuel') (hrun : stub.dispatch fuel pkt = some next) :
    stub.dispatch fuel' pkt = some next := by
  cases pkt with
  | nil => exact hrun
  | cons cmd args =>
    by_cases hc : cmd = byte 'c'
    · subst hc
      have hdispatch : ∀ f, stub.dispatch f (byte 'c' :: args) = stub.handleContinue f args :=
        fun _ => rfl
      rw [hdispatch, handleContinue] at hrun ⊢
      exact continueLoop_mono hle hrun
    · simp only [dispatch, if_neg hc] at hrun ⊢
      exact hrun

theorem session_mono {fuel fuel' : ℕ} {stub next : GdbStub P} {pkts : List (List Byte)}
    (hle : fuel ≤ fuel') (hrun : stub.session fuel pkts = some next) :
    stub.session fuel' pkts = some next := by
  induction pkts generalizing stub with
  | nil => exact hrun
  | cons pkt pkts ih =>
    rw [session] at hrun ⊢
    cases hd : stub.detached with
    | true => simpa [hd] using hrun
    | false =>
      simp only [hd, Bool.false_eq_true, if_false] at hrun ⊢
      obtain ⟨mid, hmid, hrest⟩ := Option.bind_eq_some_iff.mp hrun
      rw [dispatch_mono hle hmid, Option.bind_some]
      exact ih hrest

theorem session_cons {fuel fuel' : ℕ} {stub mid next : GdbStub P} {pkt : List Byte}
    {pkts : List (List Byte)} (hd : stub.detached = false)
    (hmid : stub.dispatch fuel pkt = some mid) (hnext : mid.session fuel' pkts = some next) :
    stub.session (max fuel fuel') (pkt :: pkts) = some next := by
  rw [session, hd, dispatch_mono (le_max_left fuel fuel') hmid]
  exact session_mono (le_max_right fuel fuel') hnext

-- A session ends only if its first command and the session after it do.
theorem session_cons_none {stub : GdbStub P} {pkt : List Byte} {pkts : List (List Byte)}
    (hd : stub.detached = false)
    (hnone : ∀ fuel mid, stub.dispatch fuel pkt = some mid → ∀ fuel', mid.session fuel' pkts = none)
    (fuel : ℕ) : stub.session fuel (pkt :: pkts) = none := by
  rw [session, hd]
  cases hmid : stub.dispatch fuel pkt with
  | none => rfl
  | some mid => exact hnone fuel mid hmid fuel

theorem dispatch_unique {fuel fuel' : ℕ} {stub next next' : GdbStub P} {pkt : List Byte}
    (h : stub.dispatch fuel pkt = some next) (h' : stub.dispatch fuel' pkt = some next') :
    next = next' := by
  have hmax := dispatch_mono (le_max_left fuel fuel') h
  rw [dispatch_mono (le_max_right fuel fuel') h', Option.some.injEq] at hmax
  exact hmax.symm

theorem session_unique {fuel fuel' : ℕ} {stub next next' : GdbStub P} {pkts : List (List Byte)}
    (h : stub.session fuel pkts = some next) (h' : stub.session fuel' pkts = some next') :
    next = next' := by
  have hmax := session_mono (le_max_left fuel fuel') h
  rw [session_mono (le_max_right fuel fuel') h', Option.some.injEq] at hmax
  exact hmax.symm

end Continue

end GdbStub

end ClearCore.Mips
