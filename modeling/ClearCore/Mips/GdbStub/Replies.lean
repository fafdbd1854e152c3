import ClearCore.Mips.Gdb.Packet.Wire
import ClearCore.Mips.GdbStub

-- Every packet but c is answered at once, with one reply.

namespace ClearCore.Mips

open Isa Gdb Gdb.Conn

namespace GdbStub

-- A reply that needs no escape, and is not the one to a Ctrl-C.
def Ordinary (data : List Byte) : Prop := Plain data ∧ data ≠ text "S02"

instance (data : List Byte) : Decidable (Ordinary data) :=
  inferInstanceAs (Decidable (Plain data ∧ data ≠ text "S02"))

theorem Ordinary.of_length {data : List Byte} (hplain : Plain data) (h : data.length ≠ 3) :
    Ordinary data := by
  refine ⟨hplain, ?_⟩
  rintro rfl
  exact h rfl

theorem ordinary_toHexLe (v : Word) : Ordinary (toHexLe v) :=
  .of_length (plain_toHexLe v) (by simp [toHexLe, hexByte])

theorem plain_readMemFrom {mem : Memory} {addr : Word} {i count : ℕ} {data : List Byte}
    (h : readMemFrom mem addr i count = some data) : Plain data ∧ data.length = 2 * count := by
  induction count generalizing i data with
  | zero =>
    rw [← Option.some.inj h]
    exact ⟨plain_nil, rfl⟩
  | succ count ih =>
    rw [readMemFrom] at h
    split at h
    · cases h
    · obtain ⟨rest, hrest, rfl⟩ := Option.map_eq_some_iff.mp h
      obtain ⟨hplain, hlen⟩ := ih hrest
      refine ⟨(plain_hexByte _).append hplain, ?_⟩
      simp only [hexByte, List.length_append, List.length_cons, List.length_nil]
      omega

theorem ordinary_handleReadMem (mem : Memory) (args : List Byte) :
    Ordinary (handleReadMem mem args) := by
  rw [handleReadMem]
  split
  · decide
  · rename_i addr len _
    cases h : readMemFrom mem addr 0 (min len.toNat (mem.size % 2 ^ 32)) with
    | none => decide
    | some data =>
      obtain ⟨hplain, hlen⟩ := plain_readMemFrom h
      exact .of_length hplain (by rw [Option.getD_some]; omega)

section Replies

variable {P : Type}

def Replies (stub next : GdbStub P) : Prop :=
  ∃ data, Ordinary data ∧ next.conn = stub.conn.send (.packet data)

theorem Replies.sigints {stub next : GdbStub P} (h : Replies stub next) :
    sigints next.conn.sent = sigints stub.conn.sent := by
  obtain ⟨data, ⟨-, hne⟩, hconn⟩ := h
  rw [hconn]
  exact sigints_send _ (by simpa using hne)

theorem Replies.rx {stub next : GdbStub P} (h : Replies stub next) :
    next.conn.rx = stub.conn.rx := by
  obtain ⟨data, -, hconn⟩ := h
  rw [hconn]
  rfl

theorem Replies.socket {stub next : GdbStub P} (h : Replies stub next) :
    next.conn.socket = stub.conn.socket := by
  obtain ⟨data, -, hconn⟩ := h
  rw [hconn]
  rfl

theorem Replies.stream {stub next : GdbStub P} (h : Replies stub next) :
    next.conn.stream = stub.conn.stream := by
  rw [Conn.stream, Conn.stream, h.rx, h.socket]

-- The reply to a packet, if it has been dispatched.
def Answers (stub : GdbStub P) (reply : Option (GdbStub P)) : Prop :=
  ∀ next, reply = some next → Replies stub next

theorem Replies.answers {stub next : GdbStub P} (h : Replies stub next) :
    Answers stub (some next) := by
  intro next' hnext
  obtain rfl := Option.some.inj hnext
  exact h

theorem Answers.ite {stub : GdbStub P} {c : Prop} [Decidable c] {a b : Option (GdbStub P)}
    (ha : Answers stub a) (hb : Answers stub b) : Answers stub (if c then a else b) := by
  by_cases hc : c
  · rw [if_pos hc]
    exact ha
  · rw [if_neg hc]
    exact hb

theorem replies_okOrError (stub : GdbStub P) (ok : Bool) : Replies stub (stub.okOrError ok) := by
  cases ok with
  | true => exact ⟨text "OK", by decide, rfl⟩
  | false => exact ⟨text "E01", by decide, rfl⟩

theorem replies_handleQuery (stub : GdbStub P) (args : List Byte) :
    Replies stub (stub.handleQuery args) := by
  rw [handleQuery]
  split_ifs
  · exact ⟨_, by decide, rfl⟩
  · exact ⟨text "1", by decide, rfl⟩
  · exact ⟨text "QC0", by decide, rfl⟩
  · exact ⟨text "OK", by decide, rfl⟩
  · exact ⟨[], by decide, rfl⟩

theorem replies_trap (stub : GdbStub P) : Replies stub (stub.sendSignal kSIGTRAP) :=
  ⟨text "S05", by decide, rfl⟩

variable [IMipsProcessor P]

theorem ordinary_handleReadRegs (cpu : P) : Ordinary (handleReadRegs cpu) := by
  have hlen : (handleReadRegs cpu).length = kNumRegs * 8 := by
    simp [handleReadRegs, List.length_flatMap, toHexLe, hexByte]
  refine .of_length ?_ (by rw [hlen]; decide)
  intro c hc
  obtain ⟨i, -, hi⟩ := List.mem_flatMap.mp hc
  exact plain_toHexLe _ c hi

theorem ordinary_handleReadReg (cpu : P) (args : List Byte) :
    Ordinary (handleReadReg cpu args) := by
  rw [handleReadReg]
  split
  · decide
  · split
    · decide
    · exact ordinary_toHexLe _

theorem replies_reportException (stub : GdbStub P) : Replies stub stub.reportException := by
  have hplain : Plain (text "T" ++ hexByte stub.stopSignal ++ text "thread:01;") :=
    (Plain.append (by decide) (plain_hexByte _)).append (by decide)
  exact ⟨_, .of_length hplain (by simp [hexByte, text]), rfl⟩

theorem conn_resumeAt (stub : GdbStub P) (args : List Byte) : (stub.resumeAt args).conn = stub.conn := by
  rw [resumeAt]
  split <;> rfl

theorem replies_handleStep (stub : GdbStub P) (args : List Byte) :
    Replies stub (stub.handleStep args) := by
  have hstepped : ∀ next, Replies (stub.resumeAt args).stepCpu next → Replies stub next := by
    rintro next ⟨data, hdata, hconn⟩
    refine ⟨data, hdata, hconn.trans ?_⟩
    rw [← conn_resumeAt stub args]
    rfl
  rw [handleStep]
  split
  · exact hstepped _ (replies_reportException _)
  · exact hstepped _ (replies_trap _)

theorem replies_handleBreakpoint
    (apply : Memory → List Breakpoint → Word → Bool × Memory × List Breakpoint)
    (stub : GdbStub P) (args : List Byte) : Replies stub (handleBreakpoint apply stub args) := by
  rw [handleBreakpoint]
  split
  · exact replies_okOrError stub false
  · exact ⟨[], by decide, rfl⟩
  · exact replies_okOrError _ _

theorem answers_dispatch (stub : GdbStub P) (fuel : ℕ) {pkt : List Byte}
    (hc : pkt.head? ≠ some (byte 'c')) : Answers stub (stub.dispatch fuel pkt) := by
  have hreply : ∀ data, Ordinary data → Answers stub (some (stub.sendPacket data)) :=
    fun data hdata => Replies.answers ⟨data, hdata, rfl⟩
  cases pkt with
  | nil => exact hreply [] (by decide)
  | cons cmd args =>
    have hne : cmd ≠ byte 'c' := by simpa using hc
    rw [dispatch, if_neg hne]
    refine .ite ?trap (.ite ?g (.ite ?G (.ite ?p (.ite ?P (.ite ?m (.ite ?M (.ite ?s (.ite ?Z
      (.ite ?z (.ite ?k (.ite ?H (.ite ?q ?other))))))))))))
    case trap => exact (replies_trap stub).answers
    case g => exact hreply _ (ordinary_handleReadRegs stub.cpu)
    case G => exact (replies_okOrError { stub with cpu := _ } _).answers
    case p => exact hreply _ (ordinary_handleReadReg stub.cpu args)
    case P => exact (replies_okOrError { stub with cpu := _ } _).answers
    case m => exact hreply _ (ordinary_handleReadMem _ args)
    case M => exact (replies_okOrError { stub with cpu := _ } _).answers
    case s => exact (replies_handleStep stub args).answers
    case Z => exact (replies_handleBreakpoint insertBreakpoint stub args).answers
    case z => exact (replies_handleBreakpoint removeBreakpoint stub args).answers
    case k => exact Replies.answers ⟨text "OK", by decide, rfl⟩
    case H => exact hreply (text "OK") (by decide)
    case q => exact (replies_handleQuery stub args).answers
    case other => exact hreply [] (by decide)

end Replies

end GdbStub

end ClearCore.Mips
