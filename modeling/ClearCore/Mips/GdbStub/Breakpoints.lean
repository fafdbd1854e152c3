import ClearCore.Isa.Memory.Lemmas
import ClearCore.Mips.GdbStub
import ClearCore.Mips.Processor.Lemmas

-- What m and M see of the words that breakpoints replace.

namespace ClearCore.Mips

open Isa Isa.Memory Gdb

-- The bytes of the word a breakpoint replaces.
def Breakpoint.Covers (bp : Breakpoint) (n : ℕ) : Prop :=
  bp.addr.toNat ≤ n ∧ n < bp.addr.toNat + 4

instance (bp : Breakpoint) (n : ℕ) : Decidable (bp.Covers n) :=
  inferInstanceAs (Decidable (_ ∧ _))

namespace GdbStub

def Covered (breakpoints : List Breakpoint) (n : ℕ) : Prop := ∃ bp ∈ breakpoints, bp.Covers n

instance (breakpoints : List Breakpoint) (n : ℕ) : Decidable (Covered breakpoints n) :=
  inferInstanceAs (Decidable (∃ bp ∈ breakpoints, bp.Covers n))

-- Beside the memory of the stub: the memory with every M write and no breakpoint
-- (`plain`), the memory with the M writes that met no inserted breakpoint (`base`), the
-- bytes whose last M write did meet one (`lost`), and what M wrote to a byte since the
-- breakpoint over it was inserted (`since`).
structure Shadow where
  plain : Memory
  base : Memory
  lost : ℕ → Bool
  since : ℕ → Option Byte

namespace Shadow

def start (mem : Memory) : Shadow where
  plain := mem
  base := mem
  lost := fun _ => false
  since := fun _ => none

def write (sh : Shadow) (breakpoints : List Breakpoint) (addr : Word) (value : Byte) : Shadow :=
  if Covered breakpoints addr.toNat then
    { plain := sh.plain.setByte addr value, base := sh.base
      lost := Function.update sh.lost addr.toNat true
      since := Function.update sh.since addr.toNat (some value) }
  else
    { plain := sh.plain.setByte addr value, base := sh.base.setByte addr value
      lost := Function.update sh.lost addr.toNat false
      since := sh.since }

def insert (sh : Shadow) (addr : Word) : Shadow :=
  { sh with since := fun n =>
      if addr.toNat ≤ n ∧ n < addr.toNat + 4 then none else sh.since n }

end Shadow

-- How the shadow describes a memory and its breakpoints.
structure Shadows (sh : Shadow) (mem : Memory) (breakpoints : List Breakpoint) : Prop where
  size_plain : sh.plain.size = mem.size
  size_base : sh.base.size = mem.size
  aligned : ∀ bp ∈ breakpoints, bp.addr.toNat % 4 = 0
  inBounds : ∀ bp ∈ breakpoints, bp.addr.toNat + 4 ≤ mem.size
  distinct : (breakpoints.map (·.addr)).Nodup
  saved : ∀ bp ∈ breakpoints, ∀ n, bp.Covers n →
    sh.base.data[n]? = some (wordByte bp.savedWord (n - bp.addr.toNat))
  inserted : ∀ bp ∈ breakpoints, ∀ n, bp.Covers n →
    mem.data[n]? = some ((sh.since n).getD (wordByte kBreakWord (n - bp.addr.toNat)))
  outside : ∀ n, ¬Covered breakpoints n → mem.data[n]? = sh.base.data[n]?
  kept : ∀ n, sh.lost n = false → sh.base.data[n]? = sh.plain.data[n]?

theorem Shadows.start (mem : Memory) : Shadows (.start mem) mem [] where
  size_plain := rfl
  size_base := rfl
  aligned := by simp
  inBounds := by simp
  distinct := List.nodup_nil
  saved := by simp
  inserted := by simp
  outside := fun _ _ => rfl
  kept := fun _ _ => rfl

-- Two breakpoints over one byte have the same address.
theorem addr_eq_of_covers {bp bp' : Breakpoint} {n : ℕ} (ha : bp.addr.toNat % 4 = 0)
    (ha' : bp'.addr.toNat % 4 = 0) (h : bp.Covers n) (h' : bp'.Covers n) :
    bp.addr = bp'.addr := by
  apply BitVec.eq_of_toNat_eq
  obtain ⟨hl, hu⟩ := h
  obtain ⟨hl', hu'⟩ := h'
  omega

section Step

variable {sh : Shadow} {mem : Memory} {breakpoints : List Breakpoint}

theorem Shadows.write (h : Shadows sh mem breakpoints) {addr : Word} (hb : addr.toNat < mem.size)
    (value : Byte) :
    Shadows (sh.write breakpoints addr value) (mem.setByte addr value) breakpoints := by
  have hplain : addr.toNat < sh.plain.size := by rw [h.size_plain]; exact hb
  have hbase : addr.toNat < sh.base.size := by rw [h.size_base]; exact hb
  by_cases hc : Covered breakpoints addr.toNat
  · rw [Shadow.write, if_pos hc]
    constructor
    · simp only [size_setByte, h.size_plain]
    · simp only [size_setByte, h.size_base]
    · exact h.aligned
    · simpa only [size_setByte] using h.inBounds
    · exact h.distinct
    · exact h.saved
    · intro bp hbp n hn
      rw [getElem?_setByte hb]
      by_cases he : n = addr.toNat
      · simp [he]
      · simp only [if_neg he, Function.update_of_ne he]
        exact h.inserted bp hbp n hn
    · intro n hn
      have he : n ≠ addr.toNat := by
        rintro rfl
        exact hn hc
      rw [getElem?_setByte hb, if_neg he]
      exact h.outside n hn
    · intro n hn
      have he : n ≠ addr.toNat := by
        rintro rfl
        simp at hn
      simp only [Function.update_of_ne he] at hn
      simp only [getElem?_setByte hplain, if_neg he]
      exact h.kept n hn
  · rw [Shadow.write, if_neg hc]
    constructor
    · simp only [size_setByte, h.size_plain]
    · simp only [size_setByte, h.size_base]
    · exact h.aligned
    · simpa only [size_setByte] using h.inBounds
    · exact h.distinct
    · intro bp hbp n hn
      have he : n ≠ addr.toNat := by
        rintro rfl
        exact hc ⟨bp, hbp, hn⟩
      simp only [getElem?_setByte hbase, if_neg he]
      exact h.saved bp hbp n hn
    · intro bp hbp n hn
      have he : n ≠ addr.toNat := by
        rintro rfl
        exact hc ⟨bp, hbp, hn⟩
      rw [getElem?_setByte hb, if_neg he]
      exact h.inserted bp hbp n hn
    · intro n hn
      simp only [getElem?_setByte hb, getElem?_setByte hbase]
      rw [h.outside n hn]
    · intro n hn
      simp only [getElem?_setByte hbase, getElem?_setByte hplain]
      by_cases he : n = addr.toNat
      · rw [if_pos he, if_pos he]
      · simp only [Function.update_of_ne he] at hn
        rw [if_neg he, if_neg he, h.kept n hn]

-- Inserting a breakpoint saves a word that no other breakpoint covers.
theorem Shadows.insert (h : Shadows sh mem breakpoints) {addr word : Word}
    (hnew : ∀ bp ∈ breakpoints, bp.addr ≠ addr) (hread : mem.readWord addr = some word) :
    Shadows (sh.insert addr) (mem.setWord addr kBreakWord)
      (breakpoints ++ [{ addr, savedWord := word }]) := by
  obtain ⟨ha, hb, hword⟩ := readWord_eq_some hread
  have hfree : ∀ n, addr.toNat ≤ n ∧ n < addr.toNat + 4 → ¬Covered breakpoints n := by
    rintro n hn ⟨bp, hbp, hcov⟩
    have he : bp.addr = (⟨addr, word⟩ : Breakpoint).addr :=
      addr_eq_of_covers (h.aligned bp hbp) ha hcov hn
    exact hnew bp hbp he
  have hapart : ∀ bp ∈ breakpoints, ∀ n, bp.Covers n →
      ¬(addr.toNat ≤ n ∧ n < addr.toNat + 4) := fun bp hbp n hn hin => hfree n hin ⟨bp, hbp, hn⟩
  constructor
  · simp only [size_setWord, Shadow.insert, h.size_plain]
  · simp only [size_setWord, Shadow.insert, h.size_base]
  · simp only [List.forall_mem_append, List.forall_mem_singleton]
    exact ⟨h.aligned, ha⟩
  · simp only [List.forall_mem_append, List.forall_mem_singleton, size_setWord]
    exact ⟨h.inBounds, hb⟩
  · rw [List.map_append, List.nodup_append]
    refine ⟨h.distinct, by simp, ?_⟩
    simpa using hnew
  · simp only [List.forall_mem_append, List.forall_mem_singleton]
    refine ⟨h.saved, ?_⟩
    intro n hn
    obtain ⟨k, rfl⟩ := Nat.exists_eq_add_of_le hn.1
    have hk : k < 4 := Nat.lt_of_add_lt_add_left hn.2
    have hnat : (addr + BitVec.ofNat 32 k).toNat = addr.toNat + k :=
      toNat_add_of_aligned addr k ha hk
    have hbyte : mem.data[addr.toNat + k]? = some (mem.byteAt (addr + BitVec.ofNat 32 k)) := by
      rw [← hnat]
      exact getElem?_byteAt (by omega)
    rw [Shadow.insert, ← h.outside _ (hfree _ hn), hbyte, Nat.add_sub_cancel_left, ← hword,
      wordByte_wordAt mem addr hk]
  · simp only [List.forall_mem_append, List.forall_mem_singleton]
    constructor
    · intro bp hbp n hn
      have hout := hapart bp hbp n hn
      rw [getElem?_setWord ha hb, if_neg hout, Shadow.insert]
      simp only [if_neg hout]
      exact h.inserted bp hbp n hn
    · intro n hn
      have hin : addr.toNat ≤ n ∧ n < addr.toNat + 4 := hn
      rw [getElem?_setWord ha hb, if_pos hin, Shadow.insert]
      simp only [if_pos hin, Option.getD_none]
  · intro n hn
    have hout : ¬(addr.toNat ≤ n ∧ n < addr.toNat + 4) :=
      fun hin => hn ⟨⟨addr, word⟩, by simp, hin⟩
    have hrest : ¬Covered breakpoints n := by
      rintro ⟨bp, hbp, hcov⟩
      exact hn ⟨bp, List.mem_append_left _ hbp, hcov⟩
    rw [getElem?_setWord ha hb, if_neg hout]
    exact h.outside n hrest
  · exact h.kept

-- Erasing the first breakpoint at an address erases them all.
theorem eraseP_eq_filter (hd : (breakpoints.map (·.addr)).Nodup) (addr : Word) :
    (breakpoints.eraseP fun bp => bp.addr = addr) =
      breakpoints.filter fun bp => bp.addr ≠ addr := by
  induction breakpoints with
  | nil => rfl
  | cons bp rest ih =>
    rw [List.map_cons, List.nodup_cons] at hd
    by_cases he : bp.addr = addr
    · have hrest : ∀ other ∈ rest, decide (other.addr ≠ addr) = true := by
        intro other hmem
        apply decide_eq_true
        rintro hother
        exact hd.1 (List.mem_map.mpr ⟨other, hmem, hother.trans he.symm⟩)
      rw [List.eraseP_cons_of_pos (by simpa using he), List.filter_cons_of_neg (by simpa using he),
        List.filter_eq_self.mpr hrest]
    · rw [List.eraseP_cons_of_neg (by simpa using he), List.filter_cons_of_pos (by simpa using he),
        ih hd.2]

-- Removing a breakpoint writes back the bytes of `base`.
theorem Shadows.remove (h : Shadows sh mem breakpoints) {bp : Breakpoint}
    (hbp : bp ∈ breakpoints) :
    Shadows sh (mem.setWord bp.addr bp.savedWord)
      (breakpoints.eraseP fun other => other.addr = bp.addr) := by
  have ha := h.aligned bp hbp
  have hb := h.inBounds bp hbp
  rw [eraseP_eq_filter h.distinct]
  have hsub : ∀ other ∈ breakpoints.filter (fun other => other.addr ≠ bp.addr),
      other ∈ breakpoints ∧ other.addr ≠ bp.addr := by
    intro other hmem
    simpa using List.mem_filter.mp hmem
  have hapart : ∀ other ∈ breakpoints.filter (fun other => other.addr ≠ bp.addr), ∀ n,
      other.Covers n → ¬bp.Covers n := by
    intro other hmem n hn hin
    obtain ⟨hother, hne⟩ := hsub other hmem
    exact hne (addr_eq_of_covers (h.aligned other hother) ha hn hin)
  constructor
  · rw [size_setWord, h.size_plain]
  · rw [size_setWord, h.size_base]
  · exact fun other hmem => h.aligned other (hsub other hmem).1
  · rw [size_setWord]
    exact fun other hmem => h.inBounds other (hsub other hmem).1
  · exact h.distinct.sublist (List.filter_sublist.map _)
  · exact fun other hmem => h.saved other (hsub other hmem).1
  · intro other hmem n hn
    have hout : ¬(bp.addr.toNat ≤ n ∧ n < bp.addr.toNat + 4) := hapart other hmem n hn
    rw [getElem?_setWord ha hb, if_neg hout]
    exact h.inserted other (hsub other hmem).1 n hn
  · intro n hn
    rw [getElem?_setWord ha hb]
    by_cases hin : bp.addr.toNat ≤ n ∧ n < bp.addr.toNat + 4
    · rw [if_pos hin]
      exact (h.saved bp hbp n hin).symm
    · rw [if_neg hin]
      apply h.outside
      rintro ⟨other, hother, hcov⟩
      by_cases he : other.addr = bp.addr
      · rw [Breakpoint.Covers, he] at hcov
        exact hin hcov
      · exact hn ⟨other, List.mem_filter.mpr ⟨hother, by simpa using he⟩, hcov⟩
  · exact h.kept

end Step

-- The bytes an M packet writes before it ends or fails.
def bytesWritten (hex : List Byte) (addr : Word) (size i : ℕ) : ℕ → List (Word × Byte)
  | 0 => []
  | count + 1 =>
      match parseHexByte hex (i * 2) with
      | none => []
      | some byte =>
          if (addr + BitVec.ofNat 32 i).toNat < size then
            (addr + BitVec.ofNat 32 i, byte) :: bytesWritten hex addr size (i + 1) count
          else []

theorem writeMemFrom_eq (hex : List Byte) (addr : Word) (mem : Memory) (i count : ℕ) :
    (writeMemFrom hex addr mem i count).2 =
      (bytesWritten hex addr mem.size i count).foldl (fun m w => m.setByte w.1 w.2) mem := by
  induction count generalizing mem i with
  | zero => rfl
  | succ count ih =>
    rw [writeMemFrom, bytesWritten]
    cases hbyte : parseHexByte hex (i * 2) with
    | none => rfl
    | some byte =>
      by_cases hb : (addr + BitVec.ofNat 32 i).toNat < mem.size
      · have hin : mem.inBounds (addr + BitVec.ofNat 32 i) 1 = true := decide_eq_true hb
        simp only [Memory.writeByte, hin, not_true_eq_false, if_false, if_pos hb]
        rw [ih, size_setByte, List.foldl_cons]
      · have hin : mem.inBounds (addr + BitVec.ofNat 32 i) 1 = false := decide_eq_false hb
        simp only [Memory.writeByte, hin, Bool.false_eq_true, not_false_eq_true, if_true,
          if_neg hb, List.foldl_nil]

theorem bytesWritten_lt {hex : List Byte} {addr : Word} {size i count : ℕ} {w : Word × Byte}
    (h : w ∈ bytesWritten hex addr size i count) : w.1.toNat < size := by
  induction count generalizing i with
  | zero => simp [bytesWritten] at h
  | succ count ih =>
    rw [bytesWritten] at h
    cases hbyte : parseHexByte hex (i * 2) with
    | none => simp [hbyte] at h
    | some byte =>
      by_cases hb : (addr + BitVec.ofNat 32 i).toNat < size
      · simp only [hbyte, if_pos hb, List.mem_cons] at h
        rcases h with rfl | h
        · exact hb
        · exact ih h
      · simp only [hbyte, if_neg hb, List.not_mem_nil] at h

-- The bytes of a successful m reply are those of the memory.
theorem readMemFrom_eq_some {mem : Memory} {addr : Word} {i count : ℕ} {out : List Byte}
    (h : readMemFrom mem addr i count = some out) :
    ∃ bytes : List Byte, out = bytes.flatMap hexByte ∧ bytes.length = count ∧
      ∀ j < count, bytes[j]? = mem.data[(addr + BitVec.ofNat 32 (i + j)).toNat]? := by
  induction count generalizing i out with
  | zero =>
    obtain rfl : [] = out := by simpa [readMemFrom] using h
    exact ⟨[], rfl, rfl, by simp⟩
  | succ count ih =>
    rw [readMemFrom] at h
    by_cases hb : (addr + BitVec.ofNat 32 i).toNat < mem.size
    · have hin : mem.inBounds (addr + BitVec.ofNat 32 i) 1 = true := decide_eq_true hb
      simp only [Memory.readByte, hin, not_true_eq_false, if_false] at h
      obtain ⟨rest, hrest, rfl⟩ := Option.map_eq_some_iff.mp h
      obtain ⟨bytes, rfl, hlen, hbytes⟩ := ih hrest
      refine ⟨mem.byteAt (addr + BitVec.ofNat 32 i) :: bytes, ?_, ?_, ?_⟩
      · rw [List.flatMap_cons]
      · rw [List.length_cons, hlen]
      · intro j hj
        cases j with
        | zero => rw [List.getElem?_cons_zero, Nat.add_zero, getElem?_byteAt hb]
        | succ j =>
          rw [List.getElem?_cons_succ, hbytes j (by omega)]
          congr 4
          omega
    · have hin : mem.inBounds (addr + BitVec.ofNat 32 i) 1 = false := decide_eq_false hb
      simp [Memory.readByte, hin] at h

section Session

variable {P : Type}

@[simp] theorem okOrError_cpu (stub : GdbStub P) (ok : Bool) :
    (okOrError stub ok).cpu = stub.cpu := by cases ok <;> rfl

@[simp] theorem okOrError_breakpoints (stub : GdbStub P) (ok : Bool) :
    (okOrError stub ok).breakpoints = stub.breakpoints := by cases ok <;> rfl

@[simp] theorem okOrError_detached (stub : GdbStub P) (ok : Bool) :
    (okOrError stub ok).detached = stub.detached := by cases ok <;> rfl

variable [IMipsProcessor P]

-- The memory with the M packets of a session and no breakpoint.
def plainWrite (mem : Memory) : List Byte → Memory
  | [] => mem
  | cmd :: args => if cmd = byte 'M' then (handleWriteMem mem args).2 else mem

def isMemoryPacket : List Byte → Bool
  | [] => false
  | cmd :: _ =>
      decide (cmd = byte 'Z') || decide (cmd = byte 'z') || decide (cmd = byte 'm') ||
        decide (cmd = byte 'M')

def Shadow.observeWrite (sh : Shadow) (stub : GdbStub P) (args : List Byte) : Shadow :=
  match parseWriteMem args with
  | none => sh
  | some (addr, len, hex) =>
      (bytesWritten hex addr (IMipsProcessor.mem stub.cpu).size 0 len.toNat).foldl
        (fun sh w => sh.write stub.breakpoints w.1 w.2) sh

def Shadow.observeInsert (sh : Shadow) (stub : GdbStub P) (args : List Byte) : Shadow :=
  match parseBreakpoint args with
  | .software addr =>
      if (stub.breakpoints.any fun bp => bp.addr = addr) ||
          ((IMipsProcessor.mem stub.cpu).readWord addr).isNone then sh
      else sh.insert addr
  | _ => sh

-- The shadow after a packet dispatched in the state `stub`.
def Shadow.observe (sh : Shadow) (stub : GdbStub P) : List Byte → Shadow
  | [] => sh
  | cmd :: args =>
      if cmd = byte 'M' then sh.observeWrite stub args
      else if cmd = byte 'Z' then sh.observeInsert stub args
      else sh

-- A session with its shadow.
def observed (fuel : ℕ) (stub : GdbStub P) (sh : Shadow) :
    List (List Byte) → Option (GdbStub P × Shadow)
  | [] => some (stub, sh)
  | pkt :: pkts =>
      (stub.dispatch fuel pkt).bind fun next => observed fuel next (sh.observe stub pkt) pkts

-- A successful reply to a well-formed m packet shows the bytes of the memory.
theorem dispatch_readMem (stub : GdbStub P) (fuel : ℕ) {args : List Byte} {addr len : Word}
    (hparse : parseReadMem args = some (addr, len))
    (hok : handleReadMem (IMipsProcessor.mem stub.cpu) args ≠ text "E02") :
    ∃ bytes : List Byte,
      stub.dispatch fuel (byte 'm' :: args) = some (stub.sendPacket (bytes.flatMap hexByte)) ∧
      bytes.length = min len.toNat ((IMipsProcessor.mem stub.cpu).size % 2 ^ 32) ∧
      ∀ j < bytes.length, bytes[j]? =
        (IMipsProcessor.mem stub.cpu).data[(addr + BitVec.ofNat 32 j).toNat]? := by
  have hdispatch : stub.dispatch fuel (byte 'm' :: args) =
      some (stub.sendPacket (handleReadMem (IMipsProcessor.mem stub.cpu) args)) := rfl
  simp only [handleReadMem, hparse] at hok hdispatch
  cases hread : readMemFrom (IMipsProcessor.mem stub.cpu) addr 0
      (min len.toNat ((IMipsProcessor.mem stub.cpu).size % 2 ^ 32)) with
  | none =>
    rw [hread] at hok
    exact absurd rfl hok
  | some out =>
    obtain ⟨bytes, rfl, hlen, hbytes⟩ := readMemFrom_eq_some hread
    rw [hread, Option.getD_some] at hdispatch
    refine ⟨bytes, hdispatch, hlen, ?_⟩
    intro j hj
    rw [hbytes j (by omega), Nat.zero_add]

variable [LawfulAccess P] {stub : GdbStub P} {sh : Shadow}

-- The stub with its memory and breakpoints as the shadow says.
structure Observes (stub : GdbStub P) (sh : Shadow) : Prop where
  attached : stub.detached = false
  shadows : Shadows sh (IMipsProcessor.mem stub.cpu) stub.breakpoints

theorem Shadows.writes {mem : Memory} {breakpoints : List Breakpoint}
    (h : Shadows sh mem breakpoints) (writes : List (Word × Byte))
    (hw : ∀ w ∈ writes, w.1.toNat < mem.size) :
    Shadows (writes.foldl (fun sh w => sh.write breakpoints w.1 w.2) sh)
      (writes.foldl (fun m w => m.setByte w.1 w.2) mem) breakpoints := by
  induction writes generalizing sh mem with
  | nil => exact h
  | cons w writes ih =>
    rw [List.foldl_cons, List.foldl_cons]
    apply ih (h.write (hw w List.mem_cons_self) w.2)
    intro v hv
    rw [size_setByte]
    exact hw v (List.mem_cons_of_mem w hv)

theorem plain_writes (breakpoints : List Breakpoint) (writes : List (Word × Byte)) :
    (writes.foldl (fun sh w => sh.write breakpoints w.1 w.2) sh).plain =
      writes.foldl (fun m w => m.setByte w.1 w.2) sh.plain := by
  induction writes generalizing sh with
  | nil => rfl
  | cons w writes ih =>
    have hplain : (sh.write breakpoints w.1 w.2).plain = sh.plain.setByte w.1 w.2 := by
      rw [Shadow.write]
      split <;> rfl
    rw [List.foldl_cons, List.foldl_cons, ih, hplain]

theorem Observes.writeMem (h : Observes stub sh) (fuel : ℕ) (args : List Byte) :
    ∃ next, stub.dispatch fuel (byte 'M' :: args) = some next ∧
      Observes next (sh.observeWrite stub args) ∧
      (sh.observeWrite stub args).plain = (handleWriteMem sh.plain args).2 := by
  refine ⟨_, rfl, ?_⟩
  have hsize := h.shadows.size_plain
  cases hparse : parseWriteMem args with
  | none =>
    simp only [Shadow.observeWrite, handleWriteMem, hparse]
    refine ⟨⟨h.attached, ?_⟩, trivial⟩
    simp only [okOrError_cpu, okOrError_breakpoints, LawfulAccess.mem_setMem]
    exact h.shadows
  | some parsed =>
    obtain ⟨addr, len, hex⟩ := parsed
    simp only [Shadow.observeWrite, handleWriteMem, hparse]
    constructor
    · constructor
      · simp only [okOrError_detached]
        exact h.attached
      · simp only [okOrError_cpu, okOrError_breakpoints, LawfulAccess.mem_setMem, writeMemFrom_eq]
        exact h.shadows.writes _ fun w hw => bytesWritten_lt hw
    · rw [plain_writes, writeMemFrom_eq, hsize]

theorem Observes.insert (h : Observes stub sh) (fuel : ℕ) (args : List Byte) :
    ∃ next, stub.dispatch fuel (byte 'Z' :: args) = some next ∧
      Observes next (sh.observeInsert stub args) ∧
      (sh.observeInsert stub args).plain = sh.plain := by
  refine ⟨_, rfl, ?_⟩
  cases hparse : parseBreakpoint args with
  | malformed =>
    simp only [Shadow.observeInsert, handleBreakpointSet, handleBreakpoint, hparse]
    exact ⟨⟨h.attached, h.shadows⟩, trivial⟩
  | unsupported =>
    simp only [Shadow.observeInsert, handleBreakpointSet, handleBreakpoint, hparse]
    exact ⟨⟨h.attached, h.shadows⟩, trivial⟩
  | software addr =>
    simp only [Shadow.observeInsert, handleBreakpointSet, handleBreakpoint, hparse,
      insertBreakpoint]
    cases hany : stub.breakpoints.any fun bp => bp.addr = addr with
    | true =>
      simp only [if_true, Bool.true_or]
      refine ⟨⟨h.attached, ?_⟩, trivial⟩
      simp only [okOrError_cpu, okOrError_breakpoints, LawfulAccess.mem_setMem]
      exact h.shadows
    | false =>
      cases hread : (IMipsProcessor.mem stub.cpu).readWord addr with
      | none =>
        simp only [Bool.false_eq_true, if_false, Option.isNone_none, Bool.or_true, if_true]
        refine ⟨⟨h.attached, ?_⟩, trivial⟩
        simp only [okOrError_cpu, okOrError_breakpoints, LawfulAccess.mem_setMem]
        exact h.shadows
      | some word =>
        obtain ⟨ha, hb, -⟩ := readWord_eq_some hread
        have hnew : ∀ bp ∈ stub.breakpoints, bp.addr ≠ addr := by
          intro bp hbp
          simpa using List.any_eq_false.mp hany bp hbp
        simp only [Bool.false_eq_true, if_false, Option.isNone_some, Bool.or_false,
          writeWord_of_aligned ha hb]
        refine ⟨⟨h.attached, ?_⟩, rfl⟩
        simp only [okOrError_cpu, okOrError_breakpoints, LawfulAccess.mem_setMem]
        exact h.shadows.insert hnew hread

theorem Observes.remove (h : Observes stub sh) (fuel : ℕ) (args : List Byte) :
    ∃ next, stub.dispatch fuel (byte 'z' :: args) = some next ∧ Observes next sh := by
  refine ⟨_, rfl, ?_⟩
  cases hparse : parseBreakpoint args with
  | malformed =>
    simp only [handleBreakpointClear, handleBreakpoint, hparse]
    exact ⟨h.attached, h.shadows⟩
  | unsupported =>
    simp only [handleBreakpointClear, handleBreakpoint, hparse]
    exact ⟨h.attached, h.shadows⟩
  | software addr =>
    simp only [handleBreakpointClear, handleBreakpoint, hparse, removeBreakpoint]
    cases hfind : stub.breakpoints.find? fun bp => bp.addr = addr with
    | none =>
      refine ⟨h.attached, ?_⟩
      simp only [okOrError_cpu, okOrError_breakpoints, LawfulAccess.mem_setMem]
      exact h.shadows
    | some bp =>
      have hbp := List.mem_of_find?_eq_some hfind
      obtain rfl : bp.addr = addr := by simpa using List.find?_some hfind
      have hwrite := writeWord_of_aligned (h.shadows.aligned bp hbp) (h.shadows.inBounds bp hbp)
        bp.savedWord
      refine ⟨h.attached, ?_⟩
      simp only [okOrError_cpu, okOrError_breakpoints, LawfulAccess.mem_setMem, hwrite,
        Option.getD_some]
      exact h.shadows.remove hbp

-- One packet of the session.
theorem Observes.step (h : Observes stub sh) (fuel : ℕ) {pkt : List Byte}
    (hpkt : isMemoryPacket pkt = true) :
    ∃ next, stub.dispatch fuel pkt = some next ∧ Observes next (sh.observe stub pkt) ∧
      (sh.observe stub pkt).plain = plainWrite sh.plain pkt := by
  cases pkt with
  | nil => simp [isMemoryPacket] at hpkt
  | cons cmd args =>
    simp only [isMemoryPacket, Bool.or_eq_true, decide_eq_true_eq] at hpkt
    rcases hpkt with ((rfl | rfl) | rfl) | rfl
    · exact h.insert fuel args
    · obtain ⟨next, hnext, hobs⟩ := h.remove fuel args
      exact ⟨next, hnext, hobs, rfl⟩
    · exact ⟨_, rfl, ⟨h.attached, h.shadows⟩, rfl⟩
    · exact h.writeMem fuel args

theorem Observes.run (h : Observes stub sh) (fuel : ℕ) {pkts : List (List Byte)}
    (hpkts : ∀ pkt ∈ pkts, isMemoryPacket pkt = true) :
    ∃ stub' sh', observed fuel stub sh pkts = some (stub', sh') ∧
      stub.session fuel pkts = some stub' ∧ Observes stub' sh' ∧
      sh'.plain = pkts.foldl plainWrite sh.plain := by
  induction pkts generalizing stub sh with
  | nil => exact ⟨stub, sh, rfl, rfl, h, rfl⟩
  | cons pkt pkts ih =>
    obtain ⟨next, hnext, hobs, hplain⟩ := h.step fuel (hpkts pkt List.mem_cons_self)
    obtain ⟨stub', sh', hrun, hsession, hobs', hplain'⟩ :=
      ih hobs fun p hp => hpkts p (List.mem_cons_of_mem pkt hp)
    refine ⟨stub', sh', ?_, ?_, hobs', ?_⟩
    · rw [observed, hnext, Option.bind_some, hrun]
    · simp only [session, h.attached, Bool.false_eq_true, if_false, hnext, Option.bind_some,
        hsession]
    · rw [hplain', hplain, List.foldl_cons]

-- Breakpoints against the memory without them, after any sequence of Z, z, m and M
-- packets: bytes differ only inside an inserted word, and where the last M write was
-- made into an inserted word.
theorem breakpoints_transparent (stub : GdbStub P) (hnone : stub.breakpoints = [])
    (hattached : stub.detached = false) (fuel : ℕ) (pkts : List (List Byte))
    (hpkts : ∀ pkt ∈ pkts, isMemoryPacket pkt = true) :
    ∃ stub' sh, observed fuel stub (.start (IMipsProcessor.mem stub.cpu)) pkts = some (stub', sh) ∧
      stub.session fuel pkts = some stub' ∧
      sh.plain = pkts.foldl plainWrite (IMipsProcessor.mem stub.cpu) ∧
      (∀ n, ¬Covered stub'.breakpoints n → sh.lost n = false →
        (IMipsProcessor.mem stub'.cpu).data[n]? = sh.plain.data[n]?) ∧
      (∀ bp ∈ stub'.breakpoints, ∀ n, bp.Covers n → (IMipsProcessor.mem stub'.cpu).data[n]? =
        some ((sh.since n).getD (wordByte kBreakWord (n - bp.addr.toNat)))) ∧
      (∀ args addr len, parseReadMem args = some (addr, len) →
        handleReadMem (IMipsProcessor.mem stub'.cpu) args ≠ text "E02" →
        ∃ bytes : List Byte, stub'.dispatch fuel (byte 'm' :: args) =
            some (stub'.sendPacket (bytes.flatMap hexByte)) ∧
          bytes.length = min len.toNat ((IMipsProcessor.mem stub'.cpu).size % 2 ^ 32) ∧
          ∀ j < bytes.length, bytes[j]? =
            (IMipsProcessor.mem stub'.cpu).data[(addr + BitVec.ofNat 32 j).toNat]?) ∧
      (stub'.breakpoints = [] → IMipsProcessor.mem stub'.cpu = sh.base ∧
        (∀ n, sh.lost n = false → sh.base.data[n]? = sh.plain.data[n]?) ∧
        ((∀ n, sh.lost n = false) → IMipsProcessor.mem stub'.cpu = sh.plain)) := by
  have hstart : Observes stub (.start (IMipsProcessor.mem stub.cpu)) := by
    refine ⟨hattached, ?_⟩
    rw [hnone]
    exact .start _
  obtain ⟨stub', sh, hrun, hsession, hobs, hplain⟩ := hstart.run fuel hpkts
  have hsh := hobs.shadows
  refine ⟨stub', sh, hrun, hsession, hplain, ?_, hsh.inserted, ?_, ?_⟩
  · intro n hn hkept
    rw [hsh.outside n hn, hsh.kept n hkept]
  · intro args addr len hparse hok
    exact dispatch_readMem stub' fuel hparse hok
  · intro hempty
    have hbase : IMipsProcessor.mem stub'.cpu = sh.base := by
      apply eq_of_getElem?
      intro n
      apply hsh.outside
      simp [Covered, hempty]
    refine ⟨hbase, hsh.kept, ?_⟩
    intro hkept
    rw [hbase]
    exact eq_of_getElem? fun n => hsh.kept n (hkept n)

end Session

theorem breakpoints_transparent_patched :
    ∃ stub' sh, observed 0 ({ cpu := SingleCycleCpu.create 16 } : GdbStub SingleCycleCpu)
        (.start (.ofSize 16)) [text "Z0,4,4", text "M8,1:ff"] = some (stub', sh) ∧
      sh.plain.data[8]? = some 0xFF#8 := by
  obtain ⟨stub', sh, hrun, -, hplain, -⟩ := breakpoints_transparent
    ({ cpu := SingleCycleCpu.create 16 } : GdbStub SingleCycleCpu) rfl rfl 0
    [text "Z0,4,4", text "M8,1:ff"] (by decide)
  refine ⟨stub', sh, hrun, ?_⟩
  rw [hplain]
  decide

-- m shows the BREAK word, and an M write to it is lost when it is removed.
theorem breakpoint_not_transparent :
    (session 0 ({ cpu := SingleCycleCpu.create 16 } : GdbStub SingleCycleCpu)
        [text "Z0,4,4", text "m4,4"]).map (·.conn.sent) =
      some [.packet (text "OK"), .packet (text "0d000000")] ∧
    handleReadMem (plainWrite (.ofSize 16) (text "Z0,4,4")) (text "4,4") = text "00000000" ∧
    (session 0 ({ cpu := SingleCycleCpu.create 16 } : GdbStub SingleCycleCpu)
        [text "Z0,4,4", text "M4,1:ff", text "z0,4,4"]).map
        (fun stub => (stub.breakpoints, stub.cpu.mem)) = some ([], .ofSize 16) ∧
    [text "Z0,4,4", text "M4,1:ff", text "z0,4,4"].foldl plainWrite (.ofSize 16) ≠
      .ofSize 16 := by
  decide

end GdbStub

end ClearCore.Mips
