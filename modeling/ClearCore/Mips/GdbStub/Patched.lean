import ClearCore.Isa.Memory.Refinement
import ClearCore.Mips.GdbStub.Breakpoints
import ClearCore.Mips.SingleCycle.Trace

-- A program with breakpoints in it against the program itself.

namespace ClearCore.Mips

open Isa Isa.Memory

-- The address an instruction loads from or stores to.
def Action.dataAddr : Action → Option Word
  | .load _ addr _ => some addr
  | .store _ addr _ => some addr
  | _ => none

def Arch.dataAddr (arch : Arch) : Option Word :=
  (arch.mem.readWord arch.pc).bind fun raw => (Decoder.decode raw).bind fun d =>
    (arch.action d).dataAddr

namespace GdbStub

section Memory

variable {plain mem : Memory} {breakpoints : List Breakpoint}

-- Breakpoints replace whole words.
theorem covered_congr (ha : ∀ bp ∈ breakpoints, bp.addr.toNat % 4 = 0) {m n : ℕ}
    (h : m / 4 = n / 4) : Covered breakpoints m ↔ Covered breakpoints n := by
  have hcovers : ∀ bp ∈ breakpoints, (bp.Covers m ↔ bp.Covers n) := by
    intro bp hbp
    have haligned := ha bp hbp
    unfold Breakpoint.Covers
    omega
  constructor
  · rintro ⟨bp, hbp, hm⟩
    exact ⟨bp, hbp, (hcovers bp hbp).mp hm⟩
  · rintro ⟨bp, hbp, hn⟩
    exact ⟨bp, hbp, (hcovers bp hbp).mpr hn⟩

theorem div_add_of_dvd {width addr k : ℕ} (hwidth : width ∣ 4) (haddr : width ∣ addr)
    (hk : k < width) : (addr + k) / 4 = addr / 4 := by
  obtain ⟨c, hc⟩ := hwidth
  obtain ⟨q, rfl⟩ := haddr
  rw [hc, ← Nat.div_div_eq_div_mul, ← Nat.div_div_eq_div_mul, Nat.mul_add_div (by omega),
    Nat.div_eq_of_lt hk, Nat.add_zero, Nat.mul_div_cancel_left q (by omega)]

theorem Shadows.byte_eq (h : Shadows (.start plain) mem breakpoints) {n : ℕ}
    (hn : ¬Covered breakpoints n) : mem.bytes.byte n = plain.bytes.byte n := by
  have hbyte : mem.data[n]? = plain.data[n]? := h.outside n hn
  simp only [Memory.bytes, Array.getD_eq_getD_getElem?, hbyte]

theorem Shadows.load_eq (h : Shadows (.start plain) mem breakpoints) {width addr : ℕ}
    (hwidth : width ∣ 4) (hn : ¬Covered breakpoints addr) :
    mem.bytes.load width addr = plain.bytes.load width addr := by
  apply ByteMap.load_congr
  · exact h.size_plain.symm
  · intro haddr k hk
    apply h.byte_eq
    rw [covered_congr h.aligned (div_add_of_dvd hwidth haddr hk)]
    exact hn

theorem Shadows.readWord_eq (h : Shadows (.start plain) mem breakpoints) {addr : Word}
    (hn : ¬Covered breakpoints addr.toNat) : mem.readWord addr = plain.readWord addr := by
  rw [readWord_bytes, readWord_bytes, h.load_eq (by decide) hn]

theorem Shadows.loadData_eq (h : Shadows (.start plain) mem breakpoints) (op : Opcode) {addr : Word}
    (hn : ¬Covered breakpoints addr.toNat) : loadData mem op addr = loadData plain op addr := by
  have hbyte : mem.readByte addr = plain.readByte addr := by
    rw [readByte_bytes, readByte_bytes, h.load_eq (by decide) hn]
  have hhalf : mem.readHalf addr = plain.readHalf addr := by
    rw [readHalf_bytes, readHalf_bytes, h.load_eq (by decide) hn]
  simp only [loadData, h.readWord_eq hn, hbyte, hhalf]

-- A word written outside the breakpoints.
theorem Shadows.setWord (h : Shadows (.start plain) mem breakpoints) {addr : Word}
    (ha : addr.toNat % 4 = 0) (hb : addr.toNat + 4 ≤ mem.size)
    (hn : ¬Covered breakpoints addr.toNat) (value : Word) :
    Shadows (.start (plain.setWord addr value)) (mem.setWord addr value) breakpoints := by
  have hsize : plain.size = mem.size := h.size_plain
  have hb' : addr.toNat + 4 ≤ plain.size := by omega
  have hword : ∀ n, addr.toNat ≤ n ∧ n < addr.toNat + 4 → ¬Covered breakpoints n := by
    intro n hin
    rw [covered_congr h.aligned (by omega : n / 4 = addr.toNat / 4)]
    exact hn
  have hapart : ∀ bp ∈ breakpoints, ∀ n, bp.Covers n →
      ¬(addr.toNat ≤ n ∧ n < addr.toNat + 4) := fun bp hbp n hcov hin => hword n hin ⟨bp, hbp, hcov⟩
  constructor
  · rw [size_setWord]
    simp only [Shadow.start, size_setWord, hsize]
  · rw [size_setWord]
    simp only [Shadow.start, size_setWord, hsize]
  · exact h.aligned
  · simpa only [size_setWord] using h.inBounds
  · exact h.distinct
  · intro bp hbp n hcov
    simp only [Shadow.start, getElem?_setWord ha hb', if_neg (hapart bp hbp n hcov)]
    exact h.saved bp hbp n hcov
  · intro bp hbp n hcov
    rw [getElem?_setWord ha hb, if_neg (hapart bp hbp n hcov)]
    exact h.inserted bp hbp n hcov
  · intro n hcov
    have hout : mem.data[n]? = plain.data[n]? := h.outside n hcov
    simp only [Shadow.start, getElem?_setWord ha hb, getElem?_setWord ha hb', hout]
  · intro n _
    rfl

-- Both memories take a store, or neither does.
theorem Shadows.storeData (h : Shadows (.start plain) mem breakpoints) (op : Opcode) {addr : Word}
    (hn : ¬Covered breakpoints addr.toNat) (value : Word) :
    Option.Rel (fun p m => Shadows (.start p) m breakpoints) (storeData plain op addr value)
      (storeData mem op addr value) := by
  have hsize : plain.size = mem.size := h.size_plain
  cases op with
  | SW =>
    have hsome := writeWord_isSome_congr hsize addr value
    simp only [Mips.storeData]
    cases hp : plain.writeWord addr value with
    | none =>
      have hm : mem.writeWord addr value = none := by simpa [hp] using hsome.symm
      rw [hm]
      exact .none
    | some p =>
      obtain ⟨ha, hb, rfl⟩ := writeWord_eq_some hp
      rw [hsize] at hb
      rw [writeWord_of_aligned ha hb]
      exact .some (h.setWord ha hb hn value)
  | _ => exact .none

-- An inserted breakpoint is a BREAK.
theorem Shadows.readWord_break (h : Shadows (.start plain) mem breakpoints) {bp : Breakpoint}
    (hbp : bp ∈ breakpoints) : mem.readWord bp.addr = some kBreakWord := by
  have ha := h.aligned bp hbp
  have hb := h.inBounds bp hbp
  rw [readWord_of_aligned ha hb, Option.some.injEq]
  apply eq_of_wordByte
  intro k hk
  have haddr := toNat_add_of_aligned bp.addr k ha hk
  have hbyte := h.inserted bp hbp (bp.addr.toNat + k) ⟨by omega, by omega⟩
  rw [← haddr, getElem?_byteAt (by omega), haddr, Option.some.injEq, Nat.add_sub_cancel_left]
    at hbyte
  rw [wordByte_wordAt _ _ hk]
  exact hbyte

end Memory

-- The state `t` is `s` with breakpoints in its memory.
structure Patched (s t : Arch) (breakpoints : List Breakpoint) : Prop where
  regs : t.regs = s.regs
  cp0 : t.cp0 = s.cp0
  pc : t.pc = s.pc
  mem : Shadows (.start s.mem) t.mem breakpoints

-- The instruction at PC is none of the words at `addrs`, and loads and stores none of them.
structure Clear (s : Arch) (addrs : List Word) : Prop where
  fetch : s.pc ∉ addrs
  data : ∀ addr, s.dataAddr = some addr → ∀ word ∈ addrs, addr.toNat / 4 ≠ word.toNat / 4

section Step

variable {s t : Arch} {breakpoints : List Breakpoint}

-- The same trap in both, or the same effects on patched memories.
inductive SameOutcome (breakpoints : List Breakpoint) : Outcome → Outcome → Prop
  | trap (code : ExceptionCode) (badAddr : Word) :
      SameOutcome breakpoints (.trap code badAddr) (.trap code badAddr)
  | done (gpr : Option (RegIdx × Word)) (store : Option (Word × Word)) (cp0 : Cp0Access)
      (next : Word) {plain mem : Memory} (hmem : Shadows (.start plain) mem breakpoints) :
      SameOutcome breakpoints (.done gpr store plain cp0 next) (.done gpr store mem cp0 next)

theorem sameOutcome_perform {plain mem : Memory} (h : Shadows (.start plain) mem breakpoints)
    (pc : Word) {act : Action}
    (hdata : ∀ addr, act.dataAddr = some addr → ¬Covered breakpoints addr.toNat) :
    SameOutcome breakpoints (act.perform plain pc) (act.perform mem pc) := by
  cases act with
  | trap code => exact .trap code _
  | done gpr cp0 next => exact .done gpr none cp0 next h
  | load op addr dst =>
    simp only [Action.perform, h.loadData_eq op (hdata addr rfl)]
    cases loadData plain op addr with
    | none => exact .trap .AdEL addr
    | some value => exact .done _ none .none _ h
  | store op addr value =>
    have hstore := h.storeData op (hdata addr rfl) value
    simp only [Action.perform]
    cases hp : storeData plain op addr value with
    | none =>
      rw [hp] at hstore
      cases hm : storeData mem op addr value with
      | none => exact .trap .AdES addr
      | some m =>
        rw [hm] at hstore
        cases hstore
    | some p =>
      rw [hp] at hstore
      cases hm : storeData mem op addr value with
      | none =>
        rw [hm] at hstore
        cases hstore
      | some m =>
        rw [hm] at hstore
        obtain ⟨hnext⟩ := hstore
        exact .done none _ .none _ hnext

theorem Patched.fetch_eq (h : Patched s t breakpoints) (hpc : s.pc ∉ breakpoints.map (·.addr)) :
    t.mem.readWord t.pc = s.mem.readWord s.pc := by
  rw [h.pc]
  by_cases ha : s.pc.toNat % 4 = 0
  · apply h.mem.readWord_eq
    rintro ⟨bp, hbp, hcov⟩
    have haligned := h.mem.aligned bp hbp
    have haddr : bp.addr = s.pc := by
      apply BitVec.eq_of_toNat_eq
      obtain ⟨hle, hlt⟩ := hcov
      omega
    exact hpc (haddr ▸ List.mem_map_of_mem hbp)
  · have hnone : ∀ mem : Memory, mem.readWord s.pc = none := by
      intro mem
      rw [Option.eq_none_iff_forall_ne_some]
      intro word hword
      exact ha (readWord_eq_some hword).1
    rw [hnone, hnone]

theorem Patched.outcome (h : Patched s t breakpoints)
    (hclear : Clear s (breakpoints.map (·.addr))) :
    SameOutcome breakpoints s.outcome.2 t.outcome.2 := by
  have hfetch := h.fetch_eq hclear.fetch
  cases hr : s.mem.readWord s.pc with
  | none =>
    rw [hr] at hfetch
    rw [Arch.outcome_fault hr, Arch.outcome_fault hfetch, h.pc]
    exact .trap .AdEL s.pc
  | some raw =>
    rw [hr] at hfetch
    cases hd : Decoder.decode raw with
    | none =>
      rw [Arch.outcome_reserved hr hd, Arch.outcome_reserved hfetch hd]
      exact .trap .RI _
    | some d =>
      have hact : t.action d = s.action d := by
        simp only [Arch.action, Arch.operandA, Arch.operandB, h.regs, h.cp0, h.pc]
      rw [Arch.outcome_decoded hr hd, Arch.outcome_decoded hfetch hd, hact, h.pc]
      refine sameOutcome_perform h.mem s.pc ?_
      rintro addr haddr ⟨bp, hbp, hcov⟩
      have haligned := h.mem.aligned bp hbp
      have hdata : s.dataAddr = some addr := by
        rw [Arch.dataAddr, hr, Option.bind_some, hd, Option.bind_some, haddr]
      apply hclear.data addr hdata bp.addr (List.mem_map_of_mem hbp)
      obtain ⟨hle, hlt⟩ := hcov
      omega

-- One step away from the breakpoints.
theorem Patched.step (h : Patched s t breakpoints) (hclear : Clear s (breakpoints.map (·.addr))) :
    t.trapped = s.trapped ∧ Patched s.step t.step breakpoints := by
  have hout := h.outcome hclear
  cases hs : s.outcome.2 with
  | trap code badAddr =>
    rw [hs] at hout
    cases ht : t.outcome.2 with
    | trap code' badAddr' =>
      rw [ht] at hout
      obtain ⟨⟩ := hout
      refine ⟨by rw [Arch.trapped, Arch.trapped, hs, ht], ?_⟩
      rw [Arch.step_of_trap hs, Arch.step_of_trap ht]
      exact ⟨h.regs, by rw [h.cp0, h.pc], rfl, h.mem⟩
    | done gpr store mem cp0 next =>
      rw [ht] at hout
      cases hout
  | done gpr store plain cp0 next =>
    rw [hs] at hout
    cases ht : t.outcome.2 with
    | trap code' badAddr' =>
      rw [ht] at hout
      cases hout
    | done gpr' store' mem cp0' next' =>
      rw [ht] at hout
      obtain ⟨⟩ := hout
      rename_i hmem
      refine ⟨by rw [Arch.trapped, Arch.trapped, hs, ht], ?_⟩
      rw [Arch.step_of_done hs, Arch.step_of_done ht]
      exact ⟨by rw [h.regs], by rw [h.cp0], rfl, hmem⟩

theorem decode_kBreakWord :
    Decoder.decode kBreakWord = some
      { raw := kBreakWord
        opcode := .SPECIAL
        format := .R
        fields := .r { rs := 0#5, rt := 0#5, rd := 0#5, shamt := 0#5, funct := .BREAK } } := by
  decide

-- The step at a breakpoint.
theorem Patched.outcome_hit (h : Patched s t breakpoints) {bp : Breakpoint}
    (hbp : bp ∈ breakpoints) (hpc : s.pc = bp.addr) : t.outcome.2 = .trap .Bp 0#32 := by
  have hr : t.mem.readWord t.pc = some kBreakWord := by
    rw [h.pc, hpc]
    exact h.mem.readWord_break hbp
  rw [Arch.outcome_decoded hr decode_kBreakWord]
  rfl

end Step

section Run

variable {plain cpu : SingleCycleCpu} {breakpoints : List Breakpoint}

theorem Patched.step_result (h : Patched plain.arch cpu.arch breakpoints)
    (hclear : Clear plain.arch (breakpoints.map (·.addr))) : cpu.step.1 = plain.step.1 := by
  obtain ⟨htrapped, hnext⟩ := h.step hclear
  have hpc : cpu.pc = plain.pc := h.pc
  rw [SingleCycleCpu.step_result, SingleCycleCpu.step_result, htrapped, hnext.pc, hpc]

-- The patched program follows the program until that comes to a breakpoint.
theorem Patched.run (h : Patched plain.arch cpu.arch breakpoints) {n : ℕ}
    (hclear : ∀ i < n, Clear (plain.run i).arch (breakpoints.map (·.addr))) :
    Patched (plain.run n).arch (cpu.run n).arch breakpoints := by
  induction n with
  | zero => exact h
  | succ n ih =>
    have hn := ih fun i hi => hclear i (by omega)
    rw [SingleCycleCpu.run_succ, SingleCycleCpu.run_succ, SingleCycleCpu.step_arch,
      SingleCycleCpu.step_arch]
    exact (hn.step (hclear n (by omega))).2

end Run

end GdbStub

end ClearCore.Mips
