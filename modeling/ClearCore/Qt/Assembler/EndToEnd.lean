import ClearCore.Mips.Pipelined.Refinement
import ClearCore.Mips.Pipelined.Throughput
import ClearCore.Qt.Assembler.Execution

-- An assembled program from its text to the state in which both CPU models halt.

namespace ClearCore.Qt.Assembler

open Isa Mips

-- The source machine comes to a jump to itself, its line `n` to be executed, and is in the
-- state `final` after it. No line before has led to itself.
structure Halts (lines : List SourceLine) (start : Arch) (n : ℕ) (final : Arch) : Prop where
  run : sourceRun lines start (n + 1) = some final
  jump : ∃ mn ops, lineAt lines final.pc = some (mn, ops) ∧ isJump mn
  self : (sourceRun lines start n).map (·.pc) = some final.pc
  first : ∀ m < n, (sourceRun lines start m).map (·.pc) ≠ (sourceRun lines start (m + 1)).map (·.pc)

section SelfJump

variable {source : Text} {s : Arch}

theorem encodeJump_word {labels : List (Text × Word)} {op : Opcode} {ops : List Text} {w : Word}
    (h : encodeJump labels op.code ops = .ok w) :
    ∃ target, target ≤ kJumpTargetMax ∧ w = encJ op.code target := by
  unfold encodeJump at h
  split at h
  · split at h
    · rename_i imm himm
      split at h
      · cases h
      · rename_i hrange
        have hmax : kJumpTargetMax.toInt = 0x03FFFFFF := rfl
        have hmax' : kJumpTargetMax.toNat = 0x03FFFFFF := rfl
        have hnat := toNat_of_nonneg (v := imm) (by omega)
        refine ⟨imm, ?_, (Except.ok.inj h).symm⟩
        rw [BitVec.le_def]
        omega
    · split at h
      · cases h
      · split at h
        · cases h
        · rename_i hmax
          exact ⟨_, BitVec.not_lt.mp hmax, (Except.ok.inj h).symm⟩
  · cases h

-- A jump line that leads to itself is a jump the CPU spins on.
theorem TextLoaded.spins (h : TextLoaded source s.mem) {mn : Text} {ops : List Text}
    (hline : lineAt (sourceLines source) s.pc = some (mn, ops)) (hmn : isJump mn)
    (hself : s.step.pc = s.pc) : s.Spins := by
  obtain ⟨mn', ops', w, hline', hencode, hfetch⟩ := h.fetch (by rw [hline]; rfl)
  rw [hline] at hline'
  obtain ⟨rfl, rfl⟩ := Prod.mk.inj (Option.some.inj hline')
  obtain ⟨op, hJ, heq⟩ := encodeLine_isJump hmn
  rw [heq] at hencode
  obtain ⟨target, htarget, rfl⟩ := encodeJump_word hencode
  have hd := decode_encJ hJ htarget
  refine ⟨_, hfetch, _, hd, rfl, ?_⟩
  have hout := Arch.outcome_decoded hfetch hd
  have hstep := Arch.step_of_done (congrArg Prod.snd hout)
  rw [hstep] at hself
  exact hself

end SelfJump

section Run

variable {source : Text} {cpu : SingleCycleCpu} {n : ℕ}

-- The exception vector is behind any text.
theorem TextLoaded.not_trapped {s : Arch} (h : TextLoaded source s.mem)
    (hline : (lineAt (sourceLines source) s.step.pc).isSome = true) : s.trapped = false := by
  by_contra htrapped
  obtain ⟨code, badAddr, hout⟩ : ∃ code badAddr, s.outcome.2 = .trap code badAddr := by
    rw [Arch.trapped] at htrapped
    cases hout : s.outcome.2 with
    | trap code badAddr => exact ⟨code, badAddr, rfl⟩
    | done => simp [hout] at htrapped
  have hvector : (kExceptionVector : Word).toNat = 0x80000180 := rfl
  obtain ⟨hidx, -⟩ := lineAt_isSome hline
  have hsmall := h.small
  rw [Arch.step_of_trap hout] at hidx
  dsimp only at hidx
  omega

theorem InText.noSelfModification (h : InText source cpu n) : cpu.NoSelfModification n := by
  intro j hj i hij hstore
  have hle := (h i (by omega)).2 _ hstore
  obtain ⟨hidx, hpc, -⟩ := lineAt_isSome (h j hj).1
  rw [textSize] at hle
  omega

-- Only the last step can trap: a trap leads to the exception vector, which is no line.
theorem InText.not_trapped (h : InText source cpu n) (hload : TextLoaded source cpu.mem) {m : ℕ}
    (hm : m + 1 < n) : (cpu.run m).arch.trapped = false := by
  have hin : InText source cpu m := fun i hi => h i (by omega)
  refine (hin.textLoaded hload).not_trapped ?_
  rw [← SingleCycleCpu.arch_run_succ]
  exact (h (m + 1) hm).1

theorem length_retirement {s : Arch} (h : s.trapped = false) : s.retirement.toList.length = 1 := by
  rw [Arch.trapped] at h
  rw [Arch.retirement]
  rcases hout : s.outcome with ⟨raw, code | _⟩
  · simp [hout] at h
  · rfl

variable {final : Arch}

theorem Halts.inText (h : Halts (sourceLines source) cpu.arch n final)
    (hload : TextLoaded source cpu.mem) :
    (cpu.run (n + 1)).arch = final ∧ InText source cpu (n + 1) :=
  (sourceRun_iff hload (n + 1) final).mp h.run

theorem Halts.pc_eq (h : Halts (sourceLines source) cpu.arch n final)
    (hload : TextLoaded source cpu.mem) {m : ℕ} (hm : m ≤ n + 1) :
    (sourceRun (sourceLines source) cpu.arch m).map (·.pc) = some (cpu.run m).pc := by
  obtain ⟨-, hin⟩ := h.inText hload
  have hin' : InText source cpu m := fun i hi => hin i (by omega)
  rw [(sourceRun_iff hload m _).mpr ⟨rfl, hin'⟩]
  rfl

theorem Halts.spins (h : Halts (sourceLines source) cpu.arch n final)
    (hload : TextLoaded source cpu.mem) : (cpu.run n).arch.Spins := by
  obtain ⟨rfl, hin⟩ := h.inText hload
  have hin' : InText source cpu n := fun i hi => hin i (by omega)
  have hself : (cpu.run n).pc = (cpu.run (n + 1)).pc := by
    have hpc := h.pc_eq hload (Nat.le_succ n)
    rw [h.self] at hpc
    exact (Option.some.inj hpc).symm
  obtain ⟨mn, ops, hline, hmn⟩ := h.jump
  have hline' : lineAt (sourceLines source) (cpu.run n).arch.pc = some (mn, ops) := by
    rw [SingleCycleCpu.arch_pc, hself]
    exact hline
  refine (hin'.textLoaded hload).spins hline' hmn ?_
  rw [← SingleCycleCpu.arch_run_succ]
  exact hself.symm

-- Nothing traps on the way or later.
theorem Halts.not_trapped (h : Halts (sourceLines source) cpu.arch n final)
    (hload : TextLoaded source cpu.mem) (m : ℕ) : (cpu.run m).arch.trapped = false := by
  by_cases hm : m < n
  · exact (h.inText hload).2.not_trapped hload (by omega)
  · exact (cpu.run_spins (h.spins hload) (by omega)).1.step_eq.1

theorem Halts.moves (h : Halts (sourceLines source) cpu.arch n final)
    (hload : TextLoaded source cpu.mem) {m : ℕ} (hm : m < n) :
    (cpu.run m).arch.step.pc ≠ (cpu.run m).pc := by
  have hfirst := h.first m hm
  rw [h.pc_eq hload (by omega), h.pc_eq hload (by omega), ne_eq, Option.some.injEq] at hfirst
  rw [← SingleCycleCpu.arch_run_succ]
  exact Ne.symm hfirst

-- The single-cycle CPU is Ok in every step before, and halts in the state of the source machine.
theorem Halts.singleCycle (h : Halts (sourceLines source) cpu.arch n final)
    (hload : TextLoaded source cpu.mem) :
    (∀ m < n, (cpu.run m).step.1 = .Ok) ∧ (cpu.run n).step.1 = .Halt ∧
      (cpu.run n).step.2.arch = final := by
  refine ⟨fun m hm => ?_, ?_, ?_⟩
  · rw [SingleCycleCpu.step_result, h.not_trapped hload m]
    simp [h.moves hload hm]
  · rw [SingleCycleCpu.step_result, h.not_trapped hload n]
    obtain ⟨-, -, -, hpc, -⟩ := (h.spins hload).step_eq
    simp [hpc]
  · rw [← SingleCycleCpu.run_succ]
    exact (h.inText hload).1

theorem Halts.noSelfModification (h : Halts (sourceLines source) cpu.arch n final)
    (hload : TextLoaded source cpu.mem) (steps : ℕ) : cpu.NoSelfModification steps := by
  exact cpu.noSelfModification_of_spins (h.spins hload)
    (h.inText hload).2.noSelfModification steps

-- Without traps every step completes an instruction.
theorem Halts.length_completed (h : Halts (sourceLines source) cpu.arch n final)
    (hload : TextLoaded source cpu.mem) (m : ℕ) : (cpu.completed m).length = m := by
  induction m with
  | zero => rfl
  | succ m ih =>
    rw [cpu.completed_succ, List.length_append, ih, length_retirement (h.not_trapped hload m)]

theorem Halts.traps_eq (h : Halts (sourceLines source) cpu.arch n final)
    (hload : TextLoaded source cpu.mem) (m : ℕ) : cpu.traps m = [] := by
  rw [cpu.traps_eq]
  induction m with
  | zero => rfl
  | succ m ih =>
    rw [Simulation.sequence_succ, ih, Arch.trapRecord, h.not_trapped hload m]
    rfl

end Run

-- The pipeline, started empty in the same state.
section Pipeline

variable {source : Text} {cpu : SingleCycleCpu} {p : PipelinedCpu} {n : ℕ} {final : Arch}

theorem Halts.pipelined_traps (h : Halts (sourceLines source) cpu.arch n final)
    (hload : TextLoaded source cpu.mem) (hempty : p.Empty) (hsame : p.arch = cpu.arch) (k : ℕ) :
    p.traps k = [] := by
  have htraps := p.traps_pending hempty hsame (h.noSelfModification hload k) le_rfl
  rw [h.traps_eq hload] at htraps
  exact (List.append_eq_nil_iff.mp htraps).1

-- Cycle `k` halts just when it retires the jump that the source machine has come to.
theorem Halts.pipelined_halt_iff (h : Halts (sourceLines source) cpu.arch n final)
    (hload : TextLoaded source cpu.mem) (hempty : p.Empty) (hsame : p.arch = cpu.arch) (k : ℕ) :
    (p.run k).step.1 = .Halt ↔ n ≤ (p.retired k).length ∧
      (p.retired (k + 1)).length = (p.retired k).length + 1 := by
  have hfresh := h.noSelfModification hload
  rw [p.halt_iff hempty hsame (hfresh k) le_rfl]
  constructor
  · rintro ⟨r, hr, hself⟩
    obtain ⟨m, -, hm, hm', hret⟩ := p.retiring_step hempty hsame (hfresh (k + 1)) (by omega) hr
    rw [hm, hm', h.length_completed hload, h.length_completed hload]
    refine ⟨?_, rfl⟩
    by_contra hlt
    obtain ⟨-, -, -, hpc, -⟩ := (PipelinedCpu.retirement_eq_some hret hself).step_eq
    exact h.moves hload (by omega) hpc
  · rintro ⟨hn, hlen⟩
    rw [p.retired_succ, List.length_append] at hlen
    obtain ⟨r, hr⟩ := List.length_eq_one_iff.mp (by omega : (p.watched k).retiring.toList.length = 1)
    have hr := Option.toList_eq_singleton_iff.mp hr
    obtain ⟨m, -, hm, -, hret⟩ := p.retiring_step hempty hsame (hfresh (k + 1)) (by omega) hr
    rw [hm, h.length_completed hload] at hn
    refine ⟨r, hr, ?_⟩
    obtain ⟨raw, hraw, hself⟩ := (cpu.run_spins (h.spins hload) hn).1
    obtain ⟨d, hd, -⟩ := id hself
    rw [Arch.retirement, Arch.outcome_decoded hraw hd] at hret
    split at hret
    · cases hret
    · rename_i heq
      obtain rfl := Option.some.inj hret
      obtain ⟨rfl, -⟩ := Prod.mk.inj heq
      exact hself

-- The pipeline is Ok until it halts, within four cycles for each line and some to fill it.
theorem Halts.pipelined (h : Halts (sourceLines source) cpu.arch n final)
    (hload : TextLoaded source cpu.mem) (hempty : p.Empty) (hsame : p.arch = cpu.arch) :
    ∃ k < 4 * (n + 4), (∀ i < k, (p.run i).step.1 = .Ok) ∧ (p.run k).step.1 = .Halt ∧
      (p.run k).step.2.regs = final.regs ∧ (p.run k).step.2.mem = final.mem ∧
      (p.run k).step.2.cp0 = final.cp0 := by
  have hfresh := h.noSelfModification hload
  have hgrow : ∀ i, (p.retired (i + 1)).length ≤ (p.retired i).length + 1 := by
    intro i
    have hone := PipelinedCpu.length_retiring (p.watched i)
    have hle := Bool.toNat_le (p.watched i).cpu.memWb.valid
    rw [p.retired_succ, List.length_append]
    omega
  have hmany : n < (p.retired (4 * (n + 4))).length := by
    have hthroughput := (p.throughput (4 * (n + 4))).2.1
    rw [h.pipelined_traps hload hempty hsame, List.length_nil] at hthroughput
    omega
  obtain ⟨k, hk, hat, hnext, hbelow⟩ :=
    Simulation.exists_crossing (fun i => (p.retired i).length) hgrow (Nat.zero_le n) hmany
  have hhalt := (h.pipelined_halt_iff hload hempty hsame k).mpr ⟨hat.ge, by rw [hnext, hat]⟩
  refine ⟨k, hk, fun i hi => ?_, hhalt, ?_⟩
  · -- neither a trap nor the jump, which comes later
    refine PipelinedCpu.step_eq_ok ?_ ?_
    · intro hx
      obtain ⟨trap, htrap⟩ := (p.run i).step_exception_iff.mp hx
      have hnone := h.pipelined_traps hload hempty hsame (i + 1)
      rw [p.traps_succ, PipelinedCpu.raised, htrap] at hnone
      simp at hnone
    · intro hh
      obtain ⟨hle, hlast⟩ := (h.pipelined_halt_iff hload hempty hsame i).mp hh
      have hbefore := hbelow (i + 1) (by omega)
      omega
  · obtain ⟨m, -, -, hm, -, hregs, hmem, hcp0⟩ :=
      p.halt_state hempty hsame (hfresh (k + 1)) (by omega) hhalt
    rw [hm, h.length_completed hload] at hat
    obtain rfl := hat
    obtain ⟨rfl, -⟩ := h.inText hload
    rw [← p.run_succ]
    exact ⟨hregs, hmem, hcp0⟩

end Pipeline

-- An instruction line traps for an overflow or a bad data address only.
section Traps

variable {s : Arch} {o : Operands} {code : ExceptionCode} {badAddr : Word}

theorem setSigned_trap {dst : RegIdx} {v : ℤ}
    (h : Reference.setSigned s dst v = .trap code badAddr) : code = .Ov := by
  unfold Reference.setSigned at h
  split at h
  · cases h
  · exact (Outcome.trap.inj h).1.symm

theorem load_trap {dst : RegIdx} {addr : Word} {count : ℕ}
    (h : Reference.load s dst addr count = .trap code badAddr) : code = .AdEL := by
  unfold Reference.load at h
  split at h
  · cases h
  · exact (Outcome.trap.inj h).1.symm

theorem store_trap {addr value : Word} (h : Reference.store s addr value = .trap code badAddr) :
    code = .AdES := by
  unfold Reference.store at h
  split at h
  · cases h
  · exact (Outcome.trap.inj h).1.symm

theorem execute_trap {operation : Operation}
    (h : execute s o operation = some (.trap code badAddr)) :
    code = .Ov ∨ code = .AdEL ∨ code = .AdES := by
  cases operation with
  | cop0 => cases h
  | special funct =>
    cases funct with
    | ADD | SUB => exact .inl (setSigned_trap (Option.some.inj h))
    | _ => cases h
  | other op =>
    cases op with
    | ADDI => exact .inl (setSigned_trap (Option.some.inj h))
    | LW | LBU | LHU => exact .inr (.inl (load_trap (Option.some.inj h)))
    | SW => exact .inr (.inr (store_trap (Option.some.inj h)))
    | BEQ | BNE =>
      have h := Option.some.inj h
      split at h <;> cases h
    | _ => cases h

theorem sourceOutcome_trap {lines : List SourceLine}
    (h : sourceOutcome lines s = some (.trap code badAddr)) :
    code = .Ov ∨ code = .AdEL ∨ code = .AdES := by
  obtain ⟨line, -, h⟩ := Option.bind_eq_some_iff.mp h
  obtain ⟨form, -, h⟩ := Option.bind_eq_some_iff.mp h
  obtain ⟨o, -, h⟩ := Option.bind_eq_some_iff.mp h
  exact execute_trap h

end Traps

section InText

variable {source : Text} {cpu : SingleCycleCpu} {p : PipelinedCpu} {n : ℕ}

theorem InText.length_completed (h : InText source cpu n) (hload : TextLoaded source cpu.mem)
    {m : ℕ} (hm : m < n) : (cpu.completed m).length = m := by
  induction m with
  | zero => rfl
  | succ m ih =>
    rw [cpu.completed_succ, List.length_append, ih (by omega),
      length_retirement (h.not_trapped hload hm)]

-- The state after `m` steps is that after as many completed instructions, but for a trap.
theorem InText.completed_length_eq (h : InText source cpu n) (hload : TextLoaded source cpu.mem)
    {m : ℕ} (hm : m ≤ n) :
    (cpu.completed m).length ≤ m ∧ cpu.completed (cpu.completed m).length = cpu.completed m := by
  rcases Nat.lt_or_eq_of_le hm with hlt | rfl
  · rw [h.length_completed hload hlt]
    exact ⟨le_rfl, rfl⟩
  · cases m with
    | zero => exact ⟨le_rfl, rfl⟩
    | succ m =>
      have hbefore := h.length_completed hload (Nat.lt_succ_self m)
      have hone := PipelinedCpu.retirement_length (cpu.run m).arch
      have hlength : (cpu.completed (m + 1)).length =
          m + (cpu.run m).arch.retirement.toList.length := by
        rw [cpu.completed_succ, List.length_append, hbefore]
      refine ⟨by omega, ?_⟩
      cases hret : (cpu.run m).arch.retirement with
      | none =>
        have hlength : (cpu.completed (m + 1)).length = m := by simpa [hret] using hlength
        rw [hlength, cpu.completed_succ, hret, Option.toList_none, List.append_nil]
      | some r =>
        rw [hret, Option.toList_some, List.length_singleton] at hlength
        rw [hlength]

-- Only its last line can raise a trap.
theorem InText.trap_source (h : InText source cpu n) (hload : TextLoaded source cpu.mem) {m : ℕ}
    (hm : m ≤ n) {t : TrapRecord} (ht : t ∈ cpu.traps m) :
    ∃ i badAddr, n = i + 1 ∧ t.pc = (cpu.run i).pc ∧
      sourceOutcome (sourceLines source) (cpu.run i).arch = some (.trap t.code badAddr) := by
  rw [cpu.traps_eq] at ht
  induction m with
  | zero => exact absurd ht List.not_mem_nil
  | succ m ih =>
    rw [Simulation.sequence_succ] at ht
    rcases List.mem_append.mp ht with ht | ht
    · exact ih (by omega) ht
    · rw [Option.mem_toList, Arch.trapRecord] at ht
      split at ht
      · rename_i htrapped
        obtain rfl := Option.some.inj ht
        have hlast : n = m + 1 := by
          by_contra hne
          rw [h.not_trapped hload (by omega)] at htrapped
          cases htrapped
        obtain ⟨code, badAddr, hout⟩ : ∃ code badAddr,
            (cpu.run m).arch.outcome.2 = .trap code badAddr := by
          rw [Arch.trapped] at htrapped
          cases hout : (cpu.run m).arch.outcome.2 with
          | trap code badAddr => exact ⟨code, badAddr, rfl⟩
          | done => simp [hout] at htrapped
        have hin : InText source cpu m := fun i hi => h i (by omega)
        refine ⟨m, badAddr, hlast, rfl, ?_⟩
        rw [(hin.textLoaded hload).sourceOutcome_eq (h m (by omega)).1, Arch.step_of_trap hout, hout]
        rfl
      · cases ht

end InText

-- As long as EX has taken no more instructions than the source machine executes, the pipeline has
-- the registers of the source machine after as many lines as it has retired. It raises no trap
-- but that of the last line.
theorem pipelined_follows {source : Text} {p : PipelinedCpu} {n k : ℕ} {final : Arch}
    (hload : TextLoaded source p.mem) (hempty : p.Empty)
    (hrun : sourceRun (sourceLines source) p.arch n = some final) (hk : p.steps k ≤ n) :
    (sourceRun (sourceLines source) p.arch (p.retired k).length).map (·.regs) =
        some (p.run k).regs ∧
      ∀ t ∈ p.traps k, ∃ m last badAddr, n = m + 1 ∧
        sourceRun (sourceLines source) p.arch m = some last ∧ t.pc = last.pc ∧
        sourceOutcome (sourceLines source) last = some (.trap t.code badAddr) ∧
        (t.code = .Ov ∨ t.code = .AdEL ∨ t.code = .AdES) := by
  let s : SingleCycleCpu := { regs := p.regs, mem := p.mem, cp0 := p.cp0, pc := p.pc }
  have hsame : p.arch = s.arch := rfl
  have hload' : TextLoaded source s.mem := hload
  obtain ⟨-, hin⟩ := (sourceRun_iff hload' n final).mp hrun
  have hrun' : ∀ {m : ℕ}, m ≤ n →
      sourceRun (sourceLines source) s.arch m = some (s.run m).arch := fun hm =>
    (sourceRun_iff hload' _ _).mpr ⟨rfl, fun i hi => hin i (by omega)⟩
  have hexecutes := p.executes hempty hsame hin.noSelfModification hk
  rw [hsame]
  constructor
  · obtain ⟨m, hm, hret⟩ := hexecutes.retired_of hempty
    obtain ⟨hle, heq⟩ := hin.completed_length_eq hload' (m := m) (by omega)
    rw [hret, hrun' (by omega), p.run_regs, hret, Option.map_some, SingleCycleCpu.arch_regs,
      s.run_regs, heq]
  · intro t ht
    have htraps := hexecutes.traps_pending hempty
    have ht' : t ∈ s.traps (p.steps k) := by
      rw [← htraps]
      exact List.mem_append_left _ ht
    obtain ⟨m, badAddr, rfl, hpc, hout⟩ := hin.trap_source hload' hk ht'
    exact ⟨m, (s.run m).arch, badAddr, rfl, hrun' (by omega), hpc, hout, sourceOutcome_trap hout⟩

-- A load from the address that the line before has put into its base register.
def misaligned : Text := "addiu $t0, $0, 2\nlw $t1, 0($t0)".toList

theorem pipelined_follows_misaligned :
    let p : PipelinedCpu :=
      { PipelinedCpu.create 16 with
        mem := .loadWordsFrom 0#32 0 (assemble misaligned).words (.ofSize 16) }
    (p.retired 6).length = 1 ∧ (p.traps 6).map (·.code) = [.AdEL] ∧
      (sourceRun (sourceLines misaligned) p.arch 1).map (·.regs) = some (p.run 6).regs ∧
      ∀ t ∈ p.traps 6, ∃ last badAddr, sourceRun (sourceLines misaligned) p.arch 1 = some last ∧
        t.pc = last.pc ∧
        sourceOutcome (sourceLines misaligned) last = some (.trap t.code badAddr) := by
  intro p
  have hwords : (Memory.ofSize 16).loadWords 0#32 (assemble misaligned).words =
      some (true, p.mem) := rfl
  have hload : TextLoaded misaligned p.mem := .of_loadWords (by decide) (by decide) hwords
  have hrun : (sourceRun (sourceLines misaligned) p.arch 2).isSome = true := by decide
  have hretired : (p.retired 6).length = 1 := by decide
  obtain ⟨final, hfinal⟩ := Option.isSome_iff_exists.mp hrun
  have hfollows := pipelined_follows (k := 6) hload ⟨rfl, rfl, rfl, rfl⟩ hfinal (by decide)
  rw [hretired] at hfollows
  refine ⟨hretired, by decide, hfollows.1, fun t ht => ?_⟩
  obtain ⟨m, last, badAddr, hm, hlast, hpc, hout, -⟩ := hfollows.2 t ht
  obtain rfl : m = 1 := by omega
  exact ⟨last, badAddr, hlast, hpc, hout⟩

-- A program whose source machine halts: both models are Ok up to a Halt, with the registers,
-- memory and CP0 of the source machine then.
theorem program_halts {source : Text} {s s' : SingleCycleCpu} {p p' : PipelinedCpu} {n : ℕ}
    {final : Arch} (hok : (assemble source).ok = true)
    (hsmall : (assemble source).words.length < 2 ^ 26)
    (hs : s.loadProgram (assemble source).words 0#32 = some (true, s'))
    (hp : p.loadProgram (assemble source).words 0#32 = some (true, p')) (hempty : p.Empty)
    (hsame : p.arch = s.arch) (h : Halts (sourceLines source) s'.arch n final) :
    ((∀ m < n, (s'.run m).step.1 = .Ok) ∧ (s'.run n).step.1 = .Halt ∧
      (s'.run n).step.2.arch = final) ∧
    ∃ k < 4 * (n + 4), (∀ i < k, (p'.run i).step.1 = .Ok) ∧ (p'.run k).step.1 = .Halt ∧
      (p'.run k).step.2.regs = final.regs ∧ (p'.run k).step.2.mem = final.mem ∧
      (p'.run k).step.2.cp0 = final.cp0 := by
  obtain ⟨mem, hwords, rfl⟩ := SingleCycleCpu.loadProgram_eq hs
  obtain ⟨mem', hwords', rfl⟩ := PipelinedCpu.loadProgram_eq hp
  have hload : TextLoaded source mem := .of_loadWords hok hsmall hwords
  have hregs : p.regs = s.regs := congrArg Arch.regs hsame
  have hcp0 : p.cp0 = s.cp0 := congrArg Arch.cp0 hsame
  rw [show p.mem = s.mem from congrArg Arch.mem hsame, hwords] at hwords'
  obtain rfl : mem = mem' := congrArg Prod.snd (Option.some.inj hwords')
  refine ⟨h.singleCycle hload, h.pipelined hload ⟨hempty.1, hempty.2, hempty.3, hempty.4⟩ ?_⟩
  simp only [PipelinedCpu.arch, SingleCycleCpu.arch, hregs, hcp0]

theorem program_halts_countdown :
    ∃ s p final, (SingleCycleCpu.create 16).loadProgram (assemble countdown).words 0#32 =
        some (true, s) ∧
      (PipelinedCpu.create 16).loadProgram (assemble countdown).words 0#32 = some (true, p) ∧
      (s.run 3).step.1 = .Halt ∧ (s.run 3).step.2.arch = final ∧
      ∃ k < 4 * (3 + 4), (p.run k).step.1 = .Halt ∧ (p.run k).step.2.regs = final.regs := by
  let mem : Memory := .loadWordsFrom 0#32 0 (assemble countdown).words (.ofSize 16)
  let s : SingleCycleCpu := { SingleCycleCpu.create 16 with mem }
  let p : PipelinedCpu := { PipelinedCpu.create 16 with mem }
  have hs : (SingleCycleCpu.create 16).loadProgram (assemble countdown).words 0#32 =
      some (true, s) := rfl
  have hp : (PipelinedCpu.create 16).loadProgram (assemble countdown).words 0#32 =
      some (true, p) := rfl
  have hrun : (sourceRun (sourceLines countdown) s.arch 4).map (·.pc) = some 12#32 := by decide
  obtain ⟨final, hfinal, hpc⟩ := Option.map_eq_some_iff.mp hrun
  have h : Halts (sourceLines countdown) s.arch 3 final := by
    refine ⟨hfinal, ⟨"j".toList, ["end".toList], ?_, .inl rfl⟩, ?_, by decide⟩
    · rw [hpc]
      decide
    · rw [hpc]
      decide
  obtain ⟨⟨-, hhalt, hstate⟩, k, hk, -, hhalt', hregs, -⟩ := program_halts (by decide) (by decide)
    hs hp ⟨rfl, rfl, rfl, rfl⟩ rfl h
  exact ⟨s, p, final, hs, hp, hhalt, hstate, k, hk, hhalt', hregs⟩

end ClearCore.Qt.Assembler
