import ClearCore.Mips.Pipelined.Refinement
import ClearCore.Mips.Pipelined.Throughput

-- Programs that modify themselves. The pipeline has fetched the next two instructions when a
-- store writes; later ones are fetched from the memory it has written.

namespace ClearCore.Mips

open Isa

namespace SingleCycleCpu

-- No store of the first `steps` steps writes the word of one of the next two instructions.
def KeepsNextTwo (cpu : SingleCycleCpu) (steps : ℕ) : Prop :=
  ∀ n < steps, (cpu.run n).storeAddr ≠ some (cpu.run (n + 1)).pc ∧
    (cpu.run n).storeAddr ≠ some (cpu.run (n + 2)).pc

instance (cpu : SingleCycleCpu) (steps : ℕ) : Decidable (cpu.KeepsNextTwo steps) :=
  inferInstanceAs (Decidable (∀ n < steps, (cpu.run n).storeAddr ≠ some (cpu.run (n + 1)).pc ∧
    (cpu.run n).storeAddr ≠ some (cpu.run (n + 2)).pc))

end SingleCycleCpu

namespace PipelinedCpu

section Run

variable {cpu : PipelinedCpu} {s : SingleCycleCpu} {k n limit : ℕ}

theorem Tracks.fresh_of_keeps (h : cpu.Tracks s k n) (hkeeps : s.KeepsNextTwo limit)
    (hk : k < limit) : cpu.Fresh (s.run n).arch := by
  have hin := h.inFlight
  have hn := hkeeps n (by omega)
  rw [← SingleCycleCpu.arch_storeAddr] at hn
  constructor
  · intro _
    rw [← s.arch_run_succ]
    exact hn.1
  · intro hx hi _
    simp only [hx, hi, Bool.toNat_true] at hin
    have hn' := (hkeeps (n + 1) (by omega)).1
    rw [← SingleCycleCpu.arch_storeAddr] at hn'
    rw [← s.arch_run_succ, ← s.arch_run_succ]
    exact ⟨hn.2, hn'⟩

theorem executes_of_keeps (hempty : cpu.Empty) (hsame : cpu.arch = s.arch)
    (hkeeps : s.KeepsNextTwo limit) (hk : k ≤ limit) : cpu.Executes s k := by
  have htracks := Simulation.invariant_run (fun c : PipelinedCpu => c.step.2) advance
    (fun k n c => c.Tracks s k n) limit cpu (hempty.tracks hsame)
    fun _ _ _ hk ht => ht.step (ht.fresh_of_keeps hkeeps hk)
  exact executes_of_tracks fun j hj => htracks j (by omega)

end Run

-- The pipeline refines the single-cycle CPU although the program may modify itself, as long as
-- no store reaches the next two instructions.
theorem refines_of_keepsNextTwo (cpu : PipelinedCpu) (s : SingleCycleCpu) (hempty : cpu.Empty)
    (hsame : cpu.arch = s.arch) {limit k : ℕ} (hkeeps : s.KeepsNextTwo limit) (hk : k ≤ limit) :
    (∃ n ≤ k, cpu.retired k = s.completed n ∧ (cpu.run k).regs = (s.run n).regs) ∧
      cpu.traps k <+: s.traps k := by
  have hsteps := cpu.steps_le k
  have hexecutes := executes_of_keeps hempty hsame hkeeps hk
  constructor
  · obtain ⟨n, hn, hret⟩ := hexecutes.retired_of hempty
    refine ⟨n, by omega, hret, ?_⟩
    rw [run_regs, s.run_regs, hret]
    exact congrArg (commitAll · _) (congrArg Arch.regs hsame)
  · refine List.IsPrefix.trans ⟨_, hexecutes.traps_pending hempty⟩ ?_
    rw [s.traps_eq, s.traps_eq]
    exact Simulation.sequence_isPrefix _ hsteps

-- lw $1, 24($0), then sw $1, 16($0) as the instruction `i`, and nops up to addiu $4, $0, 1 at
-- 16. The word stored there is addiu $4, $0, 2. The last instruction is j 20.
def patchProgram (i : ℕ) : Memory :=
  Memory.loadWordsFrom 0#32 0
    (([0x8C010018#32, 0#32, 0#32, 0#32].set i 0xAC010010#32) ++
      [0x24040001#32, 0x08000005#32, 0x24040002#32]) (.ofSize 28)

-- Three instructions before the patched one is soon enough,
theorem refines_of_keepsNextTwo_patch :
    let cpu : PipelinedCpu := { regs := .initial, mem := patchProgram 1 }
    let s : SingleCycleCpu := { regs := .initial, mem := patchProgram 1 }
    (s.run 1).storeAddr = some (s.run 4).pc ∧ (cpu.run 10).regs.read 4#5 = 2#32 ∧
      ∃ n ≤ 10, cpu.retired 10 = s.completed n ∧ (cpu.run 10).regs = (s.run n).regs := by
  intro cpu s
  have hkeeps : s.KeepsNextTwo 10 := by decide
  have hrefines := refines_of_keepsNextTwo cpu s ⟨rfl, rfl, rfl, rfl⟩ rfl hkeeps le_rfl
  exact ⟨by decide, by decide, hrefines.1⟩

set_option maxRecDepth 2000 in
-- and two before is not: the pipeline executes the word as it was.
example :
    let cpu : PipelinedCpu := { regs := .initial, mem := patchProgram 2 }
    let s : SingleCycleCpu := { regs := .initial, mem := patchProgram 2 }
    (s.run 2).storeAddr = some (s.run 4).pc ∧ (cpu.run 9).regs.read 4#5 = 1#32 ∧
      ∀ n ≤ 9, (s.run n).regs.read 4#5 ≠ 1#32 := by
  intro cpu s
  exact ⟨by decide, by decide, by decide⟩

end PipelinedCpu

end ClearCore.Mips
