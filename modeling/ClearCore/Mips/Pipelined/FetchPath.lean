import ClearCore.Mips.Pipelined.CycleCount
import ClearCore.Mips.Pipelined.Redirect

-- Where the fetch address of the pipeline stands on the path of the reference machine, and
-- where it strays from it.

namespace ClearCore.Mips

open Isa

-- Whether EX redirects the fetch for an instruction with these operands.
def DecodedInstr.redirects (d : DecodedInstr) (a b : Word) : Bool :=
  match d.opcode with
  | .BEQ => decide (a = b)
  | .BNE => decide (a ≠ b)
  | .SPECIAL => decide (d.r.funct = .JR ∨ d.r.funct = .JALR)
  | .COP0 => decide (d.r.rs = 0x10#5 ∧ d.r.funct = .ERET)
  | _ => false

theorem DecodedInstr.redirects_congr {raw : Word} {d : DecodedInstr}
    (hd : Decoder.decode raw = some d) {a a' b b' : Word}
    (ha : (sourceRegisters d).a ≠ none → a = a') (hb : (sourceRegisters d).b ≠ none → b = b') :
    d.redirects a b = d.redirects a' b' := by
  cases Decoder.decode_decoded hd with
  | special r himpl => rfl
  | cop0 r => rfl
  | immediate op i hop =>
    cases op with
    | BEQ | BNE =>
      obtain rfl := ha (by simp [sourceRegisters])
      obtain rfl := hb (by simp [sourceRegisters])
      rfl
    | _ => rfl
  | jump op hop => rcases Decoder.formatOf_eq_J hop with rfl | rfl <;> rfl

namespace PipelinedCpu

-- EX redirects for branches, register jumps and ERET only.
theorem executeDecoded_sequential (cp0 : Cp0) {inp : IdEx} (ops : ExOperands)
    (hbranch : ¬(inp.decoded.format = .I ∧ (inp.decoded.opcode = .BEQ ∨ inp.decoded.opcode = .BNE)))
    (hjump : ¬(inp.decoded.opcode = .SPECIAL ∧
      (inp.decoded.r.funct = .JR ∨ inp.decoded.r.funct = .JALR)))
    (heret : inp.decoded.opcode ≠ .COP0) : (executeDecoded cp0 inp ops).redirect = none := by
  simp only [executeDecoded, hbranch, hjump, heret, if_false]
  split_ifs
  all_goals first | rfl | skip
  cases Alu.control inp.decoded with
  | none => rfl
  | some aluop =>
    dsimp only
    split <;> rfl

theorem executeDecoded_redirect (cp0 : Cp0) (inp : IdEx) (ops : ExOperands) {raw : Word}
    (hd : Decoder.decode raw = some inp.decoded) :
    (executeDecoded cp0 inp ops).redirect.isSome = inp.decoded.redirects ops.a ops.b := by
  generalize hdec : inp.decoded = d at hd
  cases Decoder.decode_decoded hd with
  | special r himpl =>
    obtain ⟨rs, rt, rd, shamt, funct⟩ := r
    by_cases hjump : funct = .JR ∨ funct = .JALR
    · rcases hjump with rfl | rfl <;>
        simp [executeDecoded, hdec, DecodedInstr.redirects, DecodedInstr.r]
    · rw [executeDecoded_sequential cp0 ops (by simp [hdec])
        (by simpa [hdec, DecodedInstr.r] using hjump) (by simp [hdec])]
      exact (decide_eq_false hjump).symm
  | cop0 r =>
    simp only [executeDecoded, hdec, DecodedInstr.redirects, DecodedInstr.r]
    by_cases hmf : r.rs = 0x00#5
    · simp [hmf]
    by_cases hmt : r.rs = 0x04#5
    · simp [hmt]
    by_cases her : r.rs = 0x10#5 ∧ r.funct = .ERET
    · simp [her]
    · simp [hmf, hmt, her]
  | immediate op i hop =>
    by_cases hb : op = .BEQ ∨ op = .BNE
    · rcases hb with rfl | rfl <;>
        by_cases he : ops.a = ops.b <;>
        simp [executeDecoded, hdec, DecodedInstr.redirects, DecodedInstr.i, subu_zero, he]
    · have hspecial : op ≠ .SPECIAL := by
        rintro rfl
        cases hop
      have hcop : op ≠ .COP0 := by
        rintro rfl
        cases hop
      rw [executeDecoded_sequential cp0 ops (by simpa [hdec] using hb) (by simp [hdec, hspecial])
        (by simpa [hdec] using hcop)]
      cases op with
      | BEQ | BNE => simp at hb
      | SPECIAL | COP0 => contradiction
      | _ => rfl
  | jump op hop =>
    rcases Decoder.formatOf_eq_J hop with rfl | rfl <;>
      simp [executeDecoded, hdec, DecodedInstr.redirects]

end PipelinedCpu

namespace Arch

def instr (arch : Arch) : Option DecodedInstr := (arch.mem.readWord arch.pc).bind Decoder.decode

def redirects (arch : Arch) : Bool :=
  arch.instr.any fun d => d.redirects (arch.operandA d) (arch.operandB d)

def jumps (arch : Arch) : Bool := arch.instr.any fun d => decide (d.format = .J)

-- The instruction goes on to the next address, and is followed there without a flush.
def falls (arch : Arch) : Bool := !arch.trapped && !arch.redirects && !arch.jumps

-- A load or store that MEM raises the trap of.
def trapsInMem (arch : Arch) : Bool :=
  arch.trapped && arch.instr.any fun d => ((arch.action d).trapOf arch.pc).isNone

-- The hazard unit keeps `next` back behind the load at PC.
def stalls (arch next : Arch) : Bool :=
  loadUseHazard (PipelinedCpu.decode arch.regs (PipelinedCpu.fetch arch.mem arch.pc)).next
    (PipelinedCpu.fetch next.mem next.pc)

theorem instr_eq {arch : Arch} {raw : Word} {d : DecodedInstr}
    (hr : arch.mem.readWord arch.pc = some raw) (hd : Decoder.decode raw = some d) :
    arch.instr = some d := by
  rw [instr, hr, Option.bind_some, hd]

-- What an instruction that does not trap comes to, as EX sees it.
theorem step_pc_of_performs {arch : Arch} {raw : Word} {d : DecodedInstr}
    (hr : arch.mem.readWord arch.pc = some raw) (hd : Decoder.decode raw = some d)
    (hnt : arch.trapped = false) :
    (arch.action d).trapOf arch.pc = none ∧ arch.step.pc = (arch.action d).nextPc arch.pc := by
  have hout := congrArg Prod.snd (outcome_decoded hr hd)
  cases hact : (arch.action d).perform arch.mem arch.pc with
  | trap code badAddr => simp [trapped, hout, hact] at hnt
  | done gpr store mem cp0 next =>
    rw [hact] at hout
    obtain ⟨-, hnext⟩ := Action.perform_done_fields hact
    refine ⟨?_, by rw [step_of_done hout, hnext]⟩
    cases hac : arch.action d with
    | trap code => simp [hac, Action.perform] at hact
    | load | store | done => rfl

theorem instr_of_not_trapped {arch : Arch} (hnt : arch.trapped = false) :
    ∃ raw d, arch.mem.readWord arch.pc = some raw ∧ Decoder.decode raw = some d := by
  cases hr : arch.mem.readWord arch.pc with
  | none => simp [trapped, outcome_fault hr] at hnt
  | some raw =>
    cases hd : Decoder.decode raw with
    | none => simp [trapped, outcome_reserved hr hd] at hnt
    | some d => exact ⟨raw, d, rfl, hd⟩

theorem jumps_decoded {arch : Arch} (h : arch.jumps = true) :
    ∃ raw d, arch.mem.readWord arch.pc = some raw ∧ Decoder.decode raw = some d ∧
      d.format = .J := by
  obtain ⟨d, hinstr, hj⟩ := (Option.any_eq_true _ _).mp h
  obtain ⟨raw, hr, hd⟩ := Option.bind_eq_some_iff.mp hinstr
  exact ⟨raw, d, hr, hd, of_decide_eq_true hj⟩

theorem step_of_jump {arch : Arch} {raw : Word} {d : DecodedInstr}
    (hr : arch.mem.readWord arch.pc = some raw) (hd : Decoder.decode raw = some d)
    (hj : d.format = .J) :
    arch.trapped = false ∧ arch.step.pc = Action.jumpTarget arch.pc d.j.target := by
  have hout := outcome_decoded hr hd
  simp only [action, Action.ofInstr, hj, Action.perform] at hout
  exact ⟨by simp [trapped, hout], by rw [step_of_done (congrArg Prod.snd hout)]⟩

theorem not_trapped_of_redirects {arch : Arch} (h : arch.redirects = true) :
    arch.trapped = false := by
  obtain ⟨d, hinstr, hred⟩ := (Option.any_eq_true _ _).mp h
  obtain ⟨raw, hr, hd⟩ := Option.bind_eq_some_iff.mp hinstr
  have hout := congrArg Prod.snd (outcome_decoded hr hd)
  rw [action] at hout
  cases Decoder.decode_decoded hd with
  | special r himpl =>
    have hfunct : r.funct = .JR ∨ r.funct = .JALR := of_decide_eq_true hred
    rcases hfunct with hf | hf <;>
      simp [trapped, hout, Action.ofInstr, Action.ofSpecial, DecodedInstr.r, hf, Action.perform]
  | cop0 r =>
    obtain ⟨hrs, -⟩ : r.rs = 0x10#5 ∧ r.funct = .ERET := of_decide_eq_true hred
    by_cases hf : r.funct = .ERET <;>
      simp [trapped, hout, Action.ofInstr, Action.ofCop0, DecodedInstr.r, hrs, hf, Action.perform]
  | immediate op i hop =>
    cases op with
    | SPECIAL | COP0 => simp [Decoder.formatOf] at hop
    | BEQ | BNE => simp [trapped, hout, Action.ofInstr, Action.ofImmediate, Action.perform]
    | _ => simp [DecodedInstr.redirects] at hred
  | jump op hop => exact (step_of_jump hr hd rfl).1

theorem falls_iff {arch : Arch} :
    arch.falls = true ↔ arch.trapped = false ∧ arch.redirects = false ∧ arch.jumps = false := by
  simp [falls, and_assoc]

theorem falls_pc {arch : Arch} (h : arch.falls = true) : arch.step.pc = arch.pc + 4#32 := by
  obtain ⟨hnt, hred, hjump⟩ := falls_iff.mp h
  obtain ⟨raw, d, hr, hd⟩ := instr_of_not_trapped hnt
  obtain ⟨hno, hpc⟩ := step_pc_of_performs hr hd hnt
  simp only [redirects, jumps, instr_eq hr hd, Option.any_some, decide_eq_false_iff_not] at hred hjump
  have hd' : Decoder.decode raw = some
      ({ decoded := d, ctrl := deriveControl d, pc := arch.pc, pc4 := arch.pc + 4#32 } : IdEx).decoded :=
    hd
  have hperf := PipelinedCpu.executeDecoded_performs arch.cp0
    { decoded := d, ctrl := deriveControl d, pc := arch.pc, pc4 := arch.pc + 4#32 }
    { a := arch.operandA d, b := arch.operandB d } hd' rfl rfl
  have hnone := PipelinedCpu.executeDecoded_redirect arch.cp0
    { decoded := d, ctrl := deriveControl d, pc := arch.pc, pc4 := arch.pc + 4#32 }
    { a := arch.operandA d, b := arch.operandB d } hd'
  rw [hred, Option.isSome_eq_false_iff, Option.isNone_iff_eq_none] at hnone
  rw [hpc]
  exact hperf.sequential hnone hno hjump

end Arch

namespace PipelinedCpu

section Redirect

variable {cpu : PipelinedCpu} {arch : Arch}

-- In a cycle without an exception EX redirects exactly for the instructions that do.
theorem Sim.redirect_isSome (h : cpu.Sim arch) (ht : cpu.runStages.trap = none)
    (hv : cpu.idEx.valid = true) : cpu.runStages.ex.redirect.isSome = arch.redirects := by
  obtain ⟨hp, hx⟩ := trap_none ht
  rcases h.execute_cases hp hv with ⟨raw, code, badAddr, -, htrap, -⟩ | ⟨raw, d, hr, hd, -, -⟩
  · simp [hx] at htrap
  · have hex := (h.front hp).ex hv
    rw [decode_decoded _ _ _ hr hd] at hex
    have hdec : cpu.idEx.decoded = d := by rw [hex]
    have hearly : cpu.idEx.earlyTrap = none := by rw [hex]
    have hd' : Decoder.decode raw = some cpu.idEx.decoded := by rw [hdec, hd]
    obtain ⟨ha, hb⟩ := h.operands_eq hp hv hr hd
    rw [runStages_ex cpu hp, Arch.redirects, Arch.instr_eq hr hd, Option.any_some,
      ← DecodedInstr.redirects_congr hd ha hb]
    simp only [execute, hv, hearly, Bool.not_true, Bool.false_eq_true, if_false]
    rw [executeDecoded_redirect cpu.cp0 cpu.idEx _ hd', hdec]

-- A cycle that raises no trap leaves MEM one exactly for an instruction that traps.
theorem Sim.step_pending_iff (h : cpu.Sim arch) (ht : cpu.runStages.trap = none)
    (hv : cpu.idEx.valid = true) :
    cpu.step.2.pendingTrap ≠ none ↔ arch.trapsInMem = true := by
  obtain ⟨hp, hx⟩ := trap_none ht
  rw [step_pendingTrap, h.mem]
  cases h.cycle with
  | pending trap ht' _ => simp [hp] at ht'
  | bubble _ hv' _ _ => simp [hv] at hv'
  | trapping _ _ raw code badAddr _ htrap _ _ => simp [hx] at htrap
  | passing _ _ raw d hr hd hno hperf _ =>
    have hout := Arch.outcome_decoded hr hd
    rw [Arch.trapsInMem, Arch.instr_eq hr hd, Option.any_some, hno]
    cases hact : (arch.action d).perform arch.mem arch.pc with
    | trap code badAddr =>
      rw [memoryAccess_trap hperf.carries hact hno]
      simp [Arch.trapped, hout, hact]
    | done gpr store mem cp0 next =>
      rw [(memoryAccess_done hperf.carries hact).1]
      simp [Arch.trapped, hout, hact]

-- An instruction that traps, and that EX lets pass, traps in MEM.
theorem Sim.trapsInMem_eq (h : cpu.Sim arch) (ht : cpu.runStages.trap = none)
    (hv : cpu.idEx.valid = true) : arch.trapsInMem = arch.trapped := by
  obtain ⟨hp, hx⟩ := trap_none ht
  cases h.cycle with
  | pending trap ht' _ => simp [hp] at ht'
  | bubble _ hv' _ _ => simp [hv] at hv'
  | trapping _ _ raw code badAddr _ htrap _ _ => simp [hx] at htrap
  | passing _ _ raw d hr hd hno hperf _ =>
    simp [Arch.trapsInMem, Arch.instr_eq hr hd, hno]

-- The instruction in EX, if it is a jump.
theorem Front.jumps_eq (h : cpu.Front arch) (hv : cpu.idEx.valid = true) :
    arch.jumps = cpu.idEx.isJump := by
  have hex := h.ex hv
  rw [Arch.jumps, Arch.instr, IdEx.isJump, hv, Bool.true_and]
  cases hr : arch.mem.readWord arch.pc with
  | none =>
    rw [decode_fault _ _ _ hr] at hex
    simp [hex]
  | some raw =>
    cases hd : Decoder.decode raw with
    | none =>
      rw [decode_reserved _ _ _ hr hd] at hex
      simp [hex, hd]
    | some d =>
      rw [decode_decoded _ _ _ hr hd] at hex
      simp [hex, hd]

theorem Front.jumps_iff (h : cpu.Front arch) (hv : cpu.idEx.valid = true) :
    arch.jumps = !cpu.ifId.valid := by
  rw [h.jumps_eq hv, IdEx.isJump, hv, Bool.true_and]
  cases hi : cpu.ifId.valid with
  | false => simpa using (h.jump hv hi).1
  | true => simpa using (h.sequential hv hi).1

-- Where the fetch stands, by what is in front of it.
theorem Sim.fetch_pc (h : cpu.Sim arch) (hp : cpu.pendingTrap = none) :
    cpu.pc = match cpu.idEx.valid, cpu.ifId.valid with
      | false, false => arch.pc
      | false, true => arch.pc + 4#32
      | true, false => arch.step.pc
      | true, true => arch.pc + 4#32 + 4#32 := by
  have hfront := h.front hp
  cases hv : cpu.idEx.valid with
  | false =>
    cases hi : cpu.ifId.valid with
    | false => exact hfront.empty hv hi
    | true =>
      rw [hfront.fetched hi, hfront.id hv hi, PipelinedCpu.fetch_pc]
  | true =>
    cases hi : cpu.ifId.valid with
    | false =>
      have hjumps := hfront.jumps_iff hv
      rw [hi] at hjumps
      have hpc := (hfront.jump hv hi).2
      have hex := hfront.ex hv
      obtain ⟨raw, d, hr, hd, hj⟩ := Arch.jumps_decoded hjumps
      rw [decode_decoded _ _ _ hr hd] at hex
      rw [hpc, hex, (Arch.step_of_jump hr hd hj).2]
    | true => rw [hfront.fetched hi, (hfront.sequential hv hi).2]

end Redirect

end PipelinedCpu

namespace SingleCycleCpu

-- The position behind `n`, as far as instruction `n` falls through to it.
def past (s : SingleCycleCpu) (n : ℕ) : ℕ := if (s.run n).arch.falls then n + 1 else n

-- The addresses the pipeline comes to behind instruction `n` that are not, or not then, on
-- the path.
inductive Shadow (s : SingleCycleCpu) (n : ℕ) : Word → Prop
  | next (h : (s.run n).arch.falls = false) : Shadow s n ((s.run n).pc + 4#32)
  -- a transfer or trap that ID does not resolve
  | afterNext (h : (s.run n).arch.falls = false) (hj : (s.run n).arch.jumps = false) :
      Shadow s n ((s.run n).pc + 4#32 + 4#32)
  -- a trap of MEM comes a cycle later: ID may have resolved a jump in its shadow
  | afterTrap (h : (s.run n).arch.trapsInMem = true) (m : ℕ) (hm : m ≤ n) (hn : n ≤ m + 1)
      (hs : (s.run n).arch.stalls { (s.run m).arch with pc := (s.run n).pc + 4#32 } = false) :
      Shadow s n ((PipelinedCpu.decode (s.run n).regs
        (PipelinedCpu.fetch (s.run m).mem ((s.run n).pc + 4#32))).jump.getD
          ((s.run n).pc + 4#32 + 4#32 + 4#32))
  -- the PC the hazard unit holds while the next instruction waits for a load
  | held (hnt : (s.run n).arch.trapped = false)
      (h : (s.run n).arch.stalls (s.run (n + 1)).arch = true) :
      Shadow s n ((s.run (n + 1)).pc + 4#32)
  -- the pipeline goes on fetching behind a Halt
  | halted (i : ℕ) (hi : i < n) (h : (s.run i).step.1 = .Halt) : Shadow s n (s.run n).pc

end SingleCycleCpu

namespace PipelinedCpu

-- The last position of the path that the fetch has come to.
def ahead (cpu : PipelinedCpu) (s : SingleCycleCpu) (n : ℕ) : ℕ :=
  if cpu.pendingTrap.isSome then n - 1
  else
    match cpu.idEx.valid, cpu.ifId.valid with
    | false, false => n
    | false, true => s.past n
    | true, false => n + 1
    | true, true => if (s.run n).arch.falls then s.past (n + 1) else n

-- The instructions that have been fetched and not yet been in EX.
def inFlight (cpu : PipelinedCpu) : ℕ := cpu.idEx.valid.toNat + cpu.ifId.valid.toNat

-- How a cycle moves the fetch: to the next position of the path, which is then the one behind
-- the `full` instructions fetched so far, or to an address in the shadow of an instruction that
-- has come after no trap but those before `n`.
inductive Moves (s : SingleCycleCpu) (n w w' full : ℕ) (pc : Word) : Prop
  | arrives (h : w' = w + 1) (hfull : w' = full) (hnt : (s.run w).arch.trapped = false)
      (hpc : pc = (s.run w').pc)
  | strays (h : w' = w) (m : ℕ) (hm : ∀ i, n ≤ i → i < m → (s.run i).arch.trapped = false)
      (hs : s.Shadow m pc)

section Path

variable {cpu : PipelinedCpu} {s : SingleCycleCpu} {k n : ℕ}

theorem not_trapped_of_falls (h : (s.run n).arch.falls = true) : (s.run n).arch.trapped = false :=
  (Arch.falls_iff.mp h).1

theorem falls_run (h : (s.run n).arch.falls = true) :
    (s.run (n + 1)).pc = (s.run n).pc + 4#32 := by
  rw [← SingleCycleCpu.arch_pc, s.arch_run_succ, Arch.falls_pc h, SingleCycleCpu.arch_pc]

theorem not_trapped_of_jumps (h : (s.run n).arch.jumps = true) :
    (s.run n).arch.trapped = false := by
  obtain ⟨raw, d, hr, hd, hj⟩ := Arch.jumps_decoded h
  exact (Arch.step_of_jump hr hd hj).1

theorem not_falls_of_jumps (h : (s.run n).arch.jumps = true) : (s.run n).arch.falls = false := by
  simp [Arch.falls, h]

theorem Moves.mono {w w' full : ℕ} {pc : Word} (h : Moves s (n + 1) w w' full pc)
    (hnt : (s.run n).arch.trapped = false) : Moves s n w w' full pc := by
  cases h with
  | arrives hw hfull hnt' hpc => exact .arrives hw hfull hnt' hpc
  | strays hw m hm hs =>
    refine .strays hw m ?_ hs
    intro i hi hlt
    rcases hi.eq_or_lt with rfl | hi
    · exact hnt
    · exact hm i hi hlt

-- The fetch moves on from instruction `n`, which it has come to.
theorem moves_past (s : SingleCycleCpu) (n : ℕ) :
    Moves s n n (s.past n) (n + 1) ((s.run n).pc + 4#32) := by
  unfold SingleCycleCpu.past
  split
  · rename_i hf
    exact .arrives rfl rfl (not_trapped_of_falls hf) (falls_run hf).symm
  · rename_i hf
    exact .strays rfl n (fun i hi hlt => absurd hi (by omega)) (.next (by simpa using hf))

-- The fetch moves on from the address behind instruction `n`.
theorem moves_behind (hj : (s.run n).arch.jumps = false) :
    Moves s n (s.past n) (if (s.run n).arch.falls then s.past (n + 1) else n) (n + 2)
      ((s.run n).pc + 4#32 + 4#32) := by
  cases hf : (s.run n).arch.falls with
  | true =>
    have hmoves := (moves_past s (n + 1)).mono (not_trapped_of_falls hf)
    rw [falls_run hf] at hmoves
    simpa [SingleCycleCpu.past, hf] using hmoves
  | false =>
    have hpast : s.past n = n := by simp [SingleCycleCpu.past, hf]
    rw [hpast]
    exact .strays rfl n (fun i hi hlt => absurd hi (by omega)) (.afterNext hf hj)

-- The memory an instruction in ID was fetched from.
def FetchedFrom (cpu : PipelinedCpu) (s : SingleCycleCpu) (n : ℕ) : Prop :=
  cpu.ifId.valid = true → ∃ m ≤ n, n ≤ m + (if cpu.idEx.valid then 1 else 2) ∧
    cpu.ifId = fetch (s.run m).mem cpu.ifId.pc

theorem ahead_clear (hp : cpu.pendingTrap = none) :
    cpu.ahead s n = match cpu.idEx.valid, cpu.ifId.valid with
      | false, false => n
      | false, true => s.past n
      | true, false => n + 1
      | true, true => if (s.run n).arch.falls then s.past (n + 1) else n := by
  simp [ahead, hp]

theorem advance_eq (hp : cpu.pendingTrap = none) : cpu.advance = cpu.idEx.valid := by
  simp [advance, hp]

-- A cycle with a bubble in EX.
theorem bubble_moves (h' : cpu.step.2.Sim (s.run n).arch) (hp : cpu.pendingTrap = none)
    (hv : cpu.idEx.valid = false) :
    Moves s n (cpu.ahead s n) (cpu.step.2.ahead s n) (n + cpu.step.2.inFlight) cpu.step.2.pc := by
  obtain ⟨hp', hx, hif⟩ := step_of_bubble hp hv
  have hpc := h'.fetch_pc hp'
  have hxv : cpu.step.2.idEx.valid = cpu.ifId.valid := by rw [hx, cpu.idStage_valid]
  rw [hxv] at hpc
  rw [ahead_clear hp, ahead_clear hp', hv, inFlight, hxv]
  cases hi : cpu.ifId.valid with
  | false =>
    have hiv : cpu.step.2.ifId.valid = true := by rw [hif hi, fetch_valid]
    rw [hi, hiv] at hpc
    rw [hiv, hpc]
    exact moves_past s n
  | true =>
    have hjumps := (h'.front hp').jumps_iff (hxv.trans hi)
    cases hiv : cpu.step.2.ifId.valid with
    | false =>
      rw [hiv] at hjumps
      rw [hi, hiv] at hpc
      have hpast : s.past n = n := by
        simp [SingleCycleCpu.past, not_falls_of_jumps hjumps]
      rw [hpc, ← s.arch_run_succ, hpast]
      exact .arrives rfl rfl (not_trapped_of_jumps hjumps) rfl
    | true =>
      rw [hiv] at hjumps
      rw [hi, hiv] at hpc
      rw [hpc]
      exact moves_behind hjumps

-- A cycle with a jump in EX, whose target is fetched.
theorem jump_moves (h : cpu.Sim (s.run n).arch) (h' : cpu.step.2.Sim (s.run (n + 1)).arch)
    (ht : cpu.runStages.trap = none) (hv : cpu.idEx.valid = true) (hi : cpu.ifId.valid = false) :
    Moves s n (cpu.ahead s n) (cpu.step.2.ahead s (n + 1)) (n + 1 + cpu.step.2.inFlight)
      cpu.step.2.pc := by
  obtain ⟨hp, -⟩ := trap_none ht
  have hjumps := (h.front hp).jumps_iff hv
  rw [hi] at hjumps
  have hnt := not_trapped_of_jumps hjumps
  have hp' : cpu.step.2.pendingTrap = none := by
    by_contra hne
    rw [(h.step_pending_trapped hne).2] at hnt
    cases hnt
  have hred : cpu.runStages.ex.redirect = none := by
    by_contra hne
    have hfollowed := (h.redirect_followed ht (Option.isSome_iff_ne_none.mpr hne)).1
    rw [hi] at hfollowed
    cases hfollowed
  obtain ⟨hx, -, hif⟩ := step_of_flow ht hred (loadUseHazard_empty _ hi)
  rw [idStage_empty hi] at hx hif
  have hxv : cpu.step.2.idEx.valid = false := by rw [hx]
  have hiv : cpu.step.2.ifId.valid = true := by
    rw [hif]
    exact fetch_valid _ _
  have hpc := h'.fetch_pc hp'
  rw [hxv, hiv] at hpc
  rw [ahead_clear hp, ahead_clear hp', inFlight, hv, hi, hxv, hiv, hpc]
  exact (moves_past s (n + 1)).mono hnt

theorem loadUseHazard_decode (regs regs' : RegisterFile) (inEx inId : IfId) :
    loadUseHazard (decode regs inEx).next inId = loadUseHazard (decode regs' inEx).next inId := by
  unfold decode
  split
  · rfl
  · split <;> rfl

theorem decode_jump_regs (regs regs' : RegisterFile) (inId : IfId) :
    (decode regs inId).jump = (decode regs' inId).jump := by
  unfold decode
  split
  · rfl
  · split <;> rfl

-- The hazard unit sees the instructions of the machine.
theorem stalls_of_hazard (h : cpu.Sim (s.run n).arch) (hp : cpu.pendingTrap = none)
    (hv : cpu.idEx.valid = true) (hi : cpu.ifId.valid = true) (hf : (s.run n).arch.falls = true)
    (hs : loadUseHazard cpu.idEx cpu.ifId = true) :
    (s.run n).arch.stalls (s.run (n + 1)).arch = true := by
  have hnext : (s.run n).arch.step.pc = cpu.ifId.pc := by
    rw [Arch.falls_pc hf, ((h.front hp).sequential hv hi).2]
  rw [(h.front hp).ex hv, h.successor hp hv hi (not_trapped_of_falls hf) hnext, ← s.arch_run_succ,
    loadUseHazard_decode cpu.regs (s.run n).arch.regs] at hs
  exact hs

-- A cycle in which EX redirects the fetch.
theorem redirect_moves (h : cpu.Sim (s.run n).arch) (h' : cpu.step.2.Sim (s.run (n + 1)).arch)
    (ht : cpu.runStages.trap = none) (hv : cpu.idEx.valid = true) (hi : cpu.ifId.valid = true)
    {target : Word} (hred : cpu.runStages.ex.redirect = some target) :
    Moves s n (cpu.ahead s n) (cpu.step.2.ahead s (n + 1)) (n + 1 + cpu.step.2.inFlight)
      cpu.step.2.pc := by
  rw [ahead_clear (trap_none ht).1, hv, hi]
  have hredirects := h.redirect_isSome ht hv
  rw [hred] at hredirects
  have hnt := Arch.not_trapped_of_redirects hredirects.symm
  have hnf : (s.run n).arch.falls = false := by simp [Arch.falls, ← hredirects]
  have hp' : cpu.step.2.pendingTrap = none := by
    by_contra hne
    rw [(h.step_pending_trapped hne).2] at hnt
    cases hnt
  obtain ⟨-, hif, hx⟩ := step_of_redirect ht hred
  have hpc := h'.fetch_pc hp'
  rw [hif, hx] at hpc
  rw [ahead_clear hp', inFlight, hif, hx, hpc, hnf]
  exact .arrives rfl rfl hnt rfl

-- A cycle that hands the instruction in EX on to the next.
theorem fall_moves (h : cpu.Sim (s.run n).arch) (h' : cpu.step.2.Sim (s.run (n + 1)).arch)
    (ht : cpu.runStages.trap = none) (hv : cpu.idEx.valid = true) (hi : cpu.ifId.valid = true)
    (hred : cpu.runStages.ex.redirect = none) (hp' : cpu.step.2.pendingTrap = none) :
    Moves s n (cpu.ahead s n) (cpu.step.2.ahead s (n + 1)) (n + 1 + cpu.step.2.inFlight)
      cpu.step.2.pc := by
  obtain ⟨hp, -⟩ := trap_none ht
  have hfront := h.front hp
  have hjumps := hfront.jumps_iff hv
  rw [hi] at hjumps
  have hredirects := h.redirect_isSome ht hv
  rw [hred, Option.isSome_none] at hredirects
  have hnm : (s.run n).arch.trapsInMem = false := by
    rw [← Bool.not_eq_true, ← h.step_pending_iff ht hv]
    simpa using hp'
  have hnt : (s.run n).arch.trapped = false := by rw [← h.trapsInMem_eq ht hv, hnm]
  have hf : (s.run n).arch.falls = true := Arch.falls_iff.mpr ⟨hnt, hredirects.symm, hjumps⟩
  have hpc := h'.fetch_pc hp'
  rw [ahead_clear hp, hv, hi, ahead_clear hp', inFlight, hf]
  cases hs : loadUseHazard cpu.idEx cpu.ifId with
  | true =>
    obtain ⟨-, hif, hx⟩ := step_of_stall ht hred hs
    rw [hif, hx, hi] at hpc
    rw [hif, hx, hi, hpc]
    exact .strays rfl n (fun i hi hlt => absurd hi (by omega))
      (.held hnt (stalls_of_hazard h hp hv hi hf hs))
  | false =>
    obtain ⟨hx, -, -⟩ := step_of_flow ht hred hs
    have hxv : cpu.step.2.idEx.valid = true := by rw [hx, cpu.idStage_valid, hi]
    have hjumps' := (h'.front hp').jumps_iff hxv
    cases hiv : cpu.step.2.ifId.valid with
    | false =>
      rw [hiv] at hjumps'
      rw [hxv, hiv] at hpc
      have hpast : s.past (n + 1) = n + 1 := by
        simp [SingleCycleCpu.past, not_falls_of_jumps hjumps']
      rw [hxv, hpc, ← s.arch_run_succ, if_pos rfl, hpast]
      exact .arrives rfl rfl (not_trapped_of_jumps hjumps') rfl
    | true =>
      rw [hiv] at hjumps'
      rw [hxv, hiv] at hpc
      rw [hxv, hpc]
      exact (moves_behind hjumps').mono hnt

-- A cycle after which MEM has a trap.
theorem trap_moves (h : cpu.Sim (s.run n).arch) (hmem : cpu.FetchedFrom s n)
    (ht : cpu.runStages.trap = none) (hv : cpu.idEx.valid = true) (hi : cpu.ifId.valid = true)
    (hred : cpu.runStages.ex.redirect = none) (hp' : cpu.step.2.pendingTrap ≠ none) :
    Moves s n (cpu.ahead s n) (cpu.step.2.ahead s (n + 1)) (n + 1 + cpu.step.2.inFlight)
      cpu.step.2.pc := by
  obtain ⟨hp, -⟩ := trap_none ht
  have hfront := h.front hp
  have hjumps := hfront.jumps_iff hv
  rw [hi] at hjumps
  have hpc0 := h.fetch_pc hp
  rw [hv, hi] at hpc0
  have hmemtrap := (h.step_pending_iff ht hv).mp hp'
  have htrapped : (s.run n).arch.trapped = true := by rw [← h.trapsInMem_eq ht hv, hmemtrap]
  have hf : (s.run n).arch.falls = false := by simp [Arch.falls, htrapped]
  have hahead : cpu.step.2.ahead s (n + 1) = n := by
    simp [ahead, Option.isSome_iff_ne_none.mpr hp']
  have hstays : ∀ i, n ≤ i → i < n → (s.run i).arch.trapped = false :=
    fun i hi hlt => absurd hi (by omega)
  rw [ahead_clear hp, hv, hi, hahead, hf]
  cases hs : loadUseHazard cpu.idEx cpu.ifId with
  | true =>
    obtain ⟨hpc, -, -⟩ := step_of_stall ht hred hs
    rw [hpc, hpc0]
    exact .strays rfl n hstays (.afterNext hf hjumps)
  | false =>
    obtain ⟨-, hpc, -⟩ := step_of_flow ht hred hs
    obtain ⟨m, hm, hn, hfetch⟩ := hmem hi
    rw [hv, if_pos rfl] at hn
    rw [(hfront.sequential hv hi).2] at hfetch
    rw [hpc, hpc0, idStage_fetch hfetch, decode_jump_regs _ (s.run n).regs]
    rw [hfront.ex hv, hfetch, loadUseHazard_decode cpu.regs (s.run n).arch.regs] at hs
    exact .strays rfl n hstays (.afterTrap hmemtrap m hm hn hs)

-- A cycle with an instruction in EX that is no jump.
theorem pass_moves (h : cpu.Sim (s.run n).arch) (h' : cpu.step.2.Sim (s.run (n + 1)).arch)
    (hmem : cpu.FetchedFrom s n) (ht : cpu.runStages.trap = none) (hv : cpu.idEx.valid = true)
    (hi : cpu.ifId.valid = true) :
    Moves s n (cpu.ahead s n) (cpu.step.2.ahead s (n + 1)) (n + 1 + cpu.step.2.inFlight)
      cpu.step.2.pc := by
  cases hred : cpu.runStages.ex.redirect with
  | some target => exact redirect_moves h h' ht hv hi hred
  | none =>
    by_cases hp' : cpu.step.2.pendingTrap = none
    · exact fall_moves h h' ht hv hi hred hp'
    · exact trap_moves h hmem ht hv hi hred hp'

-- Every cycle without an exception moves the fetch on along the path, or astray.
theorem fetch_moves (h : cpu.Sim (s.run n).arch)
    (h' : cpu.step.2.Sim (s.run (n + cpu.advance.toNat)).arch) (hmem : cpu.FetchedFrom s n)
    (ht : cpu.runStages.trap = none) :
    Moves s n (cpu.ahead s n) (cpu.step.2.ahead s (n + cpu.advance.toNat))
      (n + cpu.advance.toNat + cpu.step.2.inFlight) cpu.step.2.pc := by
  obtain ⟨hp, -⟩ := trap_none ht
  rw [advance_eq hp] at h' ⊢
  cases hv : cpu.idEx.valid with
  | false =>
    rw [hv] at h'
    exact bubble_moves h' hp hv
  | true =>
    rw [hv] at h'
    cases hi : cpu.ifId.valid with
    | false => exact jump_moves h h' ht hv hi
    | true => exact pass_moves h h' hmem ht hv hi

theorem FetchedFrom.step (h : cpu.Sim (s.run n).arch) (hmem : cpu.FetchedFrom s n)
    (ht : cpu.runStages.trap = none) :
    cpu.step.2.FetchedFrom s (n + cpu.advance.toNat) := by
  intro hiv
  obtain ⟨hp, -⟩ := trap_none ht
  rw [advance_eq hp]
  cases hred : cpu.runStages.ex.redirect with
  | some target =>
    obtain ⟨-, hif, -⟩ := step_of_redirect ht hred
    rw [hif] at hiv
    cases hiv
  | none =>
    cases hs : loadUseHazard cpu.idEx cpu.ifId with
    | true =>
      obtain ⟨-, hif, hx⟩ := step_of_stall ht hred hs
      have hv : cpu.idEx.valid = true := by
        by_contra hv
        rw [loadUseHazard_invalid _ (by simpa using hv)] at hs
        cases hs
      rw [hif] at hiv ⊢
      obtain ⟨m, hm, hn, hfetch⟩ := hmem hiv
      rw [hv, if_pos rfl] at hn
      refine ⟨m, by omega, ?_, hfetch⟩
      rw [hx, hv]
      simp only [Bool.toNat_true, Bool.false_eq_true, if_false]
      omega
    | false =>
      obtain ⟨-, -, hif⟩ := step_of_flow ht hred hs
      cases hj : cpu.idStage.jump with
      | some target =>
        rw [hif, hj] at hiv
        cases hiv
      | none =>
        rw [hj] at hif
        refine ⟨n, Nat.le_add_right _ _, ?_, ?_⟩
        · have hone : cpu.idEx.valid.toNat ≤ 1 := by cases cpu.idEx.valid <;> simp
          split <;> omega
        · rw [hif]
          simp only [Option.isSome_none, Bool.false_eq_true, if_false, fetch_pc]
          rw [h.mem]
          rfl

end Path

end PipelinedCpu

end ClearCore.Mips
