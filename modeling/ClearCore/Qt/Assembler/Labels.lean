import ClearCore.Mips.Semantics.Lemmas
import ClearCore.Mips.SingleCycle.Trace
import ClearCore.Qt.Assembler.Theorems

-- Where a branch or jump to a label goes, once the words are in memory.

namespace ClearCore.Qt.Assembler

open Isa Lines Mips

def isBranch (mn : Text) : Prop := mn = "beq".toList ∨ mn = "bne".toList

def isJump (mn : Text) : Prop := mn = "j".toList ∨ mn = "jal".toList

-- The target operand of an instruction line.
def Targets (mn : Text) (ops : List Text) (lbl : Text) : Prop :=
  isBranch mn ∧ ops[2]? = some lbl ∨ isJump mn ∧ ops[0]? = some lbl

-- The comparison of a branch holds. A jump is always taken.
def Taken (cpu : SingleCycleCpu) (w : Word) : Prop :=
  ∀ d, Decoder.decode w = some d →
    (d.opcode = .BEQ → cpu.regs.read d.i.rs = cpu.regs.read d.i.rt) ∧
      (d.opcode = .BNE → cpu.regs.read d.i.rs ≠ cpu.regs.read d.i.rt)

section Encode

variable {labels : List (Text × Word)} {idx : ℕ} {mn lbl : Text} {ops : List Text} {w : Word}

theorem encodeBranch_label {op : Opcode} (hlbl : ops[2]? = some lbl) (hnum : parseImm lbl = none)
    (h : encodeBranch labels idx op.code ops = .ok w) :
    ∃ rs rt target, labels.lookup lbl = some target ∧
      fitsSimm16 (target - BitVec.ofNat 32 (idx + 1)) = true ∧
      w = encI op.code rs rt ((target - BitVec.ofNat 32 (idx + 1)).setWidth 16) := by
  unfold encodeBranch at h
  split at h
  · rename_i op0 op1 op2
    obtain rfl : op2 = lbl := Option.some.inj hlbl
    split at h
    · rename_i rs rt hrs hrt
      cases hlookup : labels.lookup op2 with
      | none =>
        simp only [branchOffset, hnum, hlookup, Option.map_none] at h
        cases h
      | some target =>
        simp only [branchOffset, hnum, hlookup, Option.map_some] at h
        split at h
        · cases h
        · rename_i hfits
          exact ⟨rs, rt, target, rfl, by simpa using hfits, (Except.ok.inj h).symm⟩
    · cases h
  · cases h

theorem encodeJump_label {op : Opcode} (hlbl : ops[0]? = some lbl) (hnum : parseImm lbl = none)
    (h : encodeJump labels op.code ops = .ok w) :
    ∃ target, labels.lookup lbl = some target ∧ target ≤ kJumpTargetMax ∧
      w = encJ op.code target := by
  unfold encodeJump at h
  split at h
  · rename_i op0
    obtain rfl : op0 = lbl := Option.some.inj hlbl
    cases hlookup : labels.lookup op0 with
    | none =>
      simp only [hnum, hlookup] at h
      cases h
    | some target =>
      simp only [hnum, hlookup] at h
      split at h
      · cases h
      · rename_i hmax
        exact ⟨target, rfl, by simpa using hmax, (Except.ok.inj h).symm⟩
  · cases h

theorem encodeLine_isBranch (hmn : isBranch mn) :
    ∃ op : Opcode, (op = .BEQ ∧ mn = "beq".toList ∨ op = .BNE ∧ mn = "bne".toList) ∧
      encodeLine labels idx mn ops = encodeBranch labels idx op.code ops := by
  rcases hmn with rfl | rfl
  · exact ⟨.BEQ, .inl ⟨rfl, rfl⟩, rfl⟩
  · exact ⟨.BNE, .inr ⟨rfl, rfl⟩, rfl⟩

theorem encodeLine_isJump (hmn : isJump mn) :
    ∃ op : Opcode, Decoder.formatOf op = .J ∧
      encodeLine labels idx mn ops = encodeJump labels op.code ops := by
  rcases hmn with rfl | rfl
  · exact ⟨.J, rfl, rfl⟩
  · exact ⟨.JAL, rfl, rfl⟩

end Encode

section Execute

variable {cpu : SingleCycleCpu} {w : Word} {d : DecodedInstr}

theorem step_decoded (gpr : Option (RegIdx × Word)) (hfetch : cpu.mem.readWord cpu.pc = some w)
    (hd : Decoder.decode w = some d) {next : Word}
    (hact : cpu.arch.action d = .done gpr .none next) :
    cpu.step.2.pc = next ∧ cpu.step.2.mem = cpu.mem := by
  have hout : cpu.arch.outcome.2 = .done gpr none cpu.mem .none next := by
    rw [Arch.outcome_decoded hfetch hd, hact]
    rfl
  have hpc : cpu.step.2.pc = cpu.arch.step.pc := congrArg Arch.pc cpu.step_arch
  have hmem : cpu.step.2.mem = cpu.arch.step.mem := congrArg Arch.mem cpu.step_arch
  rw [hpc, hmem, Arch.step_of_done hout]
  exact ⟨rfl, rfl⟩

theorem step_pc_branch {op : Opcode} {rs rt : RegIdx} {imm : Half} (hop : op = .BEQ ∨ op = .BNE)
    (hfetch : cpu.mem.readWord cpu.pc = some (encI op.code rs rt imm))
    (htaken : Taken cpu (encI op.code rs rt imm)) :
    cpu.step.2.pc = Action.branchTarget cpu.pc imm := by
  have hI : Decoder.formatOf op = .I := by rcases hop with rfl | rfl <;> rfl
  have hd := decode_encI hI rs rt imm
  obtain ⟨hbeq, hbne⟩ := htaken _ hd
  refine (step_decoded none hfetch hd ?_).1
  rcases hop with rfl | rfl
  · exact congrArg (Action.done none .none) (if_pos (hbeq rfl))
  · exact congrArg (Action.done none .none) (if_neg (hbne rfl))

theorem step_pc_jump {op : Opcode} {target : Word} (hJ : Decoder.formatOf op = .J)
    (htarget : target ≤ kJumpTargetMax)
    (hfetch : cpu.mem.readWord cpu.pc = some (encJ op.code target)) :
    cpu.step.2.pc = Action.jumpTarget cpu.pc target :=
  (step_decoded _ hfetch (decode_encJ hJ htarget) rfl).1

end Execute

-- A branch adds its distance to the word after it.
theorem branchTarget_label {idx k : ℕ} {imm : Half}
    (himm : Decoder.signExtend imm = BitVec.ofNat 32 k - BitVec.ofNat 32 (idx + 1)) :
    (Action.branchTarget (BitVec.ofNat 32 (4 * idx)) imm).toNat = 4 * k % 2 ^ 32 := by
  rw [Action.branchTarget, himm, BitVec.toNat_add, BitVec.toNat_add, BitVec.toNat_shiftLeft,
    BitVec.toNat_sub, Nat.shiftLeft_eq]
  simp only [BitVec.toNat_ofNat]
  omega

-- A jump keeps the region of the word after it.
theorem jumpTarget_label {idx k : ℕ} (h : BitVec.ofNat 32 k ≤ kJumpTargetMax) :
    (Action.jumpTarget (BitVec.ofNat 32 (4 * idx)) (BitVec.ofNat 32 k)).toNat =
      (idx + 1) % 2 ^ 30 / 2 ^ 26 * 2 ^ 28 + 4 * (k % 2 ^ 32) := by
  have hk : (BitVec.ofNat 32 k).toNat ≤ 0x3FFFFFF := BitVec.le_def.mp h
  rw [Action.toNat_jumpTarget _ (by omega), BitVec.toNat_add]
  simp only [BitVec.toNat_ofNat] at hk ⊢
  omega

-- A taken transfer to a label goes to the word of its last definition if the address of that
-- word fits, and a jump has no region to keep.
theorem transfer_iff (source : Text) (h : (assemble source).ok = true) {idx : ℕ} {mn lbl : Text}
    {ops : List Text} {w : Word} {cpu : SingleCycleCpu}
    (hline : (instructions (sourceLines source))[idx]? = some (mn, ops))
    (hword : (assemble source).words[idx]? = some w) (hlbl : Targets mn ops lbl)
    (hnum : parseImm lbl = none) (hpc : cpu.pc = BitVec.ofNat 32 (4 * idx))
    (hfetch : cpu.mem.readWord cpu.pc = some w) (htaken : Taken cpu w) :
    ∃ k, Defines (sourceLines source) lbl k ∧ (cpu.step.2.pc.toNat = 4 * k ↔
      k < 2 ^ 30 ∧ (isJump mn → (idx + 1) % 2 ^ 30 < 2 ^ 26)) := by
  have hencode := (assemble_encodes h).2 idx mn ops w hline hword
  have hresolves := (pass1_collected source).resolves
  rcases hlbl with ⟨hmn, hop⟩ | ⟨hmn, hop⟩
  · obtain ⟨op, hop', heq⟩ := encodeLine_isBranch hmn
    rw [heq] at hencode
    obtain ⟨rs, rt, target, hlookup, hfits, rfl⟩ := encodeBranch_label hop hnum hencode
    obtain ⟨k, hk, rfl⟩ := hresolves lbl target hlookup
    refine ⟨k, hk, ?_⟩
    have hnot : ¬isJump mn := by
      rcases hmn with rfl | rfl <;> exact fun hj => absurd hj (by unfold isJump; decide)
    rw [step_pc_branch (by tauto) hfetch htaken, hpc, branchTarget_label (signExtend_simm16 hfits)]
    simp only [hnot, false_imp_iff, and_true]
    omega
  · obtain ⟨op, hop', heq⟩ := encodeLine_isJump hmn
    rw [heq] at hencode
    obtain ⟨target, hlookup, hmax, rfl⟩ := encodeJump_label hop hnum hencode
    obtain ⟨k, hk, rfl⟩ := hresolves lbl target hlookup
    refine ⟨k, hk, ?_⟩
    have hle : k % 2 ^ 32 ≤ 0x3FFFFFF := by
      have hle := BitVec.le_def.mp hmax
      rwa [BitVec.toNat_ofNat] at hle
    rw [step_pc_jump hop' hmax hfetch, hpc, jumpTarget_label hmax]
    simp only [hmn, true_imp_iff]
    omega

-- The region bites in a program that fills 256 MiB.

theorem Defines.unique {lines : List SourceLine} {lbl : Text} {k k' : ℕ}
    (h : Defines lines lbl k) (h' : Defines lines lbl k') : k = k' := by
  obtain ⟨before, line, after, heq, hline, hafter, hk⟩ := h
  obtain ⟨before', line', after', heq', hline', hafter', hk'⟩ := h'
  rw [heq] at heq'
  rcases List.append_eq_append_iff.mp heq' with ⟨mid, hb, ha⟩ | ⟨mid, hb, ha⟩
  · cases mid with
    | nil =>
      rw [List.append_nil] at hb
      rw [← hk, ← hk', hb]
    | cons l mid =>
      obtain ⟨-, rfl⟩ := List.cons.inj ha
      exact absurd hline' (hafter line' (by simp))
  · cases mid with
    | nil =>
      rw [List.append_nil] at hb
      rw [← hk, ← hk', hb]
    | cons l mid =>
      obtain ⟨-, rfl⟩ := List.cons.inj ha
      exact absurd hline (hafter' line (by simp))

-- a label, `n` more instructions, and a jump back to the label
def farJump (n : ℕ) : Text :=
  "a: nop\n".toList ++ ((List.replicate n "nop\n".toList).flatten ++ "j a".toList)

def nopLine : SourceLine := { instruction := some ("nop".toList, []) }

def jumpLine : SourceLine := { instruction := some ("j".toList, ["a".toList]) }

theorem sourceLines_farJump (n : ℕ) :
    sourceLines (farJump n) =
      { nopLine with label := some "a".toList } :: (List.replicate n nopLine ++ [jumpLine]) := by
  have hnops : (getlinesFrom [] ((List.replicate n "nop\n".toList).flatten ++ "j a".toList)).map
      sourceLine = List.replicate n nopLine ++ [jumpLine] := by
    induction n with
    | zero => decide
    | succ n ih =>
      have hsplit : (List.replicate (n + 1) "nop\n".toList).flatten ++ "j a".toList =
          "nop".toList ++ '\n' :: ((List.replicate n "nop\n".toList).flatten ++ "j a".toList) := rfl
      rw [hsplit, getlinesFrom_cons (by decide), List.map_cons, ih]
      rfl
  have hsplit : farJump n = "a: nop".toList ++
      '\n' :: ((List.replicate n "nop\n".toList).flatten ++ "j a".toList) := rfl
  rw [sourceLines, getlines, hsplit, getlinesFrom_cons (by decide), List.map_cons, hnops]
  rfl

section FarJump

variable (n : ℕ)

theorem instructions_farJump :
    instructions (sourceLines (farJump n)) =
      List.replicate (n + 1) ("nop".toList, []) ++ [("j".toList, ["a".toList])] := by
  have hnops : instructions (List.replicate n nopLine) = List.replicate n ("nop".toList, []) :=
    List.filterMap_replicate_of_some rfl
  rw [sourceLines_farJump, ← List.singleton_append, instructions_append, instructions_append, hnops]
  rfl

theorem length_instructions_farJump : (instructions (sourceLines (farJump n))).length = n + 2 := by
  rw [instructions_farJump, List.length_append, List.length_replicate, List.length_singleton]

theorem defines_farJump : Defines (sourceLines (farJump n)) "a".toList 0 := by
  refine ⟨[], { nopLine with label := some "a".toList }, List.replicate n nopLine ++ [jumpLine],
    sourceLines_farJump n, rfl, fun l hl => ?_, rfl⟩
  rcases List.mem_append.mp hl with hl | hl
  · rw [List.eq_of_mem_replicate hl]
    nofun
  · rw [List.mem_singleton.mp hl]
    nofun

theorem lookup_farJump : (pass1 (farJump n)).labels.lookup "a".toList = some 0#32 := by
  rcases (pass1_collected (farJump n)).labels "a".toList with ⟨-, hno⟩ | ⟨k, hk, hdef⟩
  · obtain ⟨before, line, after, heq, hline, -⟩ := defines_farJump n
    exact absurd hline (hno line (by simp [heq]))
  · rw [hk, hdef.unique (defines_farJump n)]

theorem encodeLine_farJump {idx : ℕ} {mn : Text} {ops : List Text}
    (h : (instructions (sourceLines (farJump n)))[idx]? = some (mn, ops)) :
    encodeLine (pass1 (farJump n)).labels idx mn ops =
      .ok (if idx ≤ n then 0#32 else 0x08000000#32) := by
  rw [instructions_farJump] at h
  by_cases hidx : idx ≤ n
  · rw [List.getElem?_append_left (by simp; omega), List.getElem?_replicate] at h
    split at h
    · obtain ⟨rfl, rfl⟩ := Prod.mk.inj (Option.some.inj h)
      rw [if_pos hidx]
      rfl
    · cases h
  · rw [List.getElem?_append_right (by simp; omega)] at h
    obtain ⟨rfl, rfl⟩ := Prod.mk.inj (List.mem_singleton.mp (List.mem_of_getElem? h))
    have hjump : encodeLine (pass1 (farJump n)).labels idx "j".toList ["a".toList] =
        encodeJump (pass1 (farJump n)).labels 0x02#6 ["a".toList] := rfl
    have hnum : parseImm "a".toList = none := by decide
    rw [hjump, encodeJump, hnum, lookup_farJump, if_neg hidx]
    rfl

theorem assemble_farJump : (assemble (farJump n)).ok = true ∧
    (assemble (farJump n)).words =
      List.replicate (n + 1) 0#32 ++ [0x08000000#32] := by
  have hok : (assemble (farJump n)).ok = true := by
    refine assemble_ok ?_ fun idx mn ops h => ⟨_, encodeLine_farJump n h⟩
    rw [instructions_farJump]
    simp
  refine ⟨hok, ?_⟩
  obtain ⟨hlength, hall⟩ := assemble_encodes hok
  apply List.ext_getElem?
  intro i
  rw [length_instructions_farJump] at hlength
  by_cases hi : i < n + 2
  · have hword := List.getElem?_eq_getElem (hlength ▸ hi : i < (assemble (farJump n)).words.length)
    have hline := List.getElem?_eq_getElem (length_instructions_farJump n ▸ hi)
    have hencode := (encodeLine_farJump n hline).symm.trans (hall i _ _ _ hline hword)
    rw [hword, ← Except.ok.inj hencode]
    by_cases hle : i ≤ n
    · rw [if_pos hle, List.getElem?_append_left (by simp; omega), List.getElem?_replicate,
        if_pos (by omega)]
    · obtain rfl : i = n + 1 := by omega
      rw [if_neg hle, List.getElem?_append_right (by simp)]
      simp
  · rw [List.getElem?_eq_none (by omega), List.getElem?_eq_none (by simp; omega)]

end FarJump

-- NOPs in a row
theorem run_nops {cpu : SingleCycleCpu} (hpc : cpu.pc = 0#32) {m : ℕ}
    (h : ∀ i < m, cpu.mem.readWord (BitVec.ofNat 32 (i * 4)) = some 0#32) :
    (cpu.run m).pc = BitVec.ofNat 32 (m * 4) ∧ (cpu.run m).mem = cpu.mem := by
  induction m with
  | zero => exact ⟨hpc, rfl⟩
  | succ m ih =>
    obtain ⟨hpc', hmem'⟩ := ih fun i hi => h i (by omega)
    have hfetch : (cpu.run m).mem.readWord (cpu.run m).pc = some 0#32 := by
      rw [hmem', hpc', h m (by omega)]
    obtain ⟨hnext, hsame⟩ := step_decoded _ hfetch rfl rfl
    rw [SingleCycleCpu.run_succ, hnext, hsame]
    refine ⟨?_, hmem'⟩
    have hadd : BitVec.ofNat 32 (m * 4) + 4#32 = BitVec.ofNat 32 ((m + 1) * 4) := by
      apply BitVec.eq_of_toNat_eq
      simp only [BitVec.toNat_add, BitVec.toNat_ofNat]
      omega
    rw [← hadd, ← hpc']
    rfl

-- A program that fits is loaded, and its words are there.
theorem loadProgram_words (memBytes : ℕ) (words : List Word) (hfits : words.length * 4 ≤ memBytes)
    (hmem : memBytes ≤ 2 ^ 32) :
    ∃ cpu, (SingleCycleCpu.create memBytes).loadProgram words 0#32 = some (true, cpu) ∧
      cpu.pc = 0#32 ∧
      ∀ i word, words[i]? = some word →
        cpu.mem.readWord (BitVec.ofNat 32 (i * 4)) = some word := by
  have hsize : (Memory.ofSize memBytes).size = memBytes := Memory.size_ofSize memBytes
  have hin : (Memory.ofSize memBytes).inBounds 0#32 (words.length * 4) = true := by
    rw [Memory.inBounds, ← Memory.size, hsize]
    simpa using hfits
  refine ⟨{ SingleCycleCpu.create memBytes with
    mem := Memory.loadWordsFrom 0#32 0 words (.ofSize memBytes), pc := 0#32 }, ?_, rfl, ?_⟩
  · simp [SingleCycleCpu.loadProgram, Memory.loadWords, Memory.loadWordsFits, SingleCycleCpu.create,
      hin]
  · intro i word hi
    have haligned : (0#32).toNat % 4 = 0 := rfl
    have hread := Memory.readWord_loadWordsFrom haligned (i := 0) (.ofSize memBytes)
      (by rw [hsize]; simpa using hfits) (by simpa using hfits.trans hmem) hi
    rwa [Nat.zero_add, BitVec.zero_add] at hread

-- The jump back to the first word of memory goes to the second region instead.
theorem step_farJump {n : ℕ} (hn : n + 2 = 2 ^ 26) {cpu : SingleCycleCpu} (hpc : cpu.pc = 0#32)
    (hread : ∀ i word, (assemble (farJump n)).words[i]? = some word →
      cpu.mem.readWord (BitVec.ofNat 32 (i * 4)) = some word) :
    (cpu.run (n + 1)).pc = BitVec.ofNat 32 ((n + 1) * 4) ∧
      (cpu.run (n + 1)).mem.readWord (cpu.run (n + 1)).pc = some 0x08000000#32 ∧
      (cpu.run (n + 2)).pc = 0x10000000#32 := by
  obtain ⟨-, hwords⟩ := assemble_farJump n
  rw [hwords] at hread
  obtain ⟨hat, hmem⟩ := run_nops hpc (m := n + 1) fun i hi => hread i _ (by
    rw [List.getElem?_append_left (by simpa using hi), List.getElem?_replicate, if_pos hi])
  have hfetch : (cpu.run (n + 1)).mem.readWord (cpu.run (n + 1)).pc = some 0x08000000#32 := by
    rw [hmem, hat]
    refine hread (n + 1) _ ?_
    rw [List.getElem?_append_right (by simp)]
    simp
  refine ⟨hat, hfetch, ?_⟩
  have hJ : Decoder.formatOf .J = .J := rfl
  have hfetch' : (cpu.run (n + 1)).mem.readWord (cpu.run (n + 1)).pc =
    some (encJ Opcode.J.code 0#32) := hfetch
  have hnext := step_pc_jump hJ (by decide) hfetch'
  have hidx : (n + 1) * 4 = 4 * (2 ^ 26 - 1) := by omega
  rw [SingleCycleCpu.run_succ, hnext, hat, hidx]
  decide

theorem jump_leaves_label :
    ∃ n cpu, (assemble (farJump n)).ok = true ∧
      (SingleCycleCpu.create (2 ^ 28)).loadProgram (assemble (farJump n)).words 0#32 =
        some (true, cpu) ∧
      (instructions (sourceLines (farJump n)))[n + 1]? = some ("j".toList, ["a".toList]) ∧
      Defines (sourceLines (farJump n)) "a".toList 0 ∧
      (cpu.run (n + 1)).pc = BitVec.ofNat 32 ((n + 1) * 4) ∧
      (cpu.run (n + 1)).mem.readWord (cpu.run (n + 1)).pc = some 0x08000000#32 ∧
      (cpu.run (n + 1)).step.2.pc = 0x10000000#32 := by
  obtain ⟨n, hn⟩ : ∃ n : ℕ, n + 2 = 2 ^ 26 := ⟨2 ^ 26 - 2, by omega⟩
  obtain ⟨hok, hwords⟩ := assemble_farJump n
  obtain ⟨cpu, hload, hpc, hread⟩ := loadProgram_words (2 ^ 28) (assemble (farJump n)).words
    (by rw [hwords]; simp; omega) (by omega)
  obtain ⟨hat, hfetch, hnext⟩ := step_farJump hn hpc hread
  refine ⟨n, cpu, hok, hload, ?_, defines_farJump n, hat, hfetch, ?_⟩
  · rw [instructions_farJump, List.getElem?_append_right (by simp)]
    simp
  · rwa [SingleCycleCpu.run_succ] at hnext

theorem transfer_iff_back :
    ∃ cpu, (SingleCycleCpu.create 16).loadProgram (assemble (farJump 0)).words 0#32 =
        some (true, cpu) ∧ (cpu.run 1).step.2.pc.toNat = 4 * 0 := by
  obtain ⟨hok, hwords⟩ := assemble_farJump 0
  obtain ⟨cpu, hload, hpc, hread⟩ := loadProgram_words 16 (assemble (farJump 0)).words
    (by rw [hwords]; decide) (by decide)
  rw [hwords] at hread
  obtain ⟨hat, hmem⟩ := run_nops hpc (m := 1) fun i hi => hread i _ (by
    obtain rfl : i = 0 := by omega
    rfl)
  have hfetch : (cpu.run 1).mem.readWord (cpu.run 1).pc = some 0x08000000#32 := by
    rw [hmem, hat]
    exact hread 1 _ rfl
  have hline : (instructions (sourceLines (farJump 0)))[1]? =
      some ("j".toList, ["a".toList]) := by
    rw [instructions_farJump]
    rfl
  have htaken : Taken (cpu.run 1) 0x08000000#32 := by
    intro d hd
    obtain rfl := Option.some.inj hd
    exact ⟨nofun, nofun⟩
  obtain ⟨k, hk, hiff⟩ := transfer_iff (farJump 0) hok hline (by rw [hwords]; rfl)
    (.inr ⟨.inl rfl, rfl⟩) (by decide) hat hfetch htaken
  obtain rfl := hk.unique (defines_farJump 0)
  exact ⟨cpu, hload, hiff.mpr ⟨by decide, fun _ => by decide⟩⟩

end ClearCore.Qt.Assembler
