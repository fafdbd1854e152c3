import ClearCore.Isa.Memory.Lemmas
import ClearCore.Mips.Disassembler.Lemmas
import ClearCore.Mips.SingleCycle.Theorems

-- Instructions with the same text do the same, unless one of them is a COP0 instruction.

namespace ClearCore.Mips

open Isa

-- The state with `word` at its PC.
def SingleCycleCpu.holding (cpu : SingleCycleCpu) (word : Word) : Option SingleCycleCpu :=
  (cpu.mem.writeWord cpu.pc word).map fun mem => { cpu with mem }

namespace Disassembler

open Tokens

-- One step of each of two states.
structure SameStep (a b : SingleCycleCpu) : Prop where
  result : a.step.1 = b.step.1
  regs : a.step.2.regs = b.step.2.regs
  cp0 : a.step.2.cp0 = b.step.2.cp0
  pc : a.step.2.pc = b.step.2.pc
  hi : a.step.2.hi = b.step.2.hi
  lo : a.step.2.lo = b.step.2.lo
  -- neither stores, or both end with the same memory
  mem : a.step.2.mem = a.mem ∧ b.step.2.mem = b.mem ∨ a.step.2.mem = b.step.2.mem

-- The two words do the same at `pc`, from every state.
def ExecuteAlike (v w pc : Word) : Prop :=
  ∀ cpu a b : SingleCycleCpu, cpu.pc = pc → cpu.holding v = some a → cpu.holding w = some b →
    SameStep a b

def cop0Names : List (List Char) := ["mfc0".toList, "mtc0".toList, "eret".toList, "cop0".toList]

-- A COP0 instruction prints under a COP0 name and unlike any SPECIAL instruction.
def NamedCop0 (d : DecodedInstr) (pc : Word) : Prop :=
  d.opcode = .COP0 → (∃ mn ∈ cop0Names, mn <+: toString d pc) ∧
    ∀ word e, Decoder.decode word = some e → e.opcode = .SPECIAL → toString e pc ≠ toString d pc

structure Faithful (d e : DecodedInstr) (pc : Word) : Prop where
  execution : toString d pc = toString e pc → ExecuteAlike d.raw e.raw pc
  named : NamedCop0 d pc
  named' : NamedCop0 e pc

theorem parts_eq {d e : DecodedInstr} {pc : Word} (h : toString d pc = toString e pc) :
    lowerMnemonic d = lowerMnemonic e ∧ operands d pc = operands e pc := by
  have hsplit := congrArg (split isGap) h
  rw [split_toString, split_toString] at hsplit
  exact List.cons.inj hsplit

-- What the text leaves out of a SPECIAL word is not used.
theorem ofSpecial_congr {r r' : RFields} (himpl : Decoder.implementedSpecial r.funct = true)
    (hfunct : r.funct = r'.funct) (h : operandsR r = operandsR r') (regs : RegisterFile)
    (pc : Word) :
    Action.ofSpecial r pc (regs.read r.rs) (regs.read r.rt) =
      Action.ofSpecial r' pc (regs.read r'.rs) (regs.read r'.rt) := by
  obtain ⟨rs, rt, rd, shamt, funct⟩ := r
  obtain ⟨rs', rt', rd', shamt', funct'⟩ := r'
  obtain rfl : funct = funct' := hfunct
  cases funct with
  | ERET | unnamed code => simp [Decoder.implementedSpecial] at himpl
  | SYSCALL | BREAK => rfl
  | SLL | SRL | SRA =>
    simp only [operandsR, List.cons.injEq] at h
    obtain ⟨hrd, hrt, hshamt, -⟩ := h
    obtain rfl := reg_inj hrd
    obtain rfl := reg_inj hrt
    obtain rfl := BitVec.eq_of_toNat_eq (Numeral.decimal_inj hshamt)
    rfl
  | SLLV | SRLV =>
    simp only [operandsR, List.cons.injEq] at h
    obtain ⟨hrd, hrt, hrs, -⟩ := h
    obtain rfl := reg_inj hrd
    obtain rfl := reg_inj hrt
    obtain rfl := reg_inj hrs
    rfl
  | JR =>
    simp only [operandsR, List.cons.injEq] at h
    obtain rfl := reg_inj h.1
    rfl
  | JALR =>
    simp only [operandsR, List.cons.injEq] at h
    obtain ⟨hrd, hrs, -⟩ := h
    obtain rfl := reg_inj hrd
    obtain rfl := reg_inj hrs
    rfl
  | _ =>
    simp only [operandsR, List.cons.injEq] at h
    obtain ⟨hrd, hrs, hrt, -⟩ := h
    obtain rfl := reg_inj hrd
    obtain rfl := reg_inj hrs
    obtain rfl := reg_inj hrt
    rfl

-- An immediate instruction other than LUI shows all its fields.
theorem operandsI_inj {op : Opcode} {i i' : IFields} (hop : Decoder.formatOf op = .I)
    (hlui : op ≠ .LUI) (h : operandsI op i = operandsI op i') : i = i' := by
  obtain ⟨rs, rt, imm⟩ := i
  obtain ⟨rs', rt', imm'⟩ := i'
  have himm : (Decoder.signExtend imm).toInt = (Decoder.signExtend imm').toInt → imm = imm' := by
    rw [Decoder.toInt_signExtend, Decoder.toInt_signExtend]
    exact BitVec.eq_of_toInt_eq
  cases op with
  | SPECIAL | COP0 | J | JAL | unnamed code => simp [Decoder.formatOf] at hop
  | LUI => exact absurd rfl hlui
  | LW | LBU | LHU | SW =>
    simp only [operandsI, List.cons.injEq] at h
    obtain ⟨hrt, hmem, -⟩ := h
    obtain ⟨hoffset, rfl⟩ := memOperand_inj hmem
    obtain rfl := reg_inj hrt
    obtain rfl := himm hoffset
    rfl
  | BEQ | BNE =>
    simp only [operandsI, List.cons.injEq] at h
    obtain ⟨hrs, hrt, hoffset, -⟩ := h
    obtain rfl := reg_inj hrs
    obtain rfl := reg_inj hrt
    obtain rfl := himm (Numeral.explicitlySigned_inj hoffset)
    rfl
  | _ =>
    simp only [operandsI, List.cons.injEq] at h
    obtain ⟨hrt, hrs, himm', -⟩ := h
    obtain rfl := reg_inj hrs
    obtain rfl := reg_inj hrt
    obtain rfl := himm (Numeral.explicitlySigned_inj himm')
    rfl

-- LUI does not show its first register field, and does not use it.
theorem ofImmediate_lui_congr {i i' : IFields} (h : operandsI .LUI i = operandsI .LUI i')
    (regs : RegisterFile) (pc : Word) :
    Action.ofImmediate .LUI i pc (regs.read i.rs) (regs.read i.rt) =
      Action.ofImmediate .LUI i' pc (regs.read i'.rs) (regs.read i'.rt) := by
  obtain ⟨rs, rt, imm⟩ := i
  obtain ⟨rs', rt', imm'⟩ := i'
  simp only [operandsI, List.cons.injEq] at h
  obtain ⟨hrt, himm, -⟩ := h
  obtain rfl := reg_inj hrt
  obtain rfl := BitVec.eq_of_toNat_eq (hex_inj (List.cons_eq_cons.mpr ⟨rfl,
    List.cons_eq_cons.mpr ⟨rfl, himm.2.2⟩⟩))
  rfl

-- An action that leaves the data memory alone.
def MemFree : Action → Prop
  | .load .. | .store .. => False
  | _ => True

theorem perform_of_memFree {action : Action} (h : MemFree action) (pc : Word) :
    (∃ code, ∀ mem, action.perform mem pc = .trap code 0#32) ∨
      ∃ gpr cp0 next, ∀ mem, action.perform mem pc = .done gpr none mem cp0 next := by
  cases action with
  | trap code => exact .inl ⟨code, fun _ => rfl⟩
  | load op addr dst | store op addr value => exact absurd h id
  | done gpr cp0 next => exact .inr ⟨gpr, cp0, next, fun _ => rfl⟩

theorem memFree_ofAlu (pc : Word) (dst : RegIdx) (res : AluResult) (isSigned : Bool) :
    MemFree (.ofAlu pc dst res isSigned) := by
  rw [Action.ofAlu]
  split <;> trivial

theorem memFree_ofSpecial (r : RFields) (pc a b : Word) : MemFree (.ofSpecial r pc a b) := by
  obtain ⟨rs, rt, rd, shamt, funct⟩ := r
  cases funct with
  | SYSCALL | BREAK | JR | JALR | ERET | unnamed code => trivial
  | _ => exact memFree_ofAlu _ _ _ _

theorem memFree_lui (arch : Arch) (raw : Word) (i : IFields) :
    MemFree (arch.action { raw, opcode := .LUI, format := .I, fields := .i i }) := by
  simp only [Arch.action, Action.ofInstr, Action.ofImmediate, Alu.iTypeOp]
  exact memFree_ofAlu _ _ _ _

-- Words with the same text are the same word, or ask for the same without a memory access.
theorem action_congr {v w pc : Word} {d e : DecodedInstr} (hd : Decoder.decode v = some d)
    (he : Decoder.decode w = some e) (hd' : d.opcode ≠ .COP0) (he' : e.opcode ≠ .COP0)
    (h : toString d pc = toString e pc) :
    v = w ∨ ∀ arch : Arch, arch.pc = pc → arch.action d = arch.action e ∧ MemFree (arch.action d) := by
  obtain ⟨hmn, hops⟩ := parts_eq h
  obtain ⟨hmem, hname⟩ := operation_mem hd hd'
  obtain ⟨hmem', hname'⟩ := operation_mem he he'
  have hop : d.operation = e.operation := name_inj hmem hmem' (by rw [← hname, hmn, hname'])
  have hopcode := opcode_of_operation hop
  cases Decoder.decode_decoded hd with
  | cop0 r => exact absurd rfl hd'
  | special r himpl =>
    cases Decoder.decode_decoded he with
    | cop0 r => exact absurd rfl he'
    | special r' himpl' =>
      refine .inr fun arch hpc => ⟨?_, memFree_ofSpecial _ _ _ _⟩
      exact ofSpecial_congr himpl (Operation.special.inj hop) hops arch.regs arch.pc
    | immediate op i hi | jump op hj =>
      obtain rfl : Opcode.SPECIAL = op := hopcode
      contradiction
  | immediate op i hi =>
    cases Decoder.decode_decoded he with
    | cop0 r => exact absurd rfl he'
    | special r himpl =>
      obtain rfl : op = Opcode.SPECIAL := hopcode
      contradiction
    | jump op' hj =>
      obtain rfl : op = op' := hopcode
      rw [hi] at hj
      contradiction
    | immediate op' i' hi' =>
      obtain rfl : op = op' := hopcode
      by_cases hlui : op = .LUI
      · subst hlui
        refine .inr fun arch hpc => ⟨?_, memFree_lui arch v i⟩
        exact ofImmediate_lui_congr hops arch.regs arch.pc
      · exact .inl (Decoder.eq_of_immediate hd he rfl rfl rfl (operandsI_inj hi hlui hops))
  | jump op hj =>
    cases Decoder.decode_decoded he with
    | cop0 r => exact absurd rfl he'
    | special r himpl =>
      obtain rfl : op = Opcode.SPECIAL := hopcode
      contradiction
    | immediate op' i hi =>
      obtain rfl : op = op' := hopcode
      rw [hi] at hj
      contradiction
    | jump op' hj' =>
      obtain rfl : op = op' := hopcode
      refine .inr fun arch hpc => ⟨?_, trivial⟩
      have htarget : Action.jumpTarget pc (Decoder.bits v 25 0) =
          Action.jumpTarget pc (Decoder.bits w 25 0) :=
        BitVec.eq_of_toNat_eq (hex_inj (List.cons.inj hops).1)
      subst hpc
      simp only [Arch.action, Action.ofInstr, DecodedInstr.j, htarget]

-- One step from a state whose word at the PC is known.
theorem step_holding {cpu a : SingleCycleCpu} {word : Word} {d : DecodedInstr}
    (h : cpu.holding word = some a) (hd : Decoder.decode word = some d) :
    a.regs = cpu.regs ∧ a.cp0 = cpu.cp0 ∧ a.pc = cpu.pc ∧ a.hi = cpu.hi ∧ a.lo = cpu.lo ∧
      a.step = SingleCycleCpu.resolve { a with cycle := a.cycle + 1 } word d
        ((a.arch.action d).perform a.mem a.pc) := by
  obtain ⟨mem, hmem, rfl⟩ := Option.map_eq_some_iff.mp h
  have hread : mem.readWord cpu.pc = some word := Memory.readWord_writeWord hmem
  exact ⟨rfl, rfl, rfl, rfl, rfl, SingleCycleCpu.step_decoded hread hd⟩

theorem executeAlike {v w pc : Word} {d e : DecodedInstr} (hd : Decoder.decode v = some d)
    (he : Decoder.decode w = some e) (hd' : d.opcode ≠ .COP0) (he' : e.opcode ≠ .COP0)
    (h : toString d pc = toString e pc) : ExecuteAlike v w pc := by
  intro cpu a b hpc ha hb
  rcases action_congr hd he hd' he' h with rfl | hsame
  · obtain rfl := Option.some.inj (ha.symm.trans hb)
    exact ⟨rfl, rfl, rfl, rfl, rfl, rfl, .inr rfl⟩
  · obtain ⟨haregs, hacp0, hapc, hahi, halo, hastep⟩ := step_holding ha hd
    obtain ⟨hbregs, hbcp0, hbpc, hbhi, hblo, hbstep⟩ := step_holding hb he
    obtain ⟨haction, hfree⟩ := hsame a.arch (hapc.trans hpc)
    have hactionb : b.arch.action e = a.arch.action d := by
      rw [haction]
      simp only [Arch.action, Arch.operandA, Arch.operandB, SingleCycleCpu.arch_regs,
        SingleCycleCpu.arch_cp0, SingleCycleCpu.arch_pc, haregs, hacp0, hapc, hbregs, hbcp0, hbpc]
    rw [hactionb] at hbstep
    rcases perform_of_memFree hfree cpu.pc with ⟨code, htrap⟩ | ⟨gpr, cp0, next, hdone⟩
    · rw [hapc, htrap] at hastep
      rw [hbpc, htrap] at hbstep
      constructor <;> rw [hastep, hbstep] <;>
        simp [SingleCycleCpu.resolve, haregs, hacp0, hahi, halo, hbregs, hbcp0, hbhi, hblo]
    · rw [hapc, hdone] at hastep
      rw [hbpc, hdone] at hbstep
      constructor <;> rw [hastep, hbstep] <;>
        simp [SingleCycleCpu.resolve, haregs, hacp0, hahi, halo, hbregs, hbcp0, hbhi, hblo]

-- An R-type instruction prints under the name of its function, whatever the opcode.
theorem head_lowerMnemonic {d : DecodedInstr} (hformat : d.format = .R) :
    ∃ c rest, lowerMnemonic d = c :: rest ∧ c ∉ ['m', 'e', 'c'] := by
  have hhead : (lowerMnemonic d).head?.all (fun c => decide (c ∉ ['m', 'e', 'c'])) = true := by
    rw [lowerMnemonic, Decoder.mnemonic, if_pos hformat]
    cases d.r.funct with
    | unnamed => simp
    | _ => decide
  obtain ⟨c, rest, hlower⟩ := List.exists_cons_of_ne_nil (plain_lowerMnemonic d).1
  refine ⟨c, rest, hlower, ?_⟩
  rw [hlower] at hhead
  simpa using hhead

theorem not_cop0Name {d : DecodedInstr} (hformat : d.format = .R) (pc : Word) :
    ∀ mn ∈ cop0Names, ¬mn <+: toString d pc := by
  rintro mn hmn ⟨rest, hprefix⟩
  obtain ⟨c, tail, hlower, hc⟩ := head_lowerMnemonic hformat
  rw [toString_eq, hlower, List.cons_append] at hprefix
  simp only [cop0Names, List.mem_cons, List.not_mem_nil, or_false] at hmn
  rcases hmn with rfl | rfl | rfl | rfl <;> exact hc ((List.cons.inj hprefix).1 ▸ by decide)

theorem not_namedCop0 {word : Word} {d : DecodedInstr} (hd : Decoder.decode word = some d)
    (hcop : d.opcode = .COP0) (pc : Word) : ¬NamedCop0 d pc := by
  intro hnamed
  obtain ⟨⟨mn, hmn, hprefix⟩, -⟩ := hnamed hcop
  have hformat : d.format = .R := by
    cases Decoder.decode_decoded hd with
    | special r himpl | cop0 r => rfl
    | immediate op i hop =>
      obtain rfl : op = .COP0 := hcop
      contradiction
    | jump op hop =>
      obtain rfl : op = .COP0 := hcop
      contradiction
  exact not_cop0Name hformat pc mn hmn hprefix

-- The property holds of two words and a PC if and only if neither word is a COP0 instruction.
theorem faithful_iff {v w : Word} {d e : DecodedInstr} (hd : Decoder.decode v = some d)
    (he : Decoder.decode w = some e) (pc : Word) :
    Faithful d e pc ↔ d.opcode ≠ .COP0 ∧ e.opcode ≠ .COP0 := by
  constructor
  · intro h
    exact ⟨fun hcop => not_namedCop0 hd hcop pc h.named, fun hcop => not_namedCop0 he hcop pc h.named'⟩
  · rintro ⟨hd', he'⟩
    refine ⟨fun htext => ?_, fun hcop => absurd hcop hd', fun hcop => absurd hcop he'⟩
    rw [Decoder.decode_raw hd, Decoder.decode_raw he]
    exact executeAlike hd he hd' he' htext

-- ADD $v0, $a0, $a1 with and without a shift amount
theorem faithful_add : Faithful
    { raw := 0x00851020#32, opcode := .SPECIAL, format := .R
      fields := .r { rs := 4#5, rt := 5#5, rd := 2#5, funct := .ADD } }
    { raw := 0x00851060#32, opcode := .SPECIAL, format := .R
      fields := .r { rs := 4#5, rt := 5#5, rd := 2#5, shamt := 1#5, funct := .ADD } } 0#32 := by
  have h : Decoder.decode 0x00851020#32 = some _ := rfl
  have h' : Decoder.decode 0x00851060#32 = some _ := rfl
  exact (faithful_iff h h' 0#32).mpr ⟨by decide, by decide⟩

-- MTC0 $t0, $12 prints as SLL $t4, $t0, 0.
theorem mtc0_prints_as_sll : ¬∀ (v w : Word) (d e : DecodedInstr) (pc : Word),
    Decoder.decode v = some d → Decoder.decode w = some e → Faithful d e pc := by
  intro hall
  have h := hall 0x40886000#32 0x00086000#32
    { raw := 0x40886000#32, opcode := .COP0, format := .R
      fields := .r { rs := 4#5, rt := 8#5, rd := 12#5, funct := .SLL } }
    { raw := 0x00086000#32, opcode := .SPECIAL, format := .R
      fields := .r { rt := 8#5, rd := 12#5, funct := .SLL } } 0#32 rfl rfl
  have hv : (Memory.ofSize 4).writeWord 0#32 0x40886000#32 =
      some ⟨#[0x00, 0x60, 0x88, 0x40]⟩ := by decide
  have hw : (Memory.ofSize 4).writeWord 0#32 0x00086000#32 =
      some ⟨#[0x00, 0x60, 0x08, 0x00]⟩ := by decide
  have hsame := h.execution (by decide)
    { regs := RegisterFile.initial.write 8#5 1#32, mem := .ofSize 4 } _ _ rfl
    (Option.map_eq_some_iff.mpr ⟨_, hv, rfl⟩) (Option.map_eq_some_iff.mpr ⟨_, hw, rfl⟩)
  have hregs := congrArg (fun rf : RegisterFile => rf.read 12#5) hsame.regs
  exact absurd hregs (by decide)

end Disassembler

end ClearCore.Mips
