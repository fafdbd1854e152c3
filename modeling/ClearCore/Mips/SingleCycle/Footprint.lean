import ClearCore.Mips.PipelineUnits.Lemmas
import ClearCore.Mips.Semantics.Lemmas
import ClearCore.Mips.SingleCycle.Trace

-- An instruction reads no register but its sources and writes none but its destination.

namespace ClearCore.Mips

open Isa

-- The reference machine on states that agree on what the instruction may read.
structure Arch.AgreeOn (d : DecodedInstr) (s t : Arch) : Prop where
  pc : s.pc = t.pc
  mem : s.mem = t.mem
  cp0 : s.cp0 = t.cp0
  a : ∀ {r}, (sourceRegisters d).a = some r → s.regs.read r = t.regs.read r
  b : ∀ {r}, (sourceRegisters d).b = some r → s.regs.read r = t.regs.read r

namespace Arch

variable {s t : Arch} {word : Word} {d : DecodedInstr}

theorem AgreeOn.action (h : AgreeOn d s t) (hd : Decoder.decode word = some d) :
    s.action d = t.action d := by
  rw [Arch.action, Arch.action, h.pc, h.cp0]
  refine Action.ofInstr_congr hd _ _ (fun ha => ?_) (fun hb => ?_)
  · obtain ⟨r, hr⟩ := Option.ne_none_iff_exists'.mp ha
    have hidx := sourceRegisters_a hd hr
    rw [operandA, operandA, ← hidx, h.a hr]
  · obtain ⟨r, hr⟩ := Option.ne_none_iff_exists'.mp hb
    have hidx := sourceRegisters_b hd hr
    rw [operandB, operandB, ← hidx, h.b hr]

theorem AgreeOn.outcome (h : AgreeOn d s t) (hd : Decoder.decode word = some d)
    (hw : s.mem.readWord s.pc = some word) :
    s.outcome.2 = (s.action d).perform s.mem s.pc ∧
      t.outcome.2 = (s.action d).perform s.mem s.pc := by
  have hw' : t.mem.readWord t.pc = some word := by rw [← h.mem, ← h.pc, hw]
  refine ⟨by rw [outcome_decoded hw hd], ?_⟩
  rw [outcome_decoded hw' hd, h.action hd, h.mem, h.pc]

-- A write to the destination is all that happens to the registers.
theorem step_read {raw : Word} (hd : Decoder.decode raw = some d)
    (hout : s.outcome.2 = (s.action d).perform s.mem s.pc) {r : RegIdx}
    (hr : destinationRegister d ≠ some r) : s.step.regs.read r = s.regs.read r := by
  cases hact : (s.action d).perform s.mem s.pc with
  | trap code badAddr => rw [step_of_trap (hout.trans hact)]
  | done gpr store mem cp0 next =>
    rw [step_of_done (hout.trans hact)]
    obtain ⟨⟨value, hgpr⟩, -⟩ := perform_done hd s hact
    cases hdst : destinationRegister d with
    | none =>
      rw [hgpr, hdst]
      rfl
    | some dst =>
      have hne : r ≠ dst := by
        rintro rfl
        exact hr hdst
      rw [hgpr, hdst, Option.bind_some, commitGpr_gprWrite, RegisterFile.read_write_ne _ _ _ _ hne]

-- What a completed instruction gives its destination depends on nothing else.
theorem step_read_destination (hd : Decoder.decode word = some d)
    (hs : s.outcome.2 = (s.action d).perform s.mem s.pc)
    (ht : t.outcome.2 = (s.action d).perform s.mem s.pc) (hok : s.trapped = false) {dst : RegIdx}
    (hdst : destinationRegister d = some dst) : s.step.regs.read dst = t.step.regs.read dst := by
  cases hact : (s.action d).perform s.mem s.pc with
  | trap code badAddr => simp [trapped, hs, hact] at hok
  | done gpr store mem cp0 next =>
    obtain ⟨⟨value, hgpr⟩, -⟩ := perform_done hd s hact
    rw [hdst, Option.bind_some] at hgpr
    rw [step_of_done (hs.trans hact), step_of_done (ht.trans hact), hgpr, commitGpr_gprWrite,
      commitGpr_gprWrite, RegisterFile.read_write, RegisterFile.read_write]
    by_cases hz : dst = 0#5
    · rw [hz]
      rfl
    · rw [if_pos ⟨rfl, hz⟩, if_pos ⟨rfl, hz⟩]

end Arch

namespace SingleCycleCpu

-- Two states that hold the word at PC and agree on what it may read.
theorem footprint_sound {cpu cpu' : SingleCycleCpu} {word : Word} {d : DecodedInstr}
    (hd : Decoder.decode word = some d) (hw : cpu.mem.readWord cpu.pc = some word)
    (h : Arch.AgreeOn d cpu.arch cpu'.arch) :
    cpu.step.1 = cpu'.step.1 ∧ cpu.step.2.pc = cpu'.step.2.pc ∧
      cpu.step.2.mem = cpu'.step.2.mem ∧ cpu.step.2.cp0 = cpu'.step.2.cp0 ∧
      (∀ r, destinationRegister d = some r → cpu.step.1 ≠ .Exception →
        cpu.step.2.regs.read r = cpu'.step.2.regs.read r) ∧
      ∀ r, destinationRegister d ≠ some r →
        cpu.step.2.regs.read r = cpu.regs.read r ∧ cpu'.step.2.regs.read r = cpu'.regs.read r := by
  obtain ⟨hs, ht⟩ := h.outcome hd hw
  have hpc : cpu.pc = cpu'.pc := h.pc
  have hmem : cpu.mem = cpu'.mem := h.mem
  have hcp0 : cpu.cp0 = cpu'.cp0 := h.cp0
  have hstep : ∀ c : SingleCycleCpu, c.step.2.regs = c.arch.step.regs ∧
      c.step.2.mem = c.arch.step.mem ∧ c.step.2.cp0 = c.arch.step.cp0 ∧
      c.step.2.pc = c.arch.step.pc :=
    fun c => ⟨congrArg Arch.regs c.step_arch, congrArg Arch.mem c.step_arch,
      congrArg Arch.cp0 c.step_arch, congrArg Arch.pc c.step_arch⟩
  obtain ⟨hregs, hmem₁, hcp0₁, hpc₁⟩ := hstep cpu
  obtain ⟨hregs', hmem₂, hcp0₂, hpc₂⟩ := hstep cpu'
  have hsame : cpu.arch.trapped = cpu'.arch.trapped ∧ cpu.arch.step.pc = cpu'.arch.step.pc ∧
      cpu.arch.step.mem = cpu'.arch.step.mem ∧ cpu.arch.step.cp0 = cpu'.arch.step.cp0 := by
    cases hact : (cpu.arch.action d).perform cpu.arch.mem cpu.arch.pc with
    | trap code badAddr =>
      rw [Arch.step_of_trap (hs.trans hact), Arch.step_of_trap (ht.trans hact), Arch.trapped,
        Arch.trapped, hs, ht]
      exact ⟨rfl, rfl, h.mem, by rw [h.cp0, h.pc]⟩
    | done gpr store mem cp0 next =>
      rw [Arch.step_of_done (hs.trans hact), Arch.step_of_done (ht.trans hact), Arch.trapped,
        Arch.trapped, hs, ht]
      exact ⟨rfl, rfl, rfl, by rw [h.cp0]⟩
  obtain ⟨htrap, hnext, hstore, haccess⟩ := hsame
  refine ⟨by rw [step_result, step_result, htrap, hnext, hpc], by rw [hpc₁, hpc₂, hnext],
    by rw [hmem₁, hmem₂, hstore], by rw [hcp0₁, hcp0₂, haccess], ?_, ?_⟩
  · intro r hr hok
    have hnt : cpu.arch.trapped = false := by
      rw [← Bool.not_eq_true, ← trapped_iff]
      exact hok
    rw [hregs, hregs']
    exact Arch.step_read_destination hd hs ht hnt hr
  · intro r hr
    have ht' : cpu'.arch.outcome.2 =
        (cpu'.arch.action d).perform cpu'.arch.mem cpu'.arch.pc := by
      rw [ht, h.action hd, h.mem, h.pc]
    rw [hregs, hregs']
    exact ⟨Arch.step_read hd hs hr, Arch.step_read hd ht' hr⟩

-- addu $t1, $t0, $t0 in two states that differ in $t1 and $t2.
def doubling (t1 t2 : Word) : SingleCycleCpu where
  regs := ((RegisterFile.initial.write 8#5 7#32).write 9#5 t1).write 10#5 t2
  mem := Memory.loadWordsFrom 0#32 0 [0x01084821#32] (.ofSize 4)

def doublingInstr : DecodedInstr where
  raw := 0x01084821#32
  opcode := .SPECIAL
  format := .R
  fields := .r { rs := 8#5, rt := 8#5, rd := 9#5, shamt := 0#5, funct := .ADDU }

theorem footprint_sound_doubling :
    (doubling 1#32 2#32).step.2.regs.read 9#5 = (doubling 3#32 4#32).step.2.regs.read 9#5 ∧
      (doubling 1#32 2#32).step.2.regs.read 10#5 = 2#32 := by
  have hagree : Arch.AgreeOn doublingInstr (doubling 1#32 2#32).arch (doubling 3#32 4#32).arch :=
    { pc := rfl
      mem := rfl
      cp0 := rfl
      a := fun hr => by obtain rfl := Option.some.inj hr; rfl
      b := fun hr => by obtain rfl := Option.some.inj hr; rfl }
  have hd : Decoder.decode 0x01084821#32 = some doublingInstr := by decide
  obtain ⟨-, -, -, -, hdst, hother⟩ := footprint_sound hd (by decide) hagree
  exact ⟨hdst 9#5 (by decide) (by decide), (hother 10#5 (by decide)).1⟩

end SingleCycleCpu

end ClearCore.Mips
