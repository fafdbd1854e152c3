import ClearCore.Library.Simulation
import ClearCore.Mips.Pipelined.Exceptions
import ClearCore.Mips.Processor.Lemmas

-- BadVAddr over a run: every trap overwrites it, with 0 unless it is an address error.

namespace ClearCore.Mips

open Isa

def ExceptionCode.isAddressError : ExceptionCode → Bool
  | .AdEL | .AdES => true
  | _ => false

-- The address `addr` is the only one the action accesses, and it raises no address error
-- of its own.
def Action.AddressesAt (addr : Word) : Action → Prop
  | .trap code => code.isAddressError = false
  | .load _ a _ | .store _ a _ => a = addr
  | .done .. => True

namespace Action

theorem ofAlu_addressesAt (addr pc : Word) (dst : RegIdx) (res : AluResult) (isSigned : Bool) :
    (ofAlu pc dst res isSigned).AddressesAt addr := by
  unfold ofAlu
  split_ifs
  · rfl
  · trivial

theorem ofSpecial_addressesAt (addr : Word) (r : RFields) (pc a b : Word) :
    (ofSpecial r pc a b).AddressesAt addr := by
  unfold ofSpecial
  split
  · rfl
  · rfl
  · trivial
  · trivial
  · split
    · rfl
    · exact ofAlu_addressesAt _ _ _ _ _

theorem ofCop0_addressesAt (addr : Word) (r : RFields) (cp0 : Cp0) (pc b : Word) :
    (ofCop0 r cp0 pc b).AddressesAt addr := by
  unfold ofCop0
  split_ifs <;> trivial

theorem ofImmediate_addressesAt (op : Opcode) (i : IFields) (pc a b : Word) :
    (ofImmediate op i pc a b).AddressesAt (a + Decoder.signExtend i.imm) := by
  unfold ofImmediate
  split
  · trivial
  · trivial
  · rfl
  · rfl
  · rfl
  · rfl
  · split
    · rfl
    · exact ofAlu_addressesAt _ _ _ _ _

-- A load or store accesses rs + offset, and nothing else accesses memory.
theorem ofInstr_addressesAt (d : DecodedInstr) (cp0 : Cp0) (pc a b : Word) :
    (ofInstr d cp0 pc a b).AddressesAt (a + Decoder.signExtend d.i.imm) := by
  unfold ofInstr
  split
  · split_ifs
    · exact ofCop0_addressesAt _ _ _ _ _
    · exact ofSpecial_addressesAt _ _ _ _ _
  · exact ofImmediate_addressesAt _ _ _ _ _
  · trivial
  · rfl

-- The bad address of a trap is the address accessed, and 0 if it is no address error.
theorem AddressesAt.badAddr {act : Action} {addr : Word} (h : act.AddressesAt addr) {mem : Memory}
    {pc : Word} {code : ExceptionCode} {badAddr : Word}
    (hp : act.perform mem pc = .trap code badAddr) :
    badAddr = if code.isAddressError then addr else 0#32 := by
  cases act with
  | trap code' =>
    simp only [perform, Outcome.trap.injEq] at hp
    obtain ⟨rfl, rfl⟩ := hp
    have hcode : code'.isAddressError = false := h
    simp [hcode]
  | load op a dst =>
    obtain rfl : a = addr := h
    simp only [perform] at hp
    cases hl : loadData mem op a with
    | none =>
      simp only [hl, Outcome.trap.injEq] at hp
      simp [← hp.1, ← hp.2, ExceptionCode.isAddressError]
    | some value => simp [hl] at hp
  | store op a value =>
    obtain rfl : a = addr := h
    simp only [perform] at hp
    cases hs : storeData mem op a value with
    | none =>
      simp only [hs, Outcome.trap.injEq] at hp
      simp [← hp.1, ← hp.2, ExceptionCode.isAddressError]
    | some mem' => simp [hs] at hp
  | done gpr cp0 next => simp [perform] at hp

end Action

-- A CPU whose next step, if it raises an address error, does so for a known address.
class AddressTraps (P : Type) [IMipsProcessor P] where
  faultAddr : P → Word
  badVaddr_step (cpu : P) :
    (IMipsProcessor.cp0 (IMipsProcessor.step cpu).2).badVaddr =
      if (IMipsProcessor.step cpu).1 = .Exception then
        if (IMipsProcessor.cp0 (IMipsProcessor.step cpu).2).lastExc.isAddressError then
          faultAddr cpu
        else 0#32
      else (IMipsProcessor.cp0 cpu).badVaddr

theorem Cp0Access.apply_badVaddr (access : Cp0Access) (cp0 : Cp0) :
    (access.apply cp0).badVaddr = cp0.badVaddr := by
  cases access with
  | none | eret => rfl
  | write reg value =>
    simp only [apply, Cp0.write]
    split_ifs <;> rfl

namespace SingleCycleCpu

-- The fetch address, or the address the fetched instruction accesses.
def faultAddr (cpu : SingleCycleCpu) : Word :=
  match cpu.mem.readWord cpu.pc with
  | none => cpu.pc
  | some raw =>
      match Decoder.decode raw with
      | none => 0#32
      | some d => cpu.regs.read d.rsIdx + Decoder.signExtend d.i.imm

theorem badVaddr_step (cpu : SingleCycleCpu) :
    cpu.step.2.cp0.badVaddr =
      if cpu.step.1 = .Exception then
        if cpu.step.2.cp0.lastExc.isAddressError then cpu.faultAddr else 0#32
      else cpu.cp0.badVaddr := by
  cases hr : cpu.mem.readWord cpu.pc with
  | none =>
    rw [step_fault hr]
    simp only [if_true, faultAddr, hr]
    rfl
  | some raw =>
    cases hd : Decoder.decode raw with
    | none =>
      rw [step_reserved hr hd]
      rfl
    | some d =>
      rw [step_decoded hr hd]
      have haddr := Action.ofInstr_addressesAt d cpu.cp0 cpu.pc (cpu.regs.read d.rsIdx)
        (cpu.regs.read d.rtIdx)
      cases hact : (cpu.arch.action d).perform cpu.mem cpu.pc with
      | trap code badAddr =>
        have hbad := haddr.badAddr hact
        simp [resolve, Cp0.raise, faultAddr, hr, hd, hbad]
      | done gpr store mem cp0 next =>
        by_cases hn : next = cpu.pc <;> simp [resolve, hn, Cp0Access.apply_badVaddr]

end SingleCycleCpu

namespace PipelinedCpu

-- The address MEM accesses if MEM traps, else that of a failed fetch in EX.
def faultAddr (cpu : PipelinedCpu) : Word :=
  if cpu.pendingTrap.isSome then cpu.exMem.alu.value
  else if cpu.idEx.earlyTrap = some .AdEL then cpu.idEx.pc
  else 0#32

theorem memoryAccess_trap_addr {mem : Memory} {exMem : ExMem} {trap : Trap}
    (h : (memoryAccess mem exMem).1.trap = some trap) :
    trap.code.isAddressError = true ∧ trap.badAddr = exMem.alu.value := by
  unfold memoryAccess at h
  split at h
  · cases h
  · cases hl : (if exMem.ctrl.memRead then loadData mem exMem.opcode exMem.alu.value
        else some 0#32) with
    | none =>
      simp only [hl, Option.some.injEq] at h
      rw [← h]
      exact ⟨rfl, rfl⟩
    | some value =>
      simp only [hl] at h
      split at h
      · cases hs : storeData mem exMem.opcode exMem.alu.value exMem.rtVal with
        | none =>
          simp only [hs, Option.some.injEq] at h
          rw [← h]
          exact ⟨rfl, rfl⟩
        | some mem' => simp [hs] at h
      · cases h

theorem executeDecoded_trap {cp0 : Cp0} {inp : IdEx} {ops : ExOperands} {trap : Trap}
    (h : (executeDecoded cp0 inp ops).trap = some trap) :
    trap.code.isAddressError = false ∧ trap.badAddr = 0#32 := by
  unfold executeDecoded at h
  dsimp only at h
  split_ifs at h
  · rw [← Option.some.inj h]
    exact ⟨rfl, rfl⟩
  · rw [← Option.some.inj h]
    exact ⟨rfl, rfl⟩
  · cases hc : Alu.control inp.decoded with
    | none =>
      rw [hc] at h
      rw [← Option.some.inj h]
      exact ⟨rfl, rfl⟩
    | some aluop =>
      simp only [hc] at h
      split at h
      · rw [← Option.some.inj h]
        exact ⟨rfl, rfl⟩
      · cases h

theorem execute_trap_addr {cp0 : Cp0} {inp : IdEx} {exMem : ExMem} {memWb : MemWb} {trap : Trap}
    (h : (execute cp0 inp exMem memWb).trap = some trap) :
    trap.badAddr =
      if trap.code.isAddressError then if inp.earlyTrap = some .AdEL then inp.pc else 0#32
      else 0#32 := by
  cases hv : inp.valid with
  | false =>
    rw [execute_invalid _ _ _ hv] at h
    cases h
  | true =>
    simp only [execute, hv, Bool.not_true, Bool.false_eq_true, if_false] at h
    cases he : inp.earlyTrap with
    | some code =>
      simp only [he, Option.some.injEq] at h
      rw [← h]
      cases code <;> rfl
    | none =>
      simp only [he] at h
      obtain ⟨hcode, haddr⟩ := executeDecoded_trap h
      rw [hcode, haddr]
      rfl

theorem badVaddr_step (cpu : PipelinedCpu) :
    cpu.step.2.cp0.badVaddr =
      if cpu.step.1 = .Exception then
        if cpu.step.2.cp0.lastExc.isAddressError then cpu.faultAddr else 0#32
      else cpu.cp0.badVaddr := by
  cases ht : cpu.runStages.trap with
  | some trap =>
    have hx : cpu.step.1 = .Exception := cpu.step_exception_iff.mpr ⟨trap, ht⟩
    rw [if_pos hx, (step_of_trap ht).1]
    have hbad : trap.badAddr = if trap.code.isAddressError then cpu.faultAddr else 0#32 := by
      unfold faultAddr
      cases hp : cpu.pendingTrap with
      | some pending =>
        rw [trap_of_pending hp, Option.some.injEq] at ht
        subst ht
        obtain ⟨hcode, haddr⟩ := memoryAccess_trap_addr hp
        rw [hcode, haddr]
        rfl
      | none =>
        rw [trap_of_ex hp, runStages_ex cpu hp] at ht
        exact execute_trap_addr ht
    exact hbad
  | none =>
    have hx : cpu.step.1 ≠ .Exception := by
      intro hx
      obtain ⟨trap, htrap⟩ := cpu.step_exception_iff.mp hx
      rw [ht] at htrap
      cases htrap
    rw [if_neg hx, step_cp0, nextCp0, ht]
    have hwrite : ∀ mtc0 : Mtc0Write,
        (cpu.cp0.write mtc0.reg mtc0.value).badVaddr = cpu.cp0.badVaddr :=
      fun mtc0 => (Cp0Access.write mtc0.reg mtc0.value).apply_badVaddr cpu.cp0
    cases cpu.runStages.ex.mtc0 <;> cases cpu.runStages.ex.eret <;> simp [hwrite, Cp0.eret]

end PipelinedCpu

instance : AddressTraps SingleCycleCpu where
  faultAddr := SingleCycleCpu.faultAddr
  badVaddr_step := SingleCycleCpu.badVaddr_step

instance : AddressTraps PipelinedCpu where
  faultAddr := PipelinedCpu.faultAddr
  badVaddr_step := PipelinedCpu.badVaddr_step

section Runs

variable {P : Type} [IMipsProcessor P]

-- A CPU after a reset, with a program in its memory.
def afterReset (cpu : P) (clearMemory : Bool) (mem : Memory) (pc : Word) : P :=
  IMipsProcessor.setPc (IMipsProcessor.setMem (IMipsProcessor.reset cpu clearMemory) mem) pc

variable [AddressTraps P]

-- The trap a step raises, with the address it is for if it is an address error.
def addressTrap (cpu : P) : Option (ExceptionCode × Word) :=
  if (IMipsProcessor.step cpu).1 = .Exception then
    some ((IMipsProcessor.cp0 (IMipsProcessor.step cpu).2).lastExc, AddressTraps.faultAddr cpu)
  else none

theorem addressTrap_of_exception {cpu : P} {code : ExceptionCode} {addr : Word}
    (hx : (IMipsProcessor.step cpu).1 = .Exception)
    (hcode : (IMipsProcessor.cp0 (IMipsProcessor.step cpu).2).lastExc = code)
    (haddr : AddressTraps.faultAddr cpu = addr) : addressTrap cpu = some (code, addr) := by
  rw [addressTrap, if_pos hx, hcode, haddr]

-- The traps of the first `n` steps.
def addressTraps (cpu : P) (n : ℕ) : List (ExceptionCode × Word) :=
  Simulation.trace (fun c => (IMipsProcessor.step c).2) (fun c => (addressTrap c).toList) cpu n

-- The address of the most recent address error, 0 if there is none.
def lastBadAddress (traps : List (ExceptionCode × Word)) : Word :=
  ((traps.filter (·.1.isAddressError)).getLast?.map (·.2)).getD 0#32

-- What BadVAddr holds after those traps.
def badVaddrAfter (traps : List (ExceptionCode × Word)) : Word :=
  match traps.getLast? with
  | none => 0#32
  | some (code, addr) => if code.isAddressError then addr else 0#32

theorem badVaddr_run (cpu : P) (h : (IMipsProcessor.cp0 cpu).badVaddr = 0#32) (n : ℕ) :
    (IMipsProcessor.cp0 ((fun c => (IMipsProcessor.step c).2)^[n] cpu)).badVaddr =
      badVaddrAfter (addressTraps cpu n) := by
  induction n with
  | zero => exact h
  | succ n ih =>
    rw [Function.iterate_succ_apply', AddressTraps.badVaddr_step, addressTraps,
      Simulation.trace_succ, addressTrap]
    split_ifs with hx hcode
    · simp only [badVaddrAfter, Option.toList_some, List.getLast?_concat, if_pos hcode]
    · simp only [badVaddrAfter, Option.toList_some, List.getLast?_concat, if_neg hcode]
    · simpa [addressTraps] using ih

-- The two agree unless a trap of another kind is the last one.
theorem badVaddrAfter_eq_iff (traps : List (ExceptionCode × Word)) :
    badVaddrAfter traps = lastBadAddress traps ↔
      (∀ e ∈ traps.getLast?, e.1.isAddressError = true) ∨ lastBadAddress traps = 0#32 := by
  rcases List.eq_nil_or_concat traps with rfl | ⟨front, last, rfl⟩
  · simp [badVaddrAfter, lastBadAddress]
  · cases hl : last.1.isAddressError with
    | true => simp [badVaddrAfter, lastBadAddress, hl]
    | false =>
      have hafter : badVaddrAfter (front.concat last) = 0#32 := by simp [badVaddrAfter, hl]
      rw [hafter, eq_comm]
      simp [hl]

end Runs

-- In a run from reset BadVAddr names the last bad address if and only if no trap of
-- another kind came after it, or that address is 0 (or there is none).
theorem badVaddr_lastBadAddress (clearMemory : Bool) (mem : Memory) (pc : Word) (n : ℕ) :
    (∀ cpu : SingleCycleCpu, let start := afterReset cpu clearMemory mem pc
      (start.run n).cp0.badVaddr = lastBadAddress (addressTraps start n) ↔
        (∀ e ∈ (addressTraps start n).getLast?, e.1.isAddressError = true) ∨
          lastBadAddress (addressTraps start n) = 0#32) ∧
    ∀ cpu : PipelinedCpu, let start := afterReset cpu clearMemory mem pc
      (start.run n).cp0.badVaddr = lastBadAddress (addressTraps start n) ↔
        (∀ e ∈ (addressTraps start n).getLast?, e.1.isAddressError = true) ∨
          lastBadAddress (addressTraps start n) = 0#32 := by
  constructor
  · intro cpu start
    have hrun : (start.run n).cp0.badVaddr = badVaddrAfter (addressTraps start n) :=
      badVaddr_run start rfl n
    rw [hrun, badVaddrAfter_eq_iff]
  · intro cpu start
    have hrun : (start.run n).cp0.badVaddr = badVaddrAfter (addressTraps start n) :=
      badVaddr_run start rfl n
    rw [hrun, badVaddrAfter_eq_iff]

-- A handler whose SYSCALL comes after the address error of a misaligned load.
section SyscallHandler

variable {mem : Memory}

theorem syscallHandler_badVaddr (hload : mem.readWord 0#32 = some 0x8C010001#32)
    (hsyscall : mem.readWord kExceptionVector = some 0x0000000C#32) :
    let start : SingleCycleCpu := afterReset (SingleCycleCpu.create 0) true mem 0#32
    (start.run 2).cp0.badVaddr = 0#32 ∧ lastBadAddress (addressTraps start 2) = 1#32 := by
  intro start
  let load : DecodedInstr := { raw := 0x8C010001#32, opcode := .LW, format := .I,
                               fields := Fields.i { rs := 0#5, rt := 1#5, imm := 1#16 } }
  let syscall : DecodedInstr := { raw := 0x0000000C#32, opcode := .SPECIAL, format := .R,
                                  fields := Fields.r { funct := .SYSCALL } }
  have hd : Decoder.decode 0x8C010001#32 = some load := by decide
  have hd' : Decoder.decode 0x0000000C#32 = some syscall := by decide
  have haction : start.arch.action load = .load .LW 1#32 1#5 := rfl
  have hmiss : loadData mem .LW 1#32 = none := by simp [loadData, Memory.readWord]
  have hperform : (start.arch.action load).perform start.mem start.pc = .trap .AdEL 1#32 := by
    have hmem : start.mem = mem := rfl
    rw [haction, hmem, Action.perform, hmiss]
  have hstep : start.step = _ := SingleCycleCpu.step_decoded hload hd
  rw [hperform] at hstep
  have hnext : start.step.2.mem.readWord start.step.2.pc = some 0x0000000C#32 := by
    rw [hstep]
    exact hsyscall
  have hstep' : start.step.2.step = _ := SingleCycleCpu.step_decoded hnext hd'
  have hfirst : addressTrap start = some (.AdEL, 1#32) := by
    have haddr : start.faultAddr = 1#32 := by
      have hload' : start.mem.readWord start.pc = some 0x8C010001#32 := hload
      rw [SingleCycleCpu.faultAddr, hload']
      simp only [hd]
      rfl
    have hx : start.step.1 = .Exception := by rw [hstep]; rfl
    have hcode : start.step.2.cp0.lastExc = .AdEL := by rw [hstep]; rfl
    exact addressTrap_of_exception hx hcode haddr
  have hsecond : ∃ addr, addressTrap start.step.2 = some (.Sys, addr) := by
    have hx : start.step.2.step.1 = .Exception := by rw [hstep']; rfl
    have hcode : start.step.2.step.2.cp0.lastExc = .Sys := by rw [hstep']; rfl
    exact ⟨_, addressTrap_of_exception hx hcode rfl⟩
  obtain ⟨addr, hsecond⟩ := hsecond
  have htraps : addressTraps start 2 = [(.AdEL, 1#32), (.Sys, addr)] := by
    have hall : addressTraps start 2 =
        (addressTrap start).toList ++ (addressTrap start.step.2).toList := rfl
    rw [hall, hfirst, hsecond]
    rfl
  have hrun : (start.run 2).cp0.badVaddr = badVaddrAfter (addressTraps start 2) :=
    badVaddr_run start rfl 2
  rw [hrun, htraps]
  exact ⟨rfl, rfl⟩

end SyscallHandler

-- The two instructions in a memory that reaches up to the exception vector.
def syscallHandler : Memory :=
  ((Memory.ofSize 0x80000184).setWord 0#32 0x8C010001#32).setWord kExceptionVector 0x0000000C#32

theorem badVaddr_lost : ¬∀ (cpu : SingleCycleCpu) (clearMemory : Bool) (mem : Memory) (pc : Word)
    (n : ℕ), let start := afterReset cpu clearMemory mem pc
      (start.run n).cp0.badVaddr = lastBadAddress (addressTraps start n) := by
  intro hall
  have hsize : ((Memory.ofSize 0x80000184).setWord 0#32 0x8C010001#32).size = 0x80000184 := by
    rw [Memory.size_setWord, Memory.size_ofSize]
  have hfirst : (Memory.ofSize 0x80000184).writeWord 0#32 0x8C010001#32 =
      some ((Memory.ofSize 0x80000184).setWord 0#32 0x8C010001#32) :=
    Memory.writeWord_of_aligned (by decide) (by rw [Memory.size_ofSize]; decide) _
  have hsecond : ((Memory.ofSize 0x80000184).setWord 0#32 0x8C010001#32).writeWord
      kExceptionVector 0x0000000C#32 = some syscallHandler :=
    Memory.writeWord_of_aligned (by decide) (by rw [hsize]; decide) _
  have hload : syscallHandler.readWord 0#32 = some 0x8C010001#32 := by
    rw [Memory.readWord_writeWord_ne hsecond (by decide), Memory.readWord_writeWord hfirst]
  obtain ⟨hbad, hlast⟩ := syscallHandler_badVaddr hload (Memory.readWord_writeWord hsecond)
  have hlost := hall (SingleCycleCpu.create 0) true syscallHandler 0#32 2
  dsimp only at hlost
  rw [hbad, hlast] at hlost
  exact absurd hlost (by decide)

end ClearCore.Mips
