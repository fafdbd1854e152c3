import ClearCore.Mips.GdbStub.Breakpoints

-- What a reply to G, P, M, Z or z says about the state. G and M apply what they read as
-- they go, so an error reply to them keeps what came before the failure.

namespace ClearCore.Mips

open Isa Isa.Memory Gdb

namespace GdbStub

section Parsing

-- The longest run of indices below `count` from `i` on at which `p` holds.
def leading (p : ℕ → Bool) (i : ℕ) : ℕ → ℕ
  | 0 => 0
  | count + 1 => if p i then leading p (i + 1) count + 1 else 0

theorem leading_le (p : ℕ → Bool) (i count : ℕ) : leading p i count ≤ count := by
  induction count generalizing i with
  | zero => exact Nat.le_refl 0
  | succ count ih =>
    rw [leading]
    split_ifs
    · exact Nat.succ_le_succ (ih (i + 1))
    · exact Nat.zero_le _

-- The registers G sets before the first one without eight valid digits.
def readableRegs (hex : List Byte) : ℕ :=
  leading (fun n => (parseWordLe hex (n * 8)).isSome) 0 kNumRegs

-- The bytes M sets before the first one that cannot be read or written.
def writableBytes (hex : List Byte) (addr : Word) (size len : ℕ) : ℕ :=
  leading (fun i => (parseHexByte hex (i * 2)).isSome &&
    decide ((addr + BitVec.ofNat 32 i).toNat < size)) 0 len

-- The register number and the digits of a P packet.
def parseWriteReg (args : List Byte) : Option (ℕ × List Byte) := do
  let eq ← find args (byte '=')
  let n ← parseHex (args.take eq)
  if n.toNat ≥ kNumRegs then none
  return (n.toNat, args.drop (eq + 1))

-- The bytes P sets before the first that is incomplete or invalid.
def valueBytes (vs : List Byte) : ℕ := leading (fun b => (parseHexByte vs (b * 2)).isSome) 0 4

end Parsing

section Value

-- Byte `k` of the value of a P packet.
def valueByte (vs : List Byte) (k : ℕ) : Byte :=
  if k < valueBytes vs then (parseHexByte vs (k * 2)).getD 0#8 else 0#8

theorem parsePrefixLe_eq (vs : List Byte) :
    parsePrefixLe vs 0 0#32 4 =
      (valueByte vs 0).setWidth 32 ||| (valueByte vs 1).setWidth 32 <<< 8 |||
        (valueByte vs 2).setWidth 32 <<< 16 ||| (valueByte vs 3).setWidth 32 <<< 24 := by
  cases h0 : parseHexByte vs 0 with
  | none => simp [parsePrefixLe, valueByte, valueBytes, leading, h0]
  | some b0 =>
    cases h1 : parseHexByte vs 2 with
    | none => simp [parsePrefixLe, valueByte, valueBytes, leading, h0, h1]
    | some b1 =>
      cases h2 : parseHexByte vs 4 with
      | none => simp [parsePrefixLe, valueByte, valueBytes, leading, h0, h1, h2]
      | some b2 =>
        cases h3 : parseHexByte vs 6 with
        | none => simp [parsePrefixLe, valueByte, valueBytes, leading, h0, h1, h2, h3]
        | some b3 => simp [parsePrefixLe, valueByte, valueBytes, leading, h0, h1, h2, h3]

theorem wordByte_parsePrefixLe (vs : List Byte) {k : ℕ} (hk : k < 4) :
    wordByte (parsePrefixLe vs 0 0#32 4) k = valueByte vs k := by
  obtain ⟨h0, h1, h2, h3⟩ := wordByte_bytes (valueByte vs 0) (valueByte vs 1) (valueByte vs 2)
    (valueByte vs 3)
  rw [parsePrefixLe_eq]
  have hcases : k = 0 ∨ k = 1 ∨ k = 2 ∨ k = 3 := by omega
  rcases hcases with rfl | rfl | rfl | rfl
  · exact h0
  · exact h1
  · exact h2
  · exact h3

end Value

section Registers

variable {P : Type} [IMipsProcessor P]

theorem parseWriteReg_eq_some {args : List Byte} {n : ℕ} {vs : List Byte}
    (h : parseWriteReg args = some (n, vs)) :
    n < kNumRegs ∧ ∀ cpu : P,
      handleWriteReg cpu args = (true, writeGdbReg cpu n (parsePrefixLe vs 0 0#32 4)) := by
  unfold parseWriteReg at h
  cases heq : find args (byte '=') with
  | none => simp [heq] at h
  | some eq =>
    cases hn : parseHex (args.take eq) with
    | none => simp [heq, hn] at h
    | some reg =>
      by_cases hreg : reg.toNat ≥ kNumRegs
      · simp [heq, hn, hreg] at h
      · simp only [heq, hn, hreg, Option.bind_eq_bind, Option.bind_some, if_false, Option.pure_def,
          Option.some.injEq, Prod.mk.injEq] at h
        obtain ⟨rfl, rfl⟩ := h
        refine ⟨by omega, fun cpu => ?_⟩
        simp only [handleWriteReg, heq, hn, hreg, if_false]

theorem parseWriteReg_eq_none {args : List Byte} (h : parseWriteReg args = none) (cpu : P) :
    handleWriteReg cpu args = (false, cpu) := by
  unfold parseWriteReg at h
  cases heq : find args (byte '=') with
  | none => simp [handleWriteReg, heq]
  | some eq =>
    cases hn : parseHex (args.take eq) with
    | none => simp [handleWriteReg, heq, hn]
    | some reg =>
      by_cases hreg : reg.toNat ≥ kNumRegs
      · simp [handleWriteReg, heq, hn, hreg]
      · simp [heq, hn, hreg] at h

-- The CPU with the registers of `value` set, but for $0 and BadVAddr, which cannot be.
structure RegsSet (cpu cpu' : P) (value : ℕ → Option Word) : Prop where
  regs (n : ℕ) : readGdbReg cpu' n =
    if n = 0 ∨ n = 35 then readGdbReg cpu n else (value n).getD (readGdbReg cpu n)
  epc : (IMipsProcessor.cp0 cpu').epc = (IMipsProcessor.cp0 cpu).epc
  lastExc : (IMipsProcessor.cp0 cpu').lastExc = (IMipsProcessor.cp0 cpu).lastExc
  mem : IMipsProcessor.mem cpu' = IMipsProcessor.mem cpu

theorem RegsSet.refl (cpu : P) : RegsSet cpu cpu fun _ => none where
  regs n := by split_ifs <;> rfl
  epc := rfl
  lastExc := rfl
  mem := rfl

theorem RegsSet.trans {cpu cpu' cpu'' : P} {value value' : ℕ → Option Word}
    (h : RegsSet cpu cpu' value) (h' : RegsSet cpu' cpu'' value') :
    RegsSet cpu cpu'' fun n => (value' n).or (value n) where
  regs n := by
    rw [h'.regs, h.regs]
    split_ifs
    · rfl
    · cases value' n <;> rfl
  epc := by rw [h'.epc, h.epc]
  lastExc := by rw [h'.lastExc, h.lastExc]
  mem := by rw [h'.mem, h.mem]

theorem RegsSet.congr {cpu cpu' : P} {value value' : ℕ → Option Word}
    (h : RegsSet cpu cpu' value) (hv : ∀ n, value n = value' n) : RegsSet cpu cpu' value' := by
  obtain rfl : value = value' := funext hv
  exact h

-- What readGdbReg reads, off what can be reached of the CPU.
def shownReg (v : Visible) (n : ℕ) : Word :=
  if n < 32 then v.regs.read (BitVec.ofNat 5 n)
  else if n = 32 then v.cp0.status
  else if n = 33 then v.lo
  else if n = 34 then v.hi
  else if n = 35 then v.cp0.badVaddr
  else if n = 36 then v.cp0.cause
  else if n = 37 then v.pc
  else 0#32

theorem readGdbReg_eq (cpu : P) (n : ℕ) : readGdbReg cpu n = shownReg (visible cpu) n := rfl

theorem shownReg_write (v : Visible) {n : ℕ} (hn : n < 32) (value : Word) (m : ℕ) :
    shownReg { v with regs := v.regs.write (BitVec.ofNat 5 n) value } m =
      if m = n ∧ n ≠ 0 then value else shownReg v m := by
  have hzero : BitVec.ofNat 5 n = 0#5 ↔ n = 0 := by
    rw [← BitVec.toNat_inj, BitVec.toNat_ofNat, BitVec.toNat_ofNat]
    omega
  by_cases hm : m < 32
  · have hsame : BitVec.ofNat 5 m = BitVec.ofNat 5 n ↔ m = n := by
      rw [← BitVec.toNat_inj, BitVec.toNat_ofNat, BitVec.toNat_ofNat]
      omega
    simp only [shownReg, hm, if_true, RegisterFile.read_write, hsame, Ne, hzero]
  · have hne : ¬(m = n ∧ n ≠ 0) := by omega
    simp only [shownReg, hm, hne, if_false]

-- A CPU that shows another value in one slot only.
theorem RegsSet.of_slot {cpu cpu' : P} {v : Visible} (hv : visible cpu' = v) {n : ℕ} {value : Word}
    (hself : shownReg v n = if n = 0 ∨ n = 35 then readGdbReg cpu n else value)
    (hother : ∀ m, m ≠ n → shownReg v m = readGdbReg cpu m)
    (hepc : v.cp0.epc = (IMipsProcessor.cp0 cpu).epc)
    (hlastExc : v.cp0.lastExc = (IMipsProcessor.cp0 cpu).lastExc)
    (hmem : v.mem = IMipsProcessor.mem cpu) :
    RegsSet cpu cpu' fun m => if m = n then some value else none := by
  subst hv
  refine ⟨fun m => ?_, hepc, hlastExc, hmem⟩
  rw [readGdbReg_eq]
  by_cases hm : m = n
  · subst hm
    rw [hself, if_pos rfl]
    rfl
  · rw [hother m hm, if_neg hm, Option.getD_none, ite_self]

variable [LawfulSetters P]

-- One register.
theorem writeGdbReg_set (cpu : P) {n : ℕ} (hn : n < kNumRegs) (value : Word) :
    RegsSet cpu (writeGdbReg cpu n value) fun m => if m = n then some value else none := by
  have hn' : n < 38 := hn
  have hcases : n < 32 ∨ n = 32 ∨ n = 33 ∨ n = 34 ∨ n = 35 ∨ n = 36 ∨ n = 37 := by omega
  rcases hcases with hlt | rfl | rfl | rfl | rfl | rfl | rfl
  · rw [writeGdbReg, if_pos hlt]
    refine .of_slot (LawfulSetters.setRegs cpu _) ?_ (fun m hm => ?_) rfl rfl rfl
    · refine (shownReg_write (visible cpu) hlt value n).trans ?_
      by_cases hzero : n = 0
      · rw [if_neg fun h => h.2 hzero, if_pos (.inl hzero), readGdbReg_eq]
      · rw [if_pos ⟨rfl, hzero⟩, if_neg (by omega)]
    · refine (shownReg_write (visible cpu) hlt value m).trans ?_
      rw [if_neg fun h => hm h.1, readGdbReg_eq]
  · refine .of_slot (LawfulSetters.setCp0 cpu _) rfl (fun m hm => ?_) rfl rfl rfl
    simp only [readGdbReg_eq, shownReg, hm, if_false]
    rfl
  · refine .of_slot (LawfulSetters.setLo cpu value) rfl (fun m hm => ?_) rfl rfl rfl
    simp only [readGdbReg_eq, shownReg, hm, if_false]
  · refine .of_slot (LawfulSetters.setHi cpu value) rfl (fun m hm => ?_) rfl rfl rfl
    simp only [readGdbReg_eq, shownReg, hm, if_false]
  · exact .of_slot rfl rfl (fun _ _ => rfl) rfl rfl rfl
  · refine .of_slot (LawfulSetters.setCp0 cpu _) rfl (fun m hm => ?_) rfl rfl rfl
    simp only [readGdbReg_eq, shownReg, hm, if_false]
    rfl
  · refine .of_slot (LawfulSetters.setPc cpu value) rfl (fun m hm => ?_) rfl rfl rfl
    simp only [readGdbReg_eq, shownReg, hm, if_false]

-- The loop of G sets the registers up to the first that is unreadable.
theorem writeRegsFrom_set (hex : List Byte) (cpu : P) (i count : ℕ) (hi : i + count = kNumRegs) :
    let k := leading (fun n => (parseWordLe hex (n * 8)).isSome) i count
    (writeRegsFrom hex cpu i count).1 = decide (k = count) ∧
      RegsSet cpu (writeRegsFrom hex cpu i count).2 fun n =>
        if i ≤ n ∧ n < i + k then parseWordLe hex (n * 8) else none := by
  induction count generalizing cpu i with
  | zero =>
    refine ⟨rfl, (RegsSet.refl cpu).congr fun n => ?_⟩
    rw [leading, if_neg (by omega)]
  | succ count ih =>
    cases hv : parseWordLe hex (i * 8) with
    | none =>
      simp only [writeRegsFrom, leading, hv, Option.isSome_none, Bool.false_eq_true, if_false]
      refine ⟨rfl, (RegsSet.refl cpu).congr fun n => ?_⟩
      rw [if_neg (by omega)]
    | some value =>
      obtain ⟨hok, hset⟩ := ih (writeGdbReg cpu i value) (i + 1) (by omega)
      simp only [writeRegsFrom, leading, hv, Option.isSome_some, if_true]
      refine ⟨by simpa using hok, ?_⟩
      refine ((writeGdbReg_set cpu (by omega) value).trans hset).congr fun n => ?_
      by_cases hn : n = i
      · subst hn
        rw [if_neg (by omega), if_pos rfl, if_pos (by omega), hv, Option.none_or]
      · have hiff : i ≤ n ∧ n < i + (leading (fun n => (parseWordLe hex (n * 8)).isSome)
            (i + 1) count + 1) ↔ i + 1 ≤ n ∧ n < i + 1 + leading (fun n =>
            (parseWordLe hex (n * 8)).isSome) (i + 1) count := by omega
        simp only [hiff, hn, if_false, Option.or_none]

end Registers

section Bytes

-- Offsets below 2^32 reach different addresses.
theorem addr_ne (addr : Word) {i j : ℕ} (hi : i < 2 ^ 32) (hj : j < 2 ^ 32) (hne : i ≠ j) :
    (addr + BitVec.ofNat 32 i).toNat ≠ (addr + BitVec.ofNat 32 j).toNat := by
  intro h
  have hoff : BitVec.ofNat 32 i = BitVec.ofNat 32 j :=
    (BitVec.add_right_inj addr).mp (BitVec.eq_of_toNat_eq h)
  have htoNat := congrArg BitVec.toNat hoff
  rw [BitVec.toNat_ofNat, BitVec.toNat_ofNat, Nat.mod_eq_of_lt hi, Nat.mod_eq_of_lt hj] at htoNat
  exact hne htoNat

-- The loop of M sets the bytes up to the first that cannot be read or written.
theorem writeMemFrom_set (hex : List Byte) (addr : Word) (mem : Memory) {i count : ℕ}
    (hi : i + count ≤ 2 ^ 32) :
    let k := leading (fun j => (parseHexByte hex (j * 2)).isSome &&
      decide ((addr + BitVec.ofNat 32 j).toNat < mem.size)) i count
    (writeMemFrom hex addr mem i count).1 = decide (k = count) ∧
      (∀ j, i ≤ j → j < i + k →
        (writeMemFrom hex addr mem i count).2.data[(addr + BitVec.ofNat 32 j).toNat]? =
          parseHexByte hex (j * 2)) ∧
      ∀ n, (∀ j, i ≤ j → j < i + k → (addr + BitVec.ofNat 32 j).toNat ≠ n) →
        (writeMemFrom hex addr mem i count).2.data[n]? = mem.data[n]? := by
  induction count generalizing mem i with
  | zero => exact ⟨rfl, fun j hj hj' => absurd hj' (by rw [leading]; omega), fun _ _ => rfl⟩
  | succ count ih =>
    cases hv : parseHexByte hex (i * 2) with
    | none =>
      simp only [writeMemFrom, leading, hv, Option.isSome_none, Bool.false_and,
        Bool.false_eq_true, if_false]
      exact ⟨rfl, fun j hj hj' => absurd hj' (by omega), fun _ _ => trivial⟩
    | some value =>
      by_cases hb : (addr + BitVec.ofNat 32 i).toNat < mem.size
      · have hin : mem.inBounds (addr + BitVec.ofNat 32 i) 1 = true := decide_eq_true hb
        obtain ⟨hok, hbytes, hothers⟩ :=
          ih (mem.setByte (addr + BitVec.ofNat 32 i) value) (i := i + 1) (by omega)
        simp only [size_setByte] at hok hbytes hothers
        simp only [writeMemFrom, leading, hv, Option.isSome_some, Bool.true_and, decide_true, hb,
          if_true, Memory.writeByte, hin, not_true_eq_false, if_false]
        refine ⟨by simpa using hok, ?_, ?_⟩
        · intro j hj hj'
          have hle := leading_le (fun j => (parseHexByte hex (j * 2)).isSome &&
            decide ((addr + BitVec.ofNat 32 j).toNat < mem.size)) (i + 1) count
          by_cases he : j = i
          · subst he
            rw [hothers _ fun m hm hm' => addr_ne addr (by omega) (by omega) (by omega),
              getElem?_setByte hb, if_pos rfl, hv]
          · exact hbytes j (by omega) (by omega)
        · intro n hn
          rw [hothers n fun j hj hj' => hn j (by omega) (by omega), getElem?_setByte hb,
            if_neg (Ne.symm (hn i (Nat.le_refl i) (by omega)))]
      · have hin : mem.inBounds (addr + BitVec.ofNat 32 i) 1 = false := decide_eq_false hb
        simp only [writeMemFrom, leading, hv, hb, decide_false, Bool.and_false,
          Bool.false_eq_true, if_false, Memory.writeByte, hin, not_false_eq_true, if_true]
        exact ⟨rfl, fun j hj hj' => absurd hj' (by omega), fun _ _ => trivial⟩

end Bytes

section Replies

variable {P : Type} [IMipsProcessor P]

-- The CPU with `count` bytes from `addr` on set, and nothing else.
structure BytesSet (cpu cpu' : P) (addr : Word) (data : ℕ → Option Byte) (count : ℕ) : Prop where
  regs (n : ℕ) : readGdbReg cpu' n = readGdbReg cpu n
  cp0 : IMipsProcessor.cp0 cpu' = IMipsProcessor.cp0 cpu
  bytes : ∀ i < count, (IMipsProcessor.mem cpu').data[(addr + BitVec.ofNat 32 i).toNat]? = data i
  others : ∀ n, (∀ i < count, (addr + BitVec.ofNat 32 i).toNat ≠ n) →
    (IMipsProcessor.mem cpu').data[n]? = (IMipsProcessor.mem cpu).data[n]?

variable (stub : GdbStub P) (fuel : ℕ) (args : List Byte)

-- G sets the registers before the first unreadable one, and replies OK if that is all.
def AnswersWriteRegs : Prop :=
  (args.length < kNumRegs * 8 →
    stub.dispatch fuel (byte 'G' :: args) = some (stub.sendError 1)) ∧
  (kNumRegs * 8 ≤ args.length → ∃ cpu : P,
    stub.dispatch fuel (byte 'G' :: args) =
      some (okOrError { stub with cpu } (decide (readableRegs args = kNumRegs))) ∧
    RegsSet stub.cpu cpu fun n =>
      if n < readableRegs args then parseWordLe args (n * 8) else none)

-- P sets one register to the bytes that are there and valid, and replies OK.
def AnswersWriteReg : Prop :=
  (parseWriteReg args = none →
    stub.dispatch fuel (byte 'P' :: args) = some (stub.sendError 1)) ∧
  (∀ n vs, parseWriteReg args = some (n, vs) → ∃ (cpu : P) (value : Word),
    stub.dispatch fuel (byte 'P' :: args) = some (sendOk { stub with cpu }) ∧
    (∀ k < 4, wordByte value k = valueByte vs k) ∧
    RegsSet stub.cpu cpu fun m => if m = n then some value else none)

-- M sets the bytes before the first that cannot be read or written, and replies OK if
-- that is all.
def AnswersWriteMem : Prop :=
  (parseWriteMem args = none →
    stub.dispatch fuel (byte 'M' :: args) = some (stub.sendError 1)) ∧
  (∀ addr len hex, parseWriteMem args = some (addr, len, hex) → ∃ cpu : P,
    let k := writableBytes hex addr (IMipsProcessor.mem stub.cpu).size len.toNat
    stub.dispatch fuel (byte 'M' :: args) =
      some (okOrError { stub with cpu } (decide (k = len.toNat))) ∧
    BytesSet stub.cpu cpu addr (fun i => parseHexByte hex (i * 2)) k)

-- Z leaves everything as it was if its address is not that of a word of the memory.
def AnswersBreakpointSet : Prop :=
  (parseBreakpoint args = .malformed →
    stub.dispatch fuel (byte 'Z' :: args) = some (stub.sendError 1)) ∧
  (parseBreakpoint args = .unsupported →
    stub.dispatch fuel (byte 'Z' :: args) = some stub.sendEmpty) ∧
  (∀ addr, parseBreakpoint args = .software addr →
    (IMipsProcessor.mem stub.cpu).readWord addr = none →
    (∀ bp ∈ stub.breakpoints, bp.addr ≠ addr) →
    stub.dispatch fuel (byte 'Z' :: args) = some (stub.sendError 1))

-- z leaves everything as it was if there is no breakpoint at its address.
def AnswersBreakpointClear : Prop :=
  (parseBreakpoint args = .malformed →
    stub.dispatch fuel (byte 'z' :: args) = some (stub.sendError 1)) ∧
  (parseBreakpoint args = .unsupported →
    stub.dispatch fuel (byte 'z' :: args) = some stub.sendEmpty) ∧
  (∀ addr, parseBreakpoint args = .software addr →
    (∀ bp ∈ stub.breakpoints, bp.addr ≠ addr) →
    stub.dispatch fuel (byte 'z' :: args) = some (stub.sendError 1))

variable [LawfulSetters P]

theorem dispatch_writeRegs : AnswersWriteRegs stub fuel args := by
  have hdispatch : stub.dispatch fuel (byte 'G' :: args) =
      some (okOrError { stub with cpu := (handleWriteRegs stub.cpu args).2 }
        (handleWriteRegs stub.cpu args).1) := rfl
  rw [AnswersWriteRegs, hdispatch, handleWriteRegs]
  constructor
  · intro hshort
    rw [if_pos hshort]
    rfl
  · intro hlong
    rw [if_neg (by omega)]
    obtain ⟨hok, hset⟩ := writeRegsFrom_set args stub.cpu 0 kNumRegs rfl
    refine ⟨_, by rw [hok]; rfl, hset.congr fun n => ?_⟩
    simp only [Nat.zero_le, true_and, Nat.zero_add]
    rfl

theorem dispatch_writeReg : AnswersWriteReg stub fuel args := by
  have hdispatch : stub.dispatch fuel (byte 'P' :: args) =
      some (okOrError { stub with cpu := (handleWriteReg stub.cpu args).2 }
        (handleWriteReg stub.cpu args).1) := rfl
  rw [AnswersWriteReg, hdispatch]
  constructor
  · intro h
    rw [parseWriteReg_eq_none h]
    rfl
  · intro n vs h
    obtain ⟨hn, hwrite⟩ := parseWriteReg_eq_some (P := P) h
    rw [hwrite]
    exact ⟨_, _, rfl, fun k hk => wordByte_parsePrefixLe vs hk, writeGdbReg_set _ hn _⟩

theorem dispatch_writeMem : AnswersWriteMem stub fuel args := by
  have hdispatch : stub.dispatch fuel (byte 'M' :: args) =
      some (okOrError
        { stub with
          cpu := IMipsProcessor.setMem stub.cpu
            (handleWriteMem (IMipsProcessor.mem stub.cpu) args).2 }
        (handleWriteMem (IMipsProcessor.mem stub.cpu) args).1) := rfl
  rw [AnswersWriteMem, hdispatch, handleWriteMem]
  constructor
  · intro h
    rw [h]
    simp only [LawfulSetters.setMem_mem]
    rfl
  · intro addr len hex h
    rw [h]
    have hlen : 0 + len.toNat ≤ 2 ^ 32 := by
      have := len.isLt
      omega
    obtain ⟨hok, hbytes, hothers⟩ := writeMemFrom_set hex addr (IMipsProcessor.mem stub.cpu) hlen
    have hset := LawfulSetters.setMem stub.cpu
      (writeMemFrom hex addr (IMipsProcessor.mem stub.cpu) 0 len.toNat).2
    simp only [visible, Visible.mk.injEq] at hset
    obtain ⟨hregs, hmem, hcp0, hhi, hlo, hpc⟩ := hset
    refine ⟨_, by rw [hok]; rfl, ?_⟩
    constructor
    · intro n
      simp only [readGdbReg, hregs, hcp0, hhi, hlo, hpc]
    · exact hcp0
    · intro i hi
      rw [hmem]
      exact hbytes i (Nat.zero_le i) (by rw [Nat.zero_add]; exact hi)
    · intro n hn
      rw [hmem]
      exact hothers n fun i _ hi => hn i (by rw [Nat.zero_add] at hi; exact hi)

theorem dispatch_breakpointSet : AnswersBreakpointSet stub fuel args := by
  have hdispatch : stub.dispatch fuel (byte 'Z' :: args) =
      some (handleBreakpoint insertBreakpoint stub args) := rfl
  rw [AnswersBreakpointSet, hdispatch, handleBreakpoint]
  refine ⟨fun h => by rw [h], fun h => by rw [h], fun addr h hread hnew => ?_⟩
  have hany : (stub.breakpoints.any fun bp => bp.addr = addr) = false := by
    rw [List.any_eq_false]
    simpa using hnew
  have hinsert : insertBreakpoint (IMipsProcessor.mem stub.cpu) stub.breakpoints addr =
      (false, IMipsProcessor.mem stub.cpu, stub.breakpoints) := by
    rw [insertBreakpoint, hany, hread]
    rfl
  rw [h]
  simp only [hinsert, LawfulSetters.setMem_mem]
  rfl

theorem dispatch_breakpointClear : AnswersBreakpointClear stub fuel args := by
  have hdispatch : stub.dispatch fuel (byte 'z' :: args) =
      some (handleBreakpoint removeBreakpoint stub args) := rfl
  rw [AnswersBreakpointClear, hdispatch, handleBreakpoint]
  refine ⟨fun h => by rw [h], fun h => by rw [h], fun addr h hnew => ?_⟩
  have hfind : stub.breakpoints.find? (fun bp => bp.addr = addr) = none := by
    rw [List.find?_eq_none]
    simpa using hnew
  have hremove : removeBreakpoint (IMipsProcessor.mem stub.cpu) stub.breakpoints addr =
      (false, IMipsProcessor.mem stub.cpu, stub.breakpoints) := by
    rw [removeBreakpoint, hfind]
  rw [h]
  simp only [hremove, LawfulSetters.setMem_mem]
  rfl

end Replies

section Table

variable {P : Type} [IMipsProcessor P]

-- Every breakpoint replaces a word of the memory.
def InMemory (mem : Memory) (breakpoints : List Breakpoint) : Prop :=
  ∀ bp ∈ breakpoints, (mem.readWord bp.addr).isSome = true

theorem InMemory.congr {mem mem' : Memory} {breakpoints : List Breakpoint}
    (h : InMemory mem breakpoints) (hsize : mem'.size = mem.size) : InMemory mem' breakpoints := by
  intro bp hbp
  rw [readWord_isSome_congr hsize]
  exact h bp hbp

theorem InMemory.insert {mem : Memory} {breakpoints : List Breakpoint} (h : InMemory mem breakpoints)
    (addr : Word) : InMemory (insertBreakpoint mem breakpoints addr).2.1
      (insertBreakpoint mem breakpoints addr).2.2 := by
  rw [insertBreakpoint]
  split
  · exact h
  · split
    · exact h
    · rename_i word hread
      split
      · exact h
      · rename_i mem' hwrite
        have hsize := size_writeWord hwrite
        intro bp hbp
        rcases List.mem_append.mp hbp with hbp | hbp
        · exact h.congr hsize bp hbp
        · rw [List.mem_singleton.mp hbp, readWord_isSome_congr hsize, hread]
          rfl

theorem size_removeBreakpoint (mem : Memory) (breakpoints : List Breakpoint) (addr : Word) :
    (removeBreakpoint mem breakpoints addr).2.1.size = mem.size := by
  rw [removeBreakpoint]
  split
  · rfl
  · rename_i bp hfind
    cases hwrite : mem.writeWord addr bp.savedWord with
    | none => rw [Option.getD_none]
    | some mem' =>
      rw [Option.getD_some]
      exact size_writeWord hwrite

theorem InMemory.remove {mem : Memory} {breakpoints : List Breakpoint} (h : InMemory mem breakpoints)
    (addr : Word) : InMemory (removeBreakpoint mem breakpoints addr).2.1
      (removeBreakpoint mem breakpoints addr).2.2 := by
  refine InMemory.congr ?_ (size_removeBreakpoint mem breakpoints addr)
  rw [removeBreakpoint]
  split
  · exact h
  · exact fun bp hbp => h bp (List.mem_of_mem_eraseP hbp)

theorem size_writeMemFrom (hex : List Byte) (addr : Word) (mem : Memory) (i count : ℕ) :
    (writeMemFrom hex addr mem i count).2.size = mem.size := by
  rw [writeMemFrom_eq]
  generalize bytesWritten hex addr mem.size i count = writes
  induction writes generalizing mem with
  | nil => rfl
  | cons w writes ih => rw [List.foldl_cons, ih, size_setByte]

-- A packet keeps the breakpoints and the size of the memory.
structure KeepsTable (stub next : GdbStub P) : Prop where
  breakpoints : next.breakpoints = stub.breakpoints
  size : (IMipsProcessor.mem next.cpu).size = (IMipsProcessor.mem stub.cpu).size

theorem KeepsTable.refl (stub : GdbStub P) : KeepsTable stub stub := ⟨rfl, rfl⟩

theorem KeepsTable.trans {stub mid next : GdbStub P} (h : KeepsTable stub mid)
    (h' : KeepsTable mid next) : KeepsTable stub next :=
  ⟨h'.breakpoints.trans h.breakpoints, h'.size.trans h.size⟩

theorem KeepsTable.inMemory {stub next : GdbStub P} (h : KeepsTable stub next)
    (hin : InMemory (IMipsProcessor.mem stub.cpu) stub.breakpoints) :
    InMemory (IMipsProcessor.mem next.cpu) next.breakpoints := by
  rw [h.breakpoints]
  exact hin.congr h.size

-- The reply of a command that changes the CPU alone.
theorem keepsTable_okOrError (stub : GdbStub P) {cpu : P} (ok : Bool)
    (hsize : (IMipsProcessor.mem cpu).size = (IMipsProcessor.mem stub.cpu).size) :
    KeepsTable stub (okOrError { stub with cpu } ok) :=
  ⟨okOrError_breakpoints _ ok, by rw [okOrError_cpu, hsize]⟩

theorem keepsTable_pollTurn (stub : GdbStub P) (steps : ℕ) :
    KeepsTable stub (stub.pollTurn steps).2 := by
  rw [pollTurn]
  split
  · split <;> exact ⟨rfl, rfl⟩
  · exact .refl stub

theorem keepsTable_handleQuery (stub : GdbStub P) (args : List Byte) :
    KeepsTable stub (stub.handleQuery args) := by
  rw [handleQuery]
  split_ifs <;> exact ⟨rfl, rfl⟩

-- The stub a packet leaves, if it has been dispatched, has its breakpoints in memory.
def LeavesInMemory (reply : Option (GdbStub P)) : Prop :=
  ∀ next, reply = some next → InMemory (IMipsProcessor.mem next.cpu) next.breakpoints

theorem LeavesInMemory.ite {c : Prop} [Decidable c] {a b : Option (GdbStub P)}
    (ha : LeavesInMemory a) (hb : LeavesInMemory b) : LeavesInMemory (if c then a else b) := by
  by_cases hc : c
  · rw [if_pos hc]
    exact ha
  · rw [if_neg hc]
    exact hb

theorem KeepsTable.leaves {stub next : GdbStub P} (h : KeepsTable stub next)
    (hin : InMemory (IMipsProcessor.mem stub.cpu) stub.breakpoints) :
    LeavesInMemory (some next) := by
  intro next' hnext
  obtain rfl := Option.some.inj hnext
  exact h.inMemory hin

section

variable [LawfulProcessor P]

theorem keepsTable_stepCpu (stub : GdbStub P) : KeepsTable stub stub.stepCpu :=
  ⟨rfl, LawfulProcessor.size_step stub.cpu⟩

end

variable [LawfulSetters P]

theorem mem_setPc (cpu : P) (pc : Word) :
    IMipsProcessor.mem (IMipsProcessor.setPc cpu pc) = IMipsProcessor.mem cpu :=
  congrArg Visible.mem (LawfulSetters.setPc cpu pc)

theorem mem_setMem (cpu : P) (mem : Memory) :
    IMipsProcessor.mem (IMipsProcessor.setMem cpu mem) = mem :=
  congrArg Visible.mem (LawfulSetters.setMem cpu mem)

theorem keepsTable_resumeAt (stub : GdbStub P) (args : List Byte) :
    KeepsTable stub (stub.resumeAt args) := by
  rw [resumeAt]
  split
  · exact ⟨rfl, by rw [mem_setPc]⟩
  · exact .refl stub

theorem keepsTable_reportException (stub : GdbStub P) :
    KeepsTable stub stub.reportException :=
  ⟨rfl, congrArg Memory.size (mem_setPc _ _)⟩

theorem keepsTable_writeRegs (stub : GdbStub P) (args : List Byte) (ok : Bool) :
    KeepsTable stub (okOrError { stub with cpu := (handleWriteRegs stub.cpu args).2 } ok) := by
  apply keepsTable_okOrError
  rw [handleWriteRegs]
  split
  · rfl
  · exact congrArg Memory.size (writeRegsFrom_set args stub.cpu 0 kNumRegs rfl).2.mem

theorem keepsTable_writeReg (stub : GdbStub P) (args : List Byte) (ok : Bool) :
    KeepsTable stub (okOrError { stub with cpu := (handleWriteReg stub.cpu args).2 } ok) := by
  apply keepsTable_okOrError
  cases h : parseWriteReg args with
  | none => rw [parseWriteReg_eq_none h]
  | some parsed =>
    obtain ⟨hn, hwrite⟩ := parseWriteReg_eq_some (P := P) h
    rw [hwrite]
    exact congrArg Memory.size (writeGdbReg_set stub.cpu hn _).mem

theorem keepsTable_writeMem (stub : GdbStub P) (args : List Byte) (ok : Bool) :
    KeepsTable stub (okOrError
      { stub with
        cpu := IMipsProcessor.setMem stub.cpu
          (handleWriteMem (IMipsProcessor.mem stub.cpu) args).2 } ok) := by
  apply keepsTable_okOrError
  rw [mem_setMem, handleWriteMem]
  split
  · rfl
  · exact size_writeMemFrom _ _ _ _ _

theorem leavesInMemory_handleBreakpoint
    {apply : Memory → List Breakpoint → Word → Bool × Memory × List Breakpoint} {stub : GdbStub P}
    (hin : InMemory (IMipsProcessor.mem stub.cpu) stub.breakpoints)
    (happly : ∀ addr, InMemory (apply (IMipsProcessor.mem stub.cpu) stub.breakpoints addr).2.1
      (apply (IMipsProcessor.mem stub.cpu) stub.breakpoints addr).2.2) (args : List Byte) :
    LeavesInMemory (some (handleBreakpoint apply stub args)) := by
  intro next hnext
  obtain rfl := Option.some.inj hnext
  rw [handleBreakpoint]
  split
  · exact hin
  · exact hin
  · rename_i addr _
    simp only [okOrError_cpu, okOrError_breakpoints, mem_setMem]
    exact happly addr

variable [LawfulProcessor P]

theorem keepsTable_continueLoop {fuel steps : ℕ} {stub next : GdbStub P}
    (h : continueLoop fuel steps stub = some next) : KeepsTable stub next := by
  induction fuel generalizing steps stub with
  | zero => simp [continueLoop] at h
  | succ fuel ih =>
    rw [continueLoop] at h
    have hpoll := keepsTable_pollTurn stub (steps + 1)
    obtain ⟨⟨ended, polled⟩, hp⟩ : ∃ p, stub.pollTurn (steps + 1) = p := ⟨_, rfl⟩
    rw [hp] at hpoll
    simp only [hp] at h
    cases ended with
    | true =>
      rw [if_pos rfl, Option.some.injEq] at h
      exact h ▸ hpoll
    | false =>
      rw [if_neg Bool.false_ne_true] at h
      have hstep := hpoll.trans (keepsTable_stepCpu polled)
      cases hres : polled.stepCpu.lastResult with
      | Ok =>
        rw [hres] at h
        exact hstep.trans (ih h)
      | Exception =>
        simp only [hres, Option.some.injEq] at h
        subst h
        exact hstep.trans ⟨rfl, congrArg Memory.size (mem_setPc _ _)⟩
      | Fault | Halt =>
        simp only [hres, Option.some.injEq] at h
        subst h
        exact hstep.trans ⟨rfl, rfl⟩

theorem keepsTable_handleStep (stub : GdbStub P) (args : List Byte) :
    KeepsTable stub (stub.handleStep args) := by
  have hstep := (keepsTable_resumeAt stub args).trans (keepsTable_stepCpu _)
  rw [handleStep]
  split
  · exact hstep.trans (keepsTable_reportException _)
  · exact hstep.trans ⟨rfl, rfl⟩

theorem leavesInMemory_dispatch {stub : GdbStub P}
    (hin : InMemory (IMipsProcessor.mem stub.cpu) stub.breakpoints) (fuel : ℕ)
    (pkt : List Byte) : LeavesInMemory (stub.dispatch fuel pkt) := by
  have hreply : ∀ data, LeavesInMemory (some (stub.sendPacket data)) :=
    fun data => KeepsTable.leaves ⟨rfl, rfl⟩ hin
  cases pkt with
  | nil => exact hreply _
  | cons cmd args =>
    refine .ite (hreply _) (.ite (hreply _) (.ite ?G (.ite (hreply _) (.ite ?P (.ite (hreply _)
      (.ite ?M (.ite ?c (.ite ?s (.ite ?Z (.ite ?z (.ite ?k (.ite (hreply _) (.ite ?q
      (hreply _))))))))))))))
    case G => exact (keepsTable_writeRegs stub args _).leaves hin
    case P => exact (keepsTable_writeReg stub args _).leaves hin
    case M => exact (keepsTable_writeMem stub args _).leaves hin
    case c =>
      intro next hnext
      have hstart : KeepsTable stub { stub.resumeAt args with running := true } :=
        ⟨(keepsTable_resumeAt stub args).breakpoints, (keepsTable_resumeAt stub args).size⟩
      exact (hstart.trans (keepsTable_continueLoop hnext)).inMemory hin
    case s => exact (keepsTable_handleStep stub args).leaves hin
    case Z => exact leavesInMemory_handleBreakpoint hin hin.insert args
    case z => exact leavesInMemory_handleBreakpoint hin hin.remove args
    case k =>
      have hkeep : KeepsTable stub (sendOk { stub with running := false, detached := true }) :=
        ⟨rfl, rfl⟩
      exact hkeep.leaves hin
    case q => exact (keepsTable_handleQuery stub args).leaves hin

theorem session_inMemory {fuel : ℕ} {stub next : GdbStub P} {pkts : List (List Byte)}
    (hin : InMemory (IMipsProcessor.mem stub.cpu) stub.breakpoints)
    (hrun : stub.session fuel pkts = some next) :
    InMemory (IMipsProcessor.mem next.cpu) next.breakpoints := by
  induction pkts generalizing stub with
  | nil =>
    obtain rfl := Option.some.inj hrun
    exact hin
  | cons pkt pkts ih =>
    rw [session] at hrun
    cases hd : stub.detached with
    | true =>
      rw [hd, if_pos rfl, Option.some.injEq] at hrun
      exact hrun ▸ hin
    | false =>
      rw [hd, if_neg Bool.false_ne_true] at hrun
      obtain ⟨mid, hmid, hrest⟩ := Option.bind_eq_some_iff.mp hrun
      exact ih (leavesInMemory_dispatch hin fuel pkt mid hmid) hrest

-- No error reply to P, Z or z changes anything, and one to G or M keeps the registers or
-- bytes before the failure. A Z or z outside the memory is always an error.
theorem write_replies (stub : GdbStub P) (fuel : ℕ) (args : List Byte) :
    AnswersWriteRegs stub fuel args ∧ AnswersWriteReg stub fuel args ∧
    AnswersWriteMem stub fuel args ∧ AnswersBreakpointSet stub fuel args ∧
    AnswersBreakpointClear stub fuel args ∧
    ∀ (start : GdbStub P) (pkts : List (List Byte)) (addr : Word),
      start.breakpoints = [] → start.session fuel pkts = some stub →
      parseBreakpoint args = .software addr →
      (IMipsProcessor.mem stub.cpu).readWord addr = none →
      stub.dispatch fuel (byte 'Z' :: args) = some (stub.sendError 1) ∧
      stub.dispatch fuel (byte 'z' :: args) = some (stub.sendError 1) := by
  refine ⟨dispatch_writeRegs stub fuel args, dispatch_writeReg stub fuel args,
    dispatch_writeMem stub fuel args, dispatch_breakpointSet stub fuel args,
    dispatch_breakpointClear stub fuel args, ?_⟩
  intro start pkts addr hnone hrun hargs hread
  have hstart : InMemory (IMipsProcessor.mem start.cpu) start.breakpoints := by
    simp [hnone, InMemory]
  have hin := session_inMemory hstart hrun
  have hnew : ∀ bp ∈ stub.breakpoints, bp.addr ≠ addr := by
    intro bp hbp he
    have hsome := hin bp hbp
    rw [he, hread] at hsome
    cases hsome
  exact ⟨(dispatch_breakpointSet stub fuel args).2.2 addr hargs hread hnew,
    (dispatch_breakpointClear stub fuel args).2.2 addr hargs hnew⟩

end Table

theorem write_replies_register : ∃ cpu : SingleCycleCpu,
    dispatch 0 { cpu := SingleCycleCpu.create 16 } (text "P1=05") =
      some (sendOk { cpu }) ∧ readGdbReg cpu 1 = 5#32 := by
  obtain ⟨-, ⟨-, hP⟩, -⟩ :=
    write_replies { cpu := SingleCycleCpu.create 16 } 0 (text "1=05")
  obtain ⟨cpu, value, hdispatch, hvalue, hset⟩ := hP 1 (text "05") (by decide)
  have hbytes : ∀ k : Fin 4, valueByte (text "05") k.val = wordByte 5#32 k.val := by decide
  have h5 : value = 5#32 := eq_of_wordByte fun k hk => by
    rw [hvalue k hk]
    exact hbytes ⟨k, hk⟩
  have hreg := hset.regs 1
  rw [if_neg (by decide), if_pos rfl, h5] at hreg
  exact ⟨cpu, hdispatch, hreg⟩

-- M and G keep what came before the failure, and P replies OK to digits it drops and to a
-- register it does not write.
theorem error_reply_not_atomic :
    (dispatch 0 { cpu := SingleCycleCpu.create 16 } (text "M0,2:ffzz")).map
        (fun next => (next.conn.sent, next.cpu.mem)) =
      some ([.packet (text "E01")], (Memory.ofSize 16).setByte 0#32 0xFF#8) ∧
    (dispatch 0 { cpu := SingleCycleCpu.create 16 } (text "Mf,2:ffff")).map
        (fun next => (next.conn.sent, next.cpu.mem)) =
      some ([.packet (text "E01")], (Memory.ofSize 16).setByte 15#32 0xFF#8) ∧
    (dispatch 0 { cpu := SingleCycleCpu.create 16 }
        (text "G0000000005000000" ++ List.replicate 288 (byte 'z'))).map
        (fun next => (next.conn.sent, readGdbReg next.cpu 1)) =
      some ([.packet (text "E01")], 5#32) ∧
    (dispatch 0 { cpu := SingleCycleCpu.create 16 } (text "P1=05zz")).map
        (fun next => (next.conn.sent, readGdbReg next.cpu 1)) =
      some ([.packet (text "OK")], 5#32) ∧
    (dispatch 0 { cpu := SingleCycleCpu.create 16 } (text "P23=05000000")).map
        (fun next => (next.conn.sent, readGdbReg next.cpu 35)) =
      some ([.packet (text "OK")], 0#32) := by
  decide +kernel

end GdbStub

end ClearCore.Mips
