import ClearCore.Mips.Semantics

-- The implemented subset of MIPS32 by its opcode numbers and over exact integers: what an
-- instruction does to the signed and unsigned values of its operands. There are no delay
-- slots.

namespace ClearCore.Mips.Reference

open Isa

inductive Mnemonic
  | SLL | SRL | SRA | SLLV | SRLV | JR | JALR | SYSCALL | BREAK | ADD | ADDU | SUB | SUBU
  | AND | OR | XOR | NOR | SLT | SLTU
  | J | JAL | BEQ | BNE | ADDI | ADDIU | SLTI | SLTIU | ANDI | ORI | XORI | LUI
  | MFC0 | MTC0 | ERET | COP0
  | LW | LBU | LHU | SW
deriving DecidableEq, Repr

section Fields

variable (word : Word)

def opcode : BitVec 6 := .ofNat 6 (word.toNat / 2 ^ 26)

def rs : RegIdx := .ofNat 5 (word.toNat / 2 ^ 21)

def rt : RegIdx := .ofNat 5 (word.toNat / 2 ^ 16)

def rd : RegIdx := .ofNat 5 (word.toNat / 2 ^ 11)

def sa : ℕ := word.toNat / 2 ^ 6 % 2 ^ 5

def funct : BitVec 6 := .ofNat 6 word.toNat

def imm : Half := .ofNat 16 word.toNat

def target : ℕ := word.toNat % 2 ^ 26

end Fields

def special : BitVec 6 → Option Mnemonic
  | 0x00#6 => some .SLL
  | 0x02#6 => some .SRL
  | 0x03#6 => some .SRA
  | 0x04#6 => some .SLLV
  | 0x06#6 => some .SRLV
  | 0x08#6 => some .JR
  | 0x09#6 => some .JALR
  | 0x0C#6 => some .SYSCALL
  | 0x0D#6 => some .BREAK
  | 0x20#6 => some .ADD
  | 0x21#6 => some .ADDU
  | 0x22#6 => some .SUB
  | 0x23#6 => some .SUBU
  | 0x24#6 => some .AND
  | 0x25#6 => some .OR
  | 0x26#6 => some .XOR
  | 0x27#6 => some .NOR
  | 0x2A#6 => some .SLT
  | 0x2B#6 => some .SLTU
  | _ => none

-- The coprocessor operations other than these three have no effect.
def cop0 (rs : RegIdx) (funct : BitVec 6) : Mnemonic :=
  if rs = 0x00#5 then .MFC0
  else if rs = 0x04#5 then .MTC0
  else if rs = 0x10#5 ∧ funct = 0x18#6 then .ERET
  else .COP0

def regular : BitVec 6 → Option Mnemonic
  | 0x02#6 => some .J
  | 0x03#6 => some .JAL
  | 0x04#6 => some .BEQ
  | 0x05#6 => some .BNE
  | 0x08#6 => some .ADDI
  | 0x09#6 => some .ADDIU
  | 0x0A#6 => some .SLTI
  | 0x0B#6 => some .SLTIU
  | 0x0C#6 => some .ANDI
  | 0x0D#6 => some .ORI
  | 0x0E#6 => some .XORI
  | 0x0F#6 => some .LUI
  | 0x23#6 => some .LW
  | 0x24#6 => some .LBU
  | 0x25#6 => some .LHU
  | 0x2B#6 => some .SW
  | _ => none

-- `none` is a reserved instruction.
def mnemonic (word : Word) : Option Mnemonic :=
  if opcode word = 0x00#6 then special (funct word)
  else if opcode word = 0x10#6 then some (cop0 (rs word) (funct word))
  else regular (opcode word)

-- The word of an integer, modulo 2^32.
def wrap (n : ℤ) : Word := .ofInt 32 n

def InRange (n : ℤ) : Prop := -2 ^ 31 ≤ n ∧ n < 2 ^ 31

instance (n : ℤ) : Decidable (InRange n) := inferInstanceAs (Decidable (_ ∧ _))

section Memory

variable (mem : Memory)

def byte (n : ℕ) : ℕ := (mem.data.getD n 0).toNat

-- The little-endian value of the `count` bytes at `n`.
def bytes (n : ℕ) : ℕ → ℕ
  | 0 => 0
  | count + 1 => bytes n count + byte mem (n + count) * 256 ^ count

-- The four bytes at `n` take the value of `word`.
def storeWord (n : ℕ) (word : Word) : Memory :=
  ⟨mem.data.mapIdx fun i old =>
    if n ≤ i ∧ i < n + 4 then .ofNat 8 (word.toNat / 256 ^ (i - n)) else old⟩

-- An access of `count` bytes at `n` is aligned and in bounds.
def Accessible (n count : ℕ) : Prop := n % count = 0 ∧ n + count ≤ mem.size

instance (n count : ℕ) : Decidable (Accessible mem n count) := inferInstanceAs (Decidable (_ ∧ _))

end Memory

-- The execution of one instruction on its operands `a` and `b`.
section Exec

variable (s : Arch)

def next : Word := wrap (s.pc.toNat + 4)

def set (dst : RegIdx) (n : ℤ) : Outcome := .done (gprWrite dst (wrap n)) none s.mem .none (next s)

-- A signed result out of range traps.
def setSigned (dst : RegIdx) (n : ℤ) : Outcome := if InRange n then set s dst n else .trap .Ov 0#32

def goto (pc : ℤ) : Outcome := .done none none s.mem .none (wrap pc)

def load (dst : RegIdx) (addr : Word) (count : ℕ) : Outcome :=
  if Accessible s.mem addr.toNat count then set s dst (bytes s.mem addr.toNat count)
  else .trap .AdEL addr

def store (addr value : Word) : Outcome :=
  if Accessible s.mem addr.toNat 4 then
    .done none (some (addr, value)) (storeWord s.mem addr.toNat value) .none (next s)
  else .trap .AdES addr

-- The target of a jump keeps the top four bits of the next address.
def region : ℕ := (next s).toNat / 2 ^ 28 * 2 ^ 28

def exec (word : Word) (a b : Word) : Mnemonic → Outcome
  | .SLL => set s (rd word) (b.toNat * 2 ^ sa word)
  | .SRL => set s (rd word) (b.toNat / 2 ^ sa word)
  | .SRA => set s (rd word) (b.toInt / 2 ^ sa word)
  | .SLLV => set s (rd word) (b.toNat * 2 ^ (a.toNat % 32))
  | .SRLV => set s (rd word) (b.toNat / 2 ^ (a.toNat % 32))
  | .JR => goto s a.toNat
  | .JALR => .done (gprWrite (rd word) (next s)) none s.mem .none a
  | .SYSCALL => .trap .Sys 0#32
  | .BREAK => .trap .Bp 0#32
  | .ADD => setSigned s (rd word) (a.toInt + b.toInt)
  | .ADDU => set s (rd word) (a.toNat + b.toNat)
  | .SUB => setSigned s (rd word) (a.toInt - b.toInt)
  | .SUBU => set s (rd word) (a.toNat - b.toNat)
  | .AND => set s (rd word) (a.toNat &&& b.toNat : ℕ)
  | .OR => set s (rd word) (a.toNat ||| b.toNat : ℕ)
  | .XOR => set s (rd word) (a.toNat ^^^ b.toNat : ℕ)
  | .NOR => set s (rd word) (2 ^ 32 - 1 - (a.toNat ||| b.toNat : ℕ))
  | .SLT => set s (rd word) (if a.toInt < b.toInt then 1 else 0)
  | .SLTU => set s (rd word) (if a.toNat < b.toNat then 1 else 0)
  | .J => goto s (region s + target word * 4)
  | .JAL => .done (some (31#5, next s)) none s.mem .none (wrap (region s + target word * 4))
  | .BEQ => goto s (s.pc.toNat + 4 + if a = b then (imm word).toInt * 4 else 0)
  | .BNE => goto s (s.pc.toNat + 4 + if a = b then 0 else (imm word).toInt * 4)
  | .ADDI => setSigned s (rt word) (a.toInt + (imm word).toInt)
  | .ADDIU => set s (rt word) (a.toInt + (imm word).toInt)
  | .SLTI => set s (rt word) (if a.toInt < (imm word).toInt then 1 else 0)
  | .SLTIU => set s (rt word) (if a.toNat < (wrap (imm word).toInt).toNat then 1 else 0)
  | .ANDI => set s (rt word) (a.toNat &&& (imm word).toNat : ℕ)
  | .ORI => set s (rt word) (a.toNat ||| (imm word).toNat : ℕ)
  | .XORI => set s (rt word) (a.toNat ^^^ (imm word).toNat : ℕ)
  | .LUI => set s (rt word) ((imm word).toNat * 2 ^ 16)
  | .MFC0 => .done (gprWrite (rt word) (s.cp0.read (rd word))) none s.mem .none (next s)
  | .MTC0 => .done none none s.mem (.write (rd word) b) (next s)
  | .ERET => .done none none s.mem .eret s.cp0.epc
  | .COP0 => .done none none s.mem .none (next s)
  | .LW => load s (rt word) (wrap (a.toNat + (imm word).toInt)) 4
  | .LBU => load s (rt word) (wrap (a.toNat + (imm word).toInt)) 1
  | .LHU => load s (rt word) (wrap (a.toNat + (imm word).toInt)) 2
  | .SW => store s (wrap (a.toNat + (imm word).toInt)) b

end Exec

def execWord (s : Arch) (word : Word) : Outcome :=
  match mnemonic word with
  | none => .trap .RI 0#32
  | some m => exec s word (s.regs.read (rs word)) (s.regs.read (rt word)) m

-- What the instruction at PC does.
def outcome (s : Arch) : Outcome :=
  if Accessible s.mem s.pc.toNat 4 then execWord s (wrap (bytes s.mem s.pc.toNat 4))
  else .trap .AdEL s.pc

end ClearCore.Mips.Reference
