import ClearCore.Library.IStream
import ClearCore.Mips.Processor
import Mathlib.Data.Nat.Digits.Defs

namespace ClearCore.Mips

open Isa

namespace Elf

def kElfMag0 : Byte := 0x7F#8
def kElfMag1 : Byte := 0x45#8
def kElfMag2 : Byte := 0x4C#8
def kElfMag3 : Byte := 0x46#8
def kElfClass32 : Byte := 1#8
def kElfData2LSB : Byte := 1#8
def kEmMips : Half := 8#16
def kEtExec : Half := 2#16
def kEtRel : Half := 1#16
def kPtLoad : Word := 1#32

-- One past the highest MIPS32 byte address.
def kAddressSpaceEnd : Nat := 0x100000000

-- sizeof(Elf32Ehdr) and sizeof(Elf32Phdr)
def kEhdrSize : Nat := 52
def kPhdrSize : Nat := 32

-- The value of the `size` bytes from `off` on, least significant first.
def field (bytes : List Byte) (off size : Nat) : Nat :=
  Nat.ofDigits 256 (((bytes.drop off).take size).map BitVec.toNat)

end Elf

open Elf

-- The fields of the on-disk structures that the loader reads.
structure Elf32Ehdr where
  ident : List Byte
  type : Half
  machine : Half
  entry : Word
  phoff : Word
  phentsize : Half
  phnum : Half
deriving DecidableEq

structure Elf32Phdr where
  type : Word
  offset : Word
  vaddr : Word
  filesz : Word
  memsz : Word
deriving DecidableEq

-- What a packed structure holds once its bytes have been read into it on a
-- little-endian host.
def Elf32Ehdr.ofBytes (bytes : List Byte) : Elf32Ehdr where
  ident := bytes.take 16
  type := BitVec.ofNat 16 (field bytes 16 2)
  machine := BitVec.ofNat 16 (field bytes 18 2)
  entry := BitVec.ofNat 32 (field bytes 24 4)
  phoff := BitVec.ofNat 32 (field bytes 28 4)
  phentsize := BitVec.ofNat 16 (field bytes 42 2)
  phnum := BitVec.ofNat 16 (field bytes 44 2)

def Elf32Phdr.ofBytes (bytes : List Byte) : Elf32Phdr where
  type := BitVec.ofNat 32 (field bytes 0 4)
  offset := BitVec.ofNat 32 (field bytes 4 4)
  vaddr := BitVec.ofNat 32 (field bytes 8 4)
  filesz := BitVec.ofNat 32 (field bytes 16 4)
  memsz := BitVec.ofNat 32 (field bytes 20 4)

-- A PT_LOAD segment mapped from the ELF file.
structure ElfSegment where
  vaddr : Word
  filesz : Word
  memsz : Word
  data : List Byte
deriving DecidableEq

-- The result of parsing an ELF file.
structure ElfImage where
  segments : List ElfSegment := []
  entry : Word := 0#32
  error : Option String := none
deriving DecidableEq

def ElfImage.ok (image : ElfImage) : Bool := image.error.isNone

namespace Elf

-- stream_read: `none` if the stream does not hold `size` bytes more.
def streamRead (s : IStream Byte) (size : Nat) : Option (List Byte) × IStream Byte :=
  let (bytes, s) := s.read size
  (if s.fail then none else some bytes, s)

-- The total length of a seekable stream, to whose end it moves.
def streamSize (s : IStream Byte) : Option Nat × IStream Byte :=
  let s := s.clear.seekEnd
  if s.fail then (none, s) else (s.tell, s)

-- Bare hexadecimal and std::to_string, for error messages.
def hex (value : Word) : String := String.ofList (Nat.toDigits 16 value.toNat)

def decimal (value : Nat) : String := String.ofList (Nat.toDigits 10 value)

-- The checks on the header before its table of program headers is used.
def checkHeader (ehdr : Elf32Ehdr) : Option String :=
  if ehdr.ident.getD 0 0 ≠ kElfMag0 ∨ ehdr.ident.getD 1 0 ≠ kElfMag1 ∨
      ehdr.ident.getD 2 0 ≠ kElfMag2 ∨ ehdr.ident.getD 3 0 ≠ kElfMag3 then
    some "not an ELF file (bad magic)"
  else if ehdr.ident.getD 4 0 ≠ kElfClass32 then
    some "only ELF32 is supported (got ELF64)"
  else if ehdr.ident.getD 5 0 ≠ kElfData2LSB then
    some ("only little-endian MIPS ELF (mipsel) is supported; " ++
      "recompile with mipsel-linux-gnu-gcc or mipsel-linux-musl-gcc")
  else if ehdr.machine ≠ kEmMips then
    some ("ELF machine type is not MIPS (e_machine=" ++ decimal ehdr.machine.toNat ++ ")")
  else if ehdr.type ≠ kEtExec ∧ ehdr.type ≠ kEtRel then
    some "only ET_EXEC and ET_REL ELF types are supported"
  else if ehdr.phnum = 0#16 ∨ ehdr.phoff = 0#32 then
    some ("ELF has no program headers — is this a relocatable object " ++
      "without a linker script?  Use -static -Ttext=0x0 or link with a MEMORY script.")
  else none

-- The checks on the table itself. The source adds in 64 bits.
def checkTable (ehdr : Elf32Ehdr) (fileSize : Nat) : Option String :=
  if ehdr.phentsize.toNat ≠ kPhdrSize then
    some ("unsupported program-header entry size (e_phentsize=" ++
      decimal ehdr.phentsize.toNat ++ ", expected " ++ decimal kPhdrSize ++ ")")
  else if ehdr.phoff.toNat + ehdr.phnum.toNat * ehdr.phentsize.toNat > fileSize then
    some ("program-header table (" ++ decimal ehdr.phnum.toNat ++ " entries at file offset 0x" ++
      hex ehdr.phoff ++ ") extends past the end of the file")
  else none

-- The data of segment `i`, whose bounds are checked before anything is allocated.
def readData (s : IStream Byte) (i : Nat) (phdr : Elf32Phdr) (fileSize : Nat) :
    Except String (List Byte) × IStream Byte :=
  if phdr.offset.toNat + phdr.filesz.toNat > fileSize then
    (.error ("segment " ++ decimal i ++ " data (0x" ++ hex phdr.filesz ++
      " bytes at file offset 0x" ++ hex phdr.offset ++ ") extends past the end of the file"), s)
  else
    let s := s.seek phdr.offset.toNat
    if s.fail then
      (.error ("failed to seek to segment " ++ decimal i ++ " data (offset 0x" ++
        hex phdr.offset ++ ")"), s)
    else
      match streamRead s phdr.filesz.toNat with
      | (none, s) => (.error ("failed to read segment " ++ decimal i ++ " data"), s)
      | (some data, s) => (.ok data, s)

-- The rest of the loop body once program header `i` has been read: no segment, a
-- segment, or an error.
def readSegment (s : IStream Byte) (i : Nat) (phdr : Elf32Phdr) (fileSize : Nat) :
    Except String (Option ElfSegment) × IStream Byte :=
  if phdr.type ≠ kPtLoad then (.ok none, s)
  else if phdr.filesz = 0#32 ∧ phdr.memsz = 0#32 then (.ok none, s)
  else if phdr.memsz.toNat < phdr.filesz.toNat then
    (.error ("segment " ++ decimal i ++ " has p_memsz (0x" ++ hex phdr.memsz ++
      ") smaller than p_filesz (0x" ++ hex phdr.filesz ++ ")"), s)
  else if phdr.vaddr.toNat + phdr.memsz.toNat > kAddressSpaceEnd then
    (.error ("segment " ++ decimal i ++ " at 0x" ++ hex phdr.vaddr ++ " (0x" ++ hex phdr.memsz ++
      " bytes) wraps past the end of the 32-bit address space"), s)
  else if 0 < phdr.filesz.toNat then
    match readData s i phdr fileSize with
    | (.error error, s) => (.error error, s)
    | (.ok data, s) =>
        (.ok (some { vaddr := phdr.vaddr, filesz := phdr.filesz, memsz := phdr.memsz, data }), s)
  else
    (.ok (some { vaddr := phdr.vaddr, filesz := phdr.filesz, memsz := phdr.memsz, data := [] }), s)

-- The loop over the program headers, `count` of them from header `i` on.
def readSegments (ehdr : Elf32Ehdr) (fileSize : Nat) (s : IStream Byte) (img : ElfImage) (i : Nat) :
    Nat → ElfImage
  | 0 => img
  | count + 1 =>
      let s := s.seek (ehdr.phoff.toNat + i * ehdr.phentsize.toNat)
      if s.fail then
        { img with error := some ("failed to seek to program header " ++ decimal i) }
      else
        match streamRead s kPhdrSize with
        | (none, _) =>
            { img with error := some ("failed to read program header " ++ decimal i) }
        | (some bytes, s) =>
            match readSegment s i (.ofBytes bytes) fileSize with
            | (.error error, _) => { img with error := some error }
            | (.ok segment, s) =>
                readSegments ehdr fileSize s
                  { img with segments := img.segments ++ segment.toList } (i + 1) count

-- What is left of parse_elf once the length of the file is known.
def readImage (ehdr : Elf32Ehdr) (fileSize : Nat) (s : IStream Byte) : ElfImage :=
  match checkTable ehdr fileSize with
  | some error => { error := some error }
  | none =>
      let img := readSegments ehdr fileSize s { entry := ehdr.entry } 0 ehdr.phnum.toNat
      if img.error.isNone ∧ img.segments = [] then
        { img with error := some "ELF has no PT_LOAD segments — nothing to load" }
      else img

end Elf

def parseElf (s : IStream Byte) : ElfImage :=
  match streamRead s kEhdrSize with
  | (none, _) => { error := some "failed to read ELF header (file too short)" }
  | (some bytes, s) =>
      let ehdr := Elf32Ehdr.ofBytes bytes
      match checkHeader ehdr with
      | some error => { error := some error }
      | none =>
          match streamSize s with
          | (none, _) => { error := some ("cannot determine the size of the ELF input " ++
                             "(stream is not seekable)") }
          | (some fileSize, s) => readImage ehdr fileSize s

namespace Elf

-- The two loops over the bytes of a segment: `count` bytes from offset `off` on. A failure
-- leaves the bytes before it written.
def writeBytes (vaddr : Word) (value : Nat → Byte) (off : Nat) : Nat → Memory → Bool × Memory
  | 0, mem => (true, mem)
  | count + 1, mem =>
      match mem.writeByte (vaddr + BitVec.ofNat 32 off) (value off) with
      | none => (false, mem)
      | some mem => writeBytes vaddr value (off + 1) count mem

def loadSegment (seg : ElfSegment) (mem : Memory) : Bool × Memory :=
  match writeBytes seg.vaddr (fun off => seg.data.getD off 0) 0 seg.filesz.toNat mem with
  | (false, mem) => (false, mem)
  | (true, mem) =>
      writeBytes seg.vaddr (fun _ => 0) seg.filesz.toNat (seg.memsz.toNat - seg.filesz.toNat) mem

-- The loop over the segments, and the one that does not fit.
def loadSegments : List ElfSegment → Memory → Option ElfSegment × Memory
  | [], mem => (none, mem)
  | seg :: segs, mem =>
      match loadSegment seg mem with
      | (false, mem) => (some seg, mem)
      | (true, mem) => loadSegments segs mem

def outOfRange (seg : ElfSegment) (memSize : Nat) : String :=
  "segment at 0x" ++ hex seg.vaddr ++ " extends outside the processor's address space (0x" ++
    String.ofList (Nat.toDigits 16 memSize) ++
    " bytes); increase mem_bytes in the IProcessor constructor"

end Elf

-- `none` is the return value true, and an error is error_out.
def loadElfIntoProcessor {P : Type} [IMipsProcessor P] (cpu : P) (image : ElfImage) :
    Option String × P :=
  match image.error with
  | some error => (some error, cpu)
  | none =>
      match loadSegments image.segments (IMipsProcessor.mem cpu) with
      | (some seg, mem) =>
          (some (outOfRange seg (IMipsProcessor.mem cpu).size), IMipsProcessor.setMem cpu mem)
      | (none, mem) => (none, IMipsProcessor.setPc (IMipsProcessor.setMem cpu mem) image.entry)

end ClearCore.Mips
