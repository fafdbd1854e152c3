import ClearCore.Isa.Memory
import ClearCore.Library.Lines
import ClearCore.Library.Numeral

namespace ClearCore.Mips

open Isa Lines Numeral

-- `words` is empty if there is an error.
structure HexProgram where
  words : List Word := []
  error : Option (List Char) := none
deriving DecidableEq, Repr

def HexProgram.ok (program : HexProgram) : Bool := program.error.isNone

-- std::isspace in the "C" locale
def isspace (c : Char) : Bool := c = ' ' || decide (9 ≤ c.toNat ∧ c.toNat ≤ 13)

-- What is left of a line without its comment and its whitespace.
def clean (line : List Char) : List Char :=
  (line.takeWhile fun c => decide (c ≠ '#')).filter fun c => !isspace c

-- std::from_chars accepts no prefix.
def withoutPrefix (tok : List Char) : List Char :=
  if 2 < tok.length ∧ tok[0]? = some '0' ∧ (tok[1]? = some 'x' ∨ tok[1]? = some 'X') then tok.drop 2
  else tok

-- The loop over the lines. `n` is the number of the last line read.
def parseHexLines (words : List Word) (n : Nat) : List (List Char) → HexProgram
  | [] => { words }
  | line :: lines =>
      if (clean line).isEmpty then parseHexLines words (n + 1) lines
      else
        match fromCharsUInt32 16 (withoutPrefix (clean line)) with
        | some (v, []) => parseHexLines (words ++ [BitVec.ofNat 32 v]) (n + 1) lines
        | _ => { error := some ("Bad hex on line ".toList ++ decimal (n + 1)) }

def parseHexProgram (text : List Char) : HexProgram := parseHexLines [] 0 (getlines text)

end ClearCore.Mips
