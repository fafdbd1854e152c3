import Mathlib.Algebra.Ring.Int.Defs
import Mathlib.Algebra.Ring.Nat
import Mathlib.Data.Char
import Mathlib.Data.List.TakeWhile
import Mathlib.Data.Nat.Init
import Mathlib.Tactic.Common

-- Numerals as the C++ library reads and prints them: std::from_chars, std::stoull,
-- std::to_string and std::format. The digits of a number are those of `Nat.toDigits`.

namespace ClearCore.Numeral

-- The value of a digit in a base of up to 36, in either case.
def digitValue (c : Char) : Option ℕ :=
  if '0' ≤ c ∧ c ≤ '9' then some (c.toNat - '0'.toNat)
  else if 'a' ≤ c ∧ c ≤ 'z' then some (c.toNat - 'a'.toNat + 10)
  else if 'A' ≤ c ∧ c ≤ 'Z' then some (c.toNat - 'A'.toNat + 10)
  else none

def isDigit (base : ℕ) (c : Char) : Bool :=
  match digitValue c with
  | some v => decide (v < base)
  | none => false

-- The value of a string of digits, and of one that follows `init`.
def ofDigitsFrom (base init : ℕ) (digits : List Char) : ℕ :=
  digits.foldl (fun v c => v * base + (digitValue c).getD 0) init

def ofDigits (base : ℕ) (digits : List Char) : ℕ := ofDigitsFrom base 0 digits

-- std::from_chars for an unsigned number of any size: the value of the leading digits and
-- what follows them.
def fromChars (base : ℕ) (s : List Char) : Option (ℕ × List Char) :=
  let digits := s.takeWhile (isDigit base)
  if digits = [] then none else some (ofDigits base digits, s.drop digits.length)

-- std::from_chars for a uint32_t: out of range is an error.
def fromCharsUInt32 (base : ℕ) (s : List Char) : Option (ℕ × List Char) :=
  (fromChars base s).bind fun (v, rest) => if v < 2 ^ 32 then some (v, rest) else none

-- std::from_chars for an int32_t in base 10. A minus sign is read, a plus sign is not.
def fromCharsInt32 (s : List Char) : Option (ℤ × List Char) :=
  match s with
  | '-' :: s =>
      (fromChars 10 s).bind fun (v, rest) => if v ≤ 2 ^ 31 then some (-v, rest) else none
  | s => (fromChars 10 s).bind fun (v, rest) => if v < 2 ^ 31 then some (v, rest) else none

-- std::isspace
def isSpace (c : Char) : Bool := decide (c = ' ') || decide ('\t' ≤ c ∧ c ≤ '\r')

-- What follows a sign, and whether it was a minus sign.
def readSign : List Char → Bool × List Char
  | '-' :: s => (true, s)
  | '+' :: s => (false, s)
  | s => (false, s)

-- In base 16 a 0x in front of a digit is no part of the number.
def dropHexPrefix (base : ℕ) : List Char → List Char
  | '0' :: x :: c :: s =>
      if base = 16 ∧ (x = 'x' ∨ x = 'X') ∧ isDigit base c = true then c :: s else '0' :: x :: c :: s
  | s => s

-- std::stoull: the value, and how many characters were read; `none` is an exception. A number
-- with a minus sign wraps around.
def stoull (base : ℕ) (s : List Char) : Option (BitVec 64 × ℕ) :=
  let (minus, body) := readSign (s.dropWhile isSpace)
  (fromChars base (dropHexPrefix base body)).bind fun (v, rest) =>
    if v < 2 ^ 64 then
      some (if minus then -BitVec.ofNat 64 v else BitVec.ofNat 64 v, s.length - rest.length)
    else none

-- {:0w} of a number whose digits are given.
def zeroPadded (width : ℕ) (digits : List Char) : List Char :=
  List.replicate (width - digits.length) '0' ++ digits

-- {} and {:X}
def decimal (n : ℕ) : List Char := Nat.toDigits 10 n

def upperHex (n : ℕ) : List Char := (Nat.toDigits 16 n).map Char.toUpper

-- {} and {:+d} of a signed number
def signed (n : ℤ) : List Char := if n < 0 then '-' :: decimal n.natAbs else decimal n.natAbs

def explicitlySigned (n : ℤ) : List Char :=
  if n < 0 then '-' :: decimal n.natAbs else '+' :: decimal n.natAbs

theorem digitValue_digitChar {n : ℕ} (h : n < 16) : digitValue (Nat.digitChar n) = some n := by
  have hall : ∀ m : Fin 16, digitValue (Nat.digitChar m.val) = some m.val := by decide
  exact hall ⟨n, h⟩

theorem digitValue_toUpper_digitChar {n : ℕ} (h : n < 16) :
    digitValue (Nat.digitChar n).toUpper = some n := by
  have hall : ∀ m : Fin 16, digitValue (Nat.digitChar m.val).toUpper = some m.val := by decide
  exact hall ⟨n, h⟩

-- The case of a letter makes no difference.
theorem digitValue_toLower (c : Char) : digitValue c.toLower = digitValue c := by
  by_cases h : 'A' ≤ c ∧ c ≤ 'Z'
  · have hall : ∀ n : Fin 26, digitValue (Char.ofNat (n.val + 65)).toLower =
        digitValue (Char.ofNat (n.val + 65)) := by decide
    have hlow : 65 ≤ c.toNat := h.1
    have hhigh : c.toNat ≤ 90 := h.2
    have hc : Char.ofNat (c.toNat - 65 + 65) = c := by
      rw [Nat.sub_add_cancel hlow, Char.ofNat_toNat]
    rw [← hc]
    exact hall ⟨c.toNat - 65, by omega⟩
  · have hlower : c.toLower = c := dif_neg h
    rw [hlower]

theorem isDigit_toLower (base : ℕ) (c : Char) : isDigit base c.toLower = isDigit base c := by
  rw [isDigit, isDigit, digitValue_toLower]

theorem ofDigits_toLower (base : ℕ) (ds : List Char) :
    ofDigits base (ds.map Char.toLower) = ofDigits base ds := by
  simp only [ofDigits, ofDigitsFrom, List.foldl_map, digitValue_toLower]

theorem isDigit_of_digitValue {base v : ℕ} {c : Char} (h : digitValue c = some v) (hv : v < base) :
    isDigit base c = true := by
  rw [isDigit, h]
  exact decide_eq_true hv

theorem ofDigitsFrom_append (base init : ℕ) (ds es : List Char) :
    ofDigitsFrom base init (ds ++ es) = ofDigitsFrom base (ofDigitsFrom base init ds) es :=
  List.foldl_append

-- A way to write the digits of a base, one character for each.
structure DigitStyle (base : ℕ) where
  char : ℕ → Char
  value : ∀ n < base, digitValue (char n) = some n

def lower {base : ℕ} (h : base ≤ 16) : DigitStyle base where
  char := Nat.digitChar
  value _ hn := digitValue_digitChar (by omega)

def upper {base : ℕ} (h : base ≤ 16) : DigitStyle base where
  char n := (Nat.digitChar n).toUpper
  value _ hn := digitValue_toUpper_digitChar (by omega)

namespace DigitStyle

variable {base : ℕ}

-- The digits of `n`, most significant first.
def digits (style : DigitStyle base) (hbase : 1 < base) (n : ℕ) : List Char :=
  if n < base then [style.char n]
  else style.digits hbase (n / base) ++ [style.char (n % base)]
termination_by n
decreasing_by exact Nat.div_lt_self (by omega) hbase

variable (style : DigitStyle base) (hbase : 1 < base)

theorem digits_ne_nil (n : ℕ) : style.digits hbase n ≠ [] := by
  rw [digits]
  split <;> simp

-- Only the number 0 starts with the digit 0.
theorem head?_digits (n : ℕ) (h : (style.digits hbase n).head? = some '0') : n = 0 := by
  have hzero : ∀ d < base, style.char d = '0' → d = 0 := by
    intro d hd hc
    have hvalue := style.value d hd
    rw [hc] at hvalue
    exact (Option.some.inj hvalue).symm
  induction n using Nat.strongRecOn with
  | ind n ih =>
    rw [digits] at h
    split at h
    · rename_i hlt
      exact hzero n hlt (Option.some.inj h)
    · rename_i hge
      have hdiv : n / base = 0 := by
        apply ih _ (Nat.div_lt_self (by omega) hbase)
        cases hd : style.digits hbase (n / base) with
        | nil => exact absurd hd (style.digits_ne_nil hbase _)
        | cons c ds => rwa [hd] at h
      exact absurd ((Nat.div_eq_zero_iff_lt (by omega)).mp hdiv) hge

theorem isDigit_digits (n : ℕ) : ∀ c ∈ style.digits hbase n, isDigit base c = true := by
  induction n using Nat.strongRecOn with
  | ind n ih =>
    intro c hc
    rw [digits] at hc
    split at hc
    · rename_i h
      rw [List.mem_singleton.mp hc]
      exact isDigit_of_digitValue (style.value n h) h
    · rcases List.mem_append.mp hc with hc | hc
      · exact ih (n / base) (Nat.div_lt_self (by omega) hbase) c hc
      · have hlt := Nat.mod_lt n (Nat.lt_trans Nat.zero_lt_one hbase)
        rw [List.mem_singleton.mp hc]
        exact isDigit_of_digitValue (style.value _ hlt) hlt

theorem ofDigits_digits (n : ℕ) : ofDigits base (style.digits hbase n) = n := by
  induction n using Nat.strongRecOn with
  | ind n ih =>
    rw [digits]
    split
    · rename_i h
      simp [ofDigits, ofDigitsFrom, style.value n h]
    · have hlt := Nat.mod_lt n (Nat.lt_trans Nat.zero_lt_one hbase)
      have hdiv := ih (n / base) (Nat.div_lt_self (by omega) hbase)
      rw [ofDigits, ofDigitsFrom_append, ← ofDigits, hdiv]
      simp only [ofDigitsFrom, List.foldl_cons, List.foldl_nil, style.value _ hlt, Option.getD_some]
      exact Nat.div_add_mod' n base

end DigitStyle

theorem toDigits_eq {base : ℕ} (hbase : 1 < base) (h : base ≤ 16) (n : ℕ) :
    Nat.toDigits base n = (lower h).digits hbase n := by
  induction n using Nat.strongRecOn with
  | ind n ih =>
    rw [Nat.toDigits_eq_if hbase, DigitStyle.digits]
    split
    · rfl
    · rw [ih (n / base) (Nat.div_lt_self (by omega) hbase)]
      rfl

theorem upperHex_eq (n : ℕ) : upperHex n = (upper (Nat.le_refl 16)).digits (by decide) n := by
  induction n using Nat.strongRecOn with
  | ind n ih =>
    rw [upperHex, Nat.toDigits_eq_if (by decide), DigitStyle.digits]
    split
    · rfl
    · rw [List.map_append, ← upperHex, ih (n / 16) (Nat.div_lt_self (by omega) (by decide))]
      rfl

-- What the leading digits of a text are.
theorem fromChars_append {base : ℕ} {ds rest : List Char} (hne : ds ≠ [])
    (hds : ∀ c ∈ ds, isDigit base c = true) (hrest : ∀ c ∈ rest.head?, isDigit base c = false) :
    fromChars base (ds ++ rest) = some (ofDigits base ds, rest) := by
  have hstop : rest.takeWhile (isDigit base) = [] := by
    cases rest with
    | nil => rfl
    | cons c rest =>
      have hc : isDigit base c = false := hrest c rfl
      simp [hc]
  have htake : (ds ++ rest).takeWhile (isDigit base) = ds := by
    rw [List.takeWhile_append_of_pos hds, hstop, List.append_nil]
  rw [fromChars, htake]
  simp only [hne, if_false, List.drop_left]

theorem fromChars_digits {base : ℕ} {ds : List Char} (hne : ds ≠ [])
    (hds : ∀ c ∈ ds, isDigit base c = true) : fromChars base ds = some (ofDigits base ds, []) := by
  have h := fromChars_append hne hds (by simp : ∀ c ∈ ([] : List Char).head?, isDigit base c = false)
  rwa [List.append_nil] at h

-- Digits are no white space, sign or prefix, so stoull reads all of them.
section Stoull

theorem le_of_isDigit {base : ℕ} {c : Char} (h : isDigit base c = true) : '0' ≤ c := by
  by_contra hlt
  have hdigit : digitValue c = none := by
    have ha : ¬('a' ≤ c) := fun hle => hlt (Char.le_trans (by decide) hle)
    have hA : ¬('A' ≤ c) := fun hle => hlt (Char.le_trans (by decide) hle)
    rw [digitValue, if_neg fun hc => hlt hc.1, if_neg fun hc => ha hc.1, if_neg fun hc => hA hc.1]
  rw [isDigit, hdigit] at h
  cases h

theorem isSpace_of_isDigit {base : ℕ} {c : Char} (h : isDigit base c = true) :
    isSpace c = false := by
  have hle : '0' ≤ c := le_of_isDigit h
  have hspace : c ≠ ' ' := by
    rintro rfl
    exact absurd hle (by decide)
  have hcontrol : ¬('\t' ≤ c ∧ c ≤ '\r') := fun hc => absurd (Char.le_trans hle hc.2) (by decide)
  rw [isSpace, decide_eq_false hspace, decide_eq_false hcontrol]
  rfl

theorem readSign_digits {base : ℕ} {ds : List Char} (hds : ∀ c ∈ ds, isDigit base c = true) :
    readSign ds = (false, ds) := by
  unfold readSign
  split
  · exact absurd (le_of_isDigit (hds '-' List.mem_cons_self)) (by decide)
  · exact absurd (le_of_isDigit (hds '+' List.mem_cons_self)) (by decide)
  · rfl

theorem dropHexPrefix_digits {base : ℕ} {ds : List Char}
    (hds : ∀ c ∈ ds, isDigit base c = true) : dropHexPrefix base ds = ds := by
  unfold dropHexPrefix
  split
  · rename_i x c s
    apply if_neg
    rintro ⟨rfl, hx, -⟩
    have hdigit : isDigit 16 x = true := hds x (by simp)
    rcases hx with rfl | rfl <;> exact absurd hdigit (by decide)
  · rfl

theorem stoull_digits {base : ℕ} {ds : List Char} (hne : ds ≠ [])
    (hds : ∀ c ∈ ds, isDigit base c = true) :
    stoull base ds =
      if ofDigits base ds < 2 ^ 64 then some (BitVec.ofNat 64 (ofDigits base ds), ds.length)
      else none := by
  have hspace : ds.dropWhile isSpace = ds := by
    cases ds with
    | nil => rfl
    | cons c ds =>
      rw [List.dropWhile_cons_of_neg]
      rw [isSpace_of_isDigit (hds c List.mem_cons_self)]
      exact Bool.false_ne_true
  rw [stoull, hspace, readSign_digits hds]
  dsimp only
  rw [dropHexPrefix_digits hds, fromChars_digits hne hds, Option.bind_some]
  rfl

end Stoull

theorem fromCharsUInt32_digits {base : ℕ} {ds : List Char} (hne : ds ≠ [])
    (hds : ∀ c ∈ ds, isDigit base c = true) (h : ofDigits base ds < 2 ^ 32) :
    fromCharsUInt32 base ds = some (ofDigits base ds, []) := by
  rw [fromCharsUInt32, fromChars_digits hne hds, Option.bind_some]
  exact if_pos h

theorem fromCharsInt32_digits {ds : List Char} (hne : ds ≠ [])
    (hds : ∀ c ∈ ds, isDigit 10 c = true) (h : ofDigits 10 ds < 2 ^ 31) :
    fromCharsInt32 ds = some ((ofDigits 10 ds : ℤ), []) := by
  unfold fromCharsInt32
  split
  · exact absurd (hds '-' List.mem_cons_self) (by decide)
  · rw [fromChars_digits hne hds, Option.bind_some]
    exact if_pos h

-- What from_chars has read.
theorem fromChars_eq_some {base v : ℕ} {s rest : List Char} (h : fromChars base s = some (v, rest)) :
    ∃ ds, s = ds ++ rest ∧ ds ≠ [] ∧ (∀ c ∈ ds, isDigit base c = true) ∧ v = ofDigits base ds := by
  rw [fromChars] at h
  split at h
  · cases h
  · rename_i hne
    rw [Option.some.injEq, Prod.mk.injEq] at h
    obtain ⟨rfl, rfl⟩ := h
    have hsplit : s.takeWhile (isDigit base) ++ s.drop (s.takeWhile (isDigit base)).length = s :=
      List.prefix_iff_eq_append.mp (List.takeWhile_prefix _)
    exact ⟨_, hsplit.symm, hne, fun c hc => List.mem_takeWhile_imp hc, rfl⟩

theorem fromCharsUInt32_eq_some {base v : ℕ} {s rest : List Char}
    (h : fromCharsUInt32 base s = some (v, rest)) :
    fromChars base s = some (v, rest) ∧ v < 2 ^ 32 := by
  obtain ⟨⟨u, tail⟩, hread, hrange⟩ := Option.bind_eq_some_iff.mp h
  dsimp only at hrange
  split at hrange
  · rename_i hlt
    obtain ⟨rfl, rfl⟩ := Prod.mk.inj (Option.some.inj hrange)
    exact ⟨hread, hlt⟩
  · cases hrange

-- A number that was read is the digits', negated after a minus sign.
theorem fromCharsInt32_eq_some {v : ℤ} {s rest : List Char}
    (h : fromCharsInt32 s = some (v, rest)) :
    (∃ tail n, s = '-' :: tail ∧ fromChars 10 tail = some (n, rest) ∧ v = -(n : ℤ) ∧ n ≤ 2 ^ 31) ∨
      ∃ n, fromChars 10 s = some (n, rest) ∧ v = n ∧ n < 2 ^ 31 := by
  unfold fromCharsInt32 at h
  split at h
  · rename_i tail
    obtain ⟨⟨n, rest'⟩, hread, hrange⟩ := Option.bind_eq_some_iff.mp h
    dsimp only at hrange
    split at hrange
    · rename_i hle
      obtain ⟨rfl, rfl⟩ := Prod.mk.inj (Option.some.inj hrange)
      exact .inl ⟨tail, n, rfl, hread, rfl, hle⟩
    · cases hrange
  · obtain ⟨⟨n, rest'⟩, hread, hrange⟩ := Option.bind_eq_some_iff.mp h
    dsimp only at hrange
    split at hrange
    · rename_i hlt
      obtain ⟨rfl, rfl⟩ := Prod.mk.inj (Option.some.inj hrange)
      exact .inr ⟨n, hread, rfl, hlt⟩
    · cases hrange

theorem isDigit_zero {base : ℕ} (h : 0 < base) : isDigit base '0' = true :=
  isDigit_of_digitValue rfl h

theorem ofDigits_replicate_zero (base k : ℕ) : ofDigits base (List.replicate k '0') = 0 := by
  induction k with
  | zero => rfl
  | succ k ih =>
    rw [List.replicate_succ, ofDigits, ofDigitsFrom, List.foldl_cons]
    have hzero : 0 * base + (digitValue '0').getD 0 = 0 := by
      rw [Nat.zero_mul]
      rfl
    rw [hzero]
    exact ih

-- Leading zeros do not change the value.
theorem ofDigits_zeroPadded (base width : ℕ) (ds : List Char) :
    ofDigits base (zeroPadded width ds) = ofDigits base ds := by
  rw [zeroPadded, ofDigits, ofDigitsFrom_append, ← ofDigits, ofDigits_replicate_zero, ofDigits]

theorem length_zeroPadded {width : ℕ} {ds : List Char} (h : ds.length ≤ width) :
    (zeroPadded width ds).length = width := by
  rw [zeroPadded, List.length_append, List.length_replicate, Nat.sub_add_cancel h]

-- A column of hexadecimal digits has its width and its value.
theorem length_hexPadded {width n : ℕ} (hpos : 0 < width) (h : n < 16 ^ width) :
    (zeroPadded width (Nat.toDigits 16 n)).length = width :=
  length_zeroPadded ((Nat.length_toDigits_le_iff (by decide) hpos).mpr h)

theorem ofDigits_hexPadded (width n : ℕ) :
    ofDigits 16 (zeroPadded width (Nat.toDigits 16 n)) = n := by
  rw [ofDigits_zeroPadded, toDigits_eq (by decide) le_rfl, DigitStyle.ofDigits_digits]

theorem isDigit_zeroPadded {base width : ℕ} (h : 0 < base) {ds : List Char}
    (hds : ∀ c ∈ ds, isDigit base c = true) :
    ∀ c ∈ zeroPadded width ds, isDigit base c = true := by
  intro c hc
  rcases List.mem_append.mp hc with hc | hc
  · rw [List.eq_of_mem_replicate hc]
    exact isDigit_zero h
  · exact hds c hc

theorem decimal_ne_nil (n : ℕ) : decimal n ≠ [] := Nat.toDigits_ne_nil

theorem isDigit_decimal (n : ℕ) : ∀ c ∈ decimal n, isDigit 10 c = true := by
  rw [decimal, toDigits_eq (by decide) (by decide)]
  exact DigitStyle.isDigit_digits _ _ n

theorem ofDigits_decimal (n : ℕ) : ofDigits 10 (decimal n) = n := by
  rw [decimal, toDigits_eq (by decide) (by decide)]
  exact DigitStyle.ofDigits_digits _ _ n

theorem decimal_inj {m n : ℕ} (h : decimal m = decimal n) : m = n := by
  rw [← ofDigits_decimal m, ← ofDigits_decimal n, h]

theorem minus_not_mem_decimal (n : ℕ) : '-' ∉ decimal n := by
  intro hc
  exact absurd (isDigit_decimal n _ hc) (by decide)

theorem signed_inj {m n : ℤ} (h : signed m = signed n) : m = n := by
  by_cases hm : m < 0
  · by_cases hn : n < 0
    · rw [signed, signed, if_pos hm, if_pos hn] at h
      have habs := decimal_inj (List.cons.inj h).2
      omega
    · rw [signed, signed, if_pos hm, if_neg hn] at h
      exact absurd (h ▸ List.mem_cons_self) (minus_not_mem_decimal n.natAbs)
  · by_cases hn : n < 0
    · rw [signed, signed, if_neg hm, if_pos hn] at h
      exact absurd (h ▸ List.mem_cons_self) (minus_not_mem_decimal m.natAbs)
    · rw [signed, signed, if_neg hm, if_neg hn] at h
      have habs := decimal_inj h
      omega

theorem mem_signed {n : ℤ} {c : Char} (h : c ∈ signed n) : c = '-' ∨ isDigit 10 c = true := by
  rw [signed] at h
  split at h
  · rcases List.mem_cons.mp h with rfl | h
    · exact .inl rfl
    · exact .inr (isDigit_decimal _ c h)
  · exact .inr (isDigit_decimal _ c h)

theorem explicitlySigned_inj {m n : ℤ} (h : explicitlySigned m = explicitlySigned n) : m = n := by
  by_cases hm : m < 0
  · by_cases hn : n < 0
    · rw [explicitlySigned, explicitlySigned, if_pos hm, if_pos hn] at h
      have habs := decimal_inj (List.cons.inj h).2
      omega
    · rw [explicitlySigned, explicitlySigned, if_pos hm, if_neg hn] at h
      exact absurd (List.cons.inj h).1 (by decide)
  · by_cases hn : n < 0
    · rw [explicitlySigned, explicitlySigned, if_neg hm, if_pos hn] at h
      exact absurd (List.cons.inj h).1 (by decide)
    · rw [explicitlySigned, explicitlySigned, if_neg hm, if_neg hn] at h
      have habs := decimal_inj (List.cons.inj h).2
      omega

theorem upperHex_ne_nil (n : ℕ) : upperHex n ≠ [] := by
  rw [upperHex_eq]
  exact DigitStyle.digits_ne_nil _ _ n

theorem isDigit_upperHex (n : ℕ) : ∀ c ∈ upperHex n, isDigit 16 c = true := by
  rw [upperHex_eq]
  exact DigitStyle.isDigit_digits _ _ n

theorem ofDigits_upperHex (n : ℕ) : ofDigits 16 (upperHex n) = n := by
  rw [upperHex_eq]
  exact DigitStyle.ofDigits_digits _ _ n

end ClearCore.Numeral
