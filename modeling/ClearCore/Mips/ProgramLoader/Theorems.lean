import ClearCore.Mips.ProgramLoader
import Mathlib.Tactic.Common

-- The texts that parse_hex_program accepts, and the ways to write a list of words.

namespace ClearCore.Mips

open Isa Lines Numeral

-- Hexadecimal digits of a number that fits a word, after an optional prefix.
def HexWord (tok : List Char) (v : ℕ) : Prop :=
  v < 2 ^ 32 ∧ ∃ digits,
    (tok = digits ∨ tok = '0' :: 'x' :: digits ∨ tok = '0' :: 'X' :: digits) ∧ digits ≠ [] ∧
    (∀ c ∈ digits, isDigit 16 c = true) ∧ v = ofDigits 16 digits

-- The words of the lines, in order.
inductive Listing : List (List Char) → List Word → Prop
  | nil : Listing [] []
  | blank {line : List Char} {lines : List (List Char)} {words : List Word} (h : clean line = [])
      (hrest : Listing lines words) : Listing (line :: lines) words
  | word {line : List Char} {lines : List (List Char)} {words : List Word} {v : ℕ}
      (h : HexWord (clean line) v) (hrest : Listing lines words) :
      Listing (line :: lines) (BitVec.ofNat 32 v :: words)

def BadLine (line : List Char) : Prop := clean line ≠ [] ∧ ∀ v, ¬HexWord (clean line) v

structure FirstBad (lines : List (List Char)) (n : ℕ) : Prop where
  bad : ∃ line, lines[n]? = some line ∧ BadLine line
  good : ∀ m < n, ∀ line, lines[m]? = some line → ¬BadLine line

-- The characters of `tok` in a line, with whitespace anywhere and a comment at the end.
def Shows (line tok : List Char) : Prop :=
  ∃ body comment, line = body ++ comment ∧ (∀ c ∈ body, c ≠ '#') ∧ (∀ c ∈ comment.head?, c = '#') ∧
    body.filter (fun c => !isspace c) = tok

-- Digits in either case, after zeros and a prefix.
def ShowsWord (line : List Char) (word : Word) : Prop :=
  ∃ before zeros digits, (before = [] ∨ before = ['0', 'x'] ∨ before = ['0', 'X']) ∧
    digits.map Char.toLower = Nat.toDigits 16 word.toNat ∧
    Shows line (before ++ (List.replicate zeros '0' ++ digits))

-- A text of lines, each blank or with one word. The last line need not end.
inductive Renders : List Word → List Char → Prop
  | nil : Renders [] []
  | blank {line text : List Char} {words : List Word} (hline : ∀ c ∈ line, c ≠ '\n')
      (h : Shows line []) (hrest : Renders words text) : Renders words (line ++ '\n' :: text)
  | word {line text : List Char} {word : Word} {words : List Word} (hline : ∀ c ∈ line, c ≠ '\n')
      (h : ShowsWord line word) (hrest : Renders words text) :
      Renders (word :: words) (line ++ '\n' :: text)
  | lastBlank {line : List Char} (hline : ∀ c ∈ line, c ≠ '\n') (h : Shows line []) :
      Renders [] line
  | lastWord {line : List Char} {word : Word} (hline : ∀ c ∈ line, c ≠ '\n')
      (h : ShowsWord line word) : Renders [word] line

theorem HexWord.ne_nil {tok : List Char} {v : ℕ} (h : HexWord tok v) : tok ≠ [] := by
  obtain ⟨-, digits, htok, hne, -⟩ := h
  rcases htok with rfl | rfl | rfl
  · exact hne
  · exact List.cons_ne_nil _ _
  · exact List.cons_ne_nil _ _

theorem Listing.good {lines : List (List Char)} {words : List Word} (h : Listing lines words) :
    ∀ line ∈ lines, clean line ≠ [] → ∃ v, HexWord (clean line) v := by
  induction h with
  | nil => exact nofun
  | blank h hrest ih => exact List.forall_mem_cons.mpr ⟨fun hne => absurd h hne, ih⟩
  | word h hrest ih => exact List.forall_mem_cons.mpr ⟨fun _ => ⟨_, h⟩, ih⟩

theorem fromCharsUInt32_eq_some_iff {base v : ℕ} {s : List Char} :
    fromCharsUInt32 base s = some (v, []) ↔
      v < 2 ^ 32 ∧ s ≠ [] ∧ (∀ c ∈ s, isDigit base c = true) ∧ v = ofDigits base s := by
  constructor
  · intro h
    obtain ⟨hread, hlt⟩ := fromCharsUInt32_eq_some h
    obtain ⟨digits, hs, hne, hdigits, hv⟩ := fromChars_eq_some hread
    rw [List.append_nil] at hs
    subst hs
    exact ⟨hlt, hne, hdigits, hv⟩
  · rintro ⟨hlt, hne, hdigits, rfl⟩
    exact fromCharsUInt32_digits hne hdigits hlt

theorem withoutPrefix_digits {digits : List Char} (h : ∀ c ∈ digits, isDigit 16 c = true) :
    withoutPrefix digits = digits := by
  rw [withoutPrefix, if_neg]
  rintro ⟨-, -, hx⟩
  rcases hx with hx | hx
  · exact absurd (h _ (List.mem_of_getElem? hx)) (by decide)
  · exact absurd (h _ (List.mem_of_getElem? hx)) (by decide)

theorem withoutPrefix_cons {x : Char} (hx : x = 'x' ∨ x = 'X') {digits : List Char}
    (hne : digits ≠ []) : withoutPrefix ('0' :: x :: digits) = digits := by
  have hpos := List.length_pos_iff.mpr hne
  rw [withoutPrefix, if_pos ⟨by simp only [List.length_cons]; omega, rfl, by simpa using hx⟩]
  rfl

-- from_chars reads what is left of a numeral without its prefix.
theorem hexWord_iff {tok : List Char} {v : ℕ} :
    HexWord tok v ↔ fromCharsUInt32 16 (withoutPrefix tok) = some (v, []) := by
  rw [fromCharsUInt32_eq_some_iff]
  constructor
  · rintro ⟨hlt, digits, htok, hne, hdigits, hv⟩
    have heq : withoutPrefix tok = digits := by
      rcases htok with rfl | rfl | rfl
      · exact withoutPrefix_digits hdigits
      · exact withoutPrefix_cons (.inl rfl) hne
      · exact withoutPrefix_cons (.inr rfl) hne
    rw [heq]
    exact ⟨hlt, hne, hdigits, hv⟩
  · rintro ⟨hlt, hne, hdigits, hv⟩
    refine ⟨hlt, withoutPrefix tok, ?_, hne, hdigits, hv⟩
    rw [withoutPrefix]
    split
    · rename_i hprefix
      obtain ⟨hlen, hzero, hx⟩ := hprefix
      obtain ⟨z, x, digits, rfl⟩ : ∃ z x digits, tok = z :: x :: digits := by
        match tok, hlen with
        | z :: x :: digits, _ => exact ⟨z, x, digits, rfl⟩
      obtain rfl : z = '0' := by simpa using hzero
      have hx : x = 'x' ∨ x = 'X' := by simpa using hx
      rcases hx with rfl | rfl
      · exact .inr (.inl rfl)
      · exact .inr (.inr rfl)
    · exact .inl rfl

-- The loop over the lines.

theorem parseHexLines_listing {lines : List (List Char)} {ws : List Word} (h : Listing lines ws)
    (words : List Word) (n : ℕ) : parseHexLines words n lines = { words := words ++ ws } := by
  induction h generalizing words n with
  | nil => rw [parseHexLines, List.append_nil]
  | blank h hrest ih => rw [parseHexLines, if_pos (List.isEmpty_iff.mpr h), ih]
  | @word line lines ws v h hrest ih =>
    have hne : ¬(clean line).isEmpty = true := fun hempty => h.ne_nil (List.isEmpty_iff.mp hempty)
    rw [parseHexLines, if_neg hne, hexWord_iff.mp h]
    dsimp only
    rw [ih, List.append_assoc, List.singleton_append]

theorem parseHexLines_bad {lines : List (List Char)} {m : ℕ} (h : FirstBad lines m)
    (words : List Word) (n : ℕ) :
    parseHexLines words n lines =
      { error := some ("Bad hex on line ".toList ++ decimal (n + m + 1)) } := by
  induction lines generalizing words n m with
  | nil =>
    obtain ⟨line, hline, -⟩ := h.bad
    simp at hline
  | cons line lines ih =>
    obtain ⟨bad, hbad, hne, hnone⟩ := h.bad
    cases m with
    | zero =>
      obtain rfl := Option.some.inj hbad
      rw [parseHexLines, if_neg (by simpa using hne)]
      split
      · rename_i v hread
        exact absurd (hexWord_iff.mpr hread) (hnone v)
      · rfl
    | succ m =>
      have hrest : FirstBad lines m :=
        ⟨⟨bad, hbad, hne, hnone⟩, fun k hk l hl => h.good (k + 1) (by omega) l hl⟩
      have hn : n + 1 + m + 1 = n + (m + 1) + 1 := by omega
      have hgood := h.good 0 (by omega) line rfl
      rw [parseHexLines]
      split
      · rw [ih hrest, hn]
      · rename_i hempty
        obtain ⟨v, hv⟩ : ∃ v, HexWord (clean line) v := by
          by_contra hall
          exact hgood ⟨by simpa using hempty, not_exists.mp hall⟩
        rw [hexWord_iff.mp hv]
        dsimp only
        rw [ih hrest, hn]

theorem listing_or_bad (lines : List (List Char)) :
    (∃ ws, Listing lines ws) ∨ ∃ n, FirstBad lines n := by
  induction lines with
  | nil => exact .inl ⟨[], .nil⟩
  | cons line lines ih =>
    by_cases hbad : BadLine line
    · exact .inr ⟨0, ⟨line, rfl, hbad⟩, nofun⟩
    rcases ih with ⟨ws, hws⟩ | ⟨n, hn⟩
    · by_cases hempty : clean line = []
      · exact .inl ⟨ws, .blank hempty hws⟩
      · obtain ⟨v, hv⟩ : ∃ v, HexWord (clean line) v := by
          by_contra hall
          exact hbad ⟨hempty, not_exists.mp hall⟩
        exact .inl ⟨_, .word hv hws⟩
    · refine .inr ⟨n + 1, hn.bad, fun m hm l hl => ?_⟩
      cases m with
      | zero =>
        obtain rfl := Option.some.inj hl
        exact hbad
      | succ m => exact hn.good m (by omega) l hl

-- The ways to write a word.

theorem clean_of_shows {line tok : List Char} (h : Shows line tok) : clean line = tok := by
  obtain ⟨body, comment, rfl, hbody, hcomment, rfl⟩ := h
  have hstop : comment.takeWhile (fun c => decide (c ≠ '#')) = [] := by
    cases comment with
    | nil => rfl
    | cons c comment =>
      obtain rfl : c = '#' := hcomment c rfl
      rfl
  rw [clean, List.takeWhile_append_of_pos fun c hc => decide_eq_true (hbody c hc), hstop,
    List.append_nil]

theorem hexWord_of_showsWord {line : List Char} {word : Word} (h : ShowsWord line word) :
    HexWord (clean line) word.toNat := by
  obtain ⟨before, zeros, digits, hbefore, hdigits, hshows⟩ := h
  have hlower : Nat.toDigits 16 word.toNat = (lower (Nat.le_refl 16)).digits (by decide) word.toNat :=
    toDigits_eq (by decide) (by decide) word.toNat
  have hdigit : ∀ c ∈ digits, isDigit 16 c = true := by
    intro c hc
    rw [← isDigit_toLower]
    have hmem := List.mem_map_of_mem (f := Char.toLower) hc
    rw [hdigits, hlower] at hmem
    exact DigitStyle.isDigit_digits _ _ _ _ hmem
  have hvalue : ofDigits 16 digits = word.toNat := by
    rw [← ofDigits_toLower, hdigits, hlower]
    exact DigitStyle.ofDigits_digits _ _ _
  have hne : digits ≠ [] := by
    rintro rfl
    exact Nat.toDigits_ne_nil hdigits.symm
  rw [clean_of_shows hshows]
  refine ⟨word.isLt, List.replicate zeros '0' ++ digits, ?_, by simp [hne], ?_, ?_⟩
  · rcases hbefore with rfl | rfl | rfl
    · exact .inl rfl
    · exact .inr (.inl rfl)
    · exact .inr (.inr rfl)
  · intro c hc
    rcases List.mem_append.mp hc with hc | hc
    · rw [List.eq_of_mem_replicate hc]
      rfl
    · exact hdigit c hc
  · rw [ofDigits, ofDigitsFrom_append, ← ofDigits, ofDigits_replicate_zero, ← ofDigits, hvalue]

theorem listing_of_renders {text : List Char} {words : List Word} (h : Renders words text) :
    Listing (getlines text) words := by
  have hword : ∀ {line lines} {word : Word} {ws : List Word}, ShowsWord line word →
      Listing lines ws → Listing (line :: lines) (word :: ws) := by
    intro line lines word ws hshows hrest
    have hlisting := Listing.word (hexWord_of_showsWord hshows) hrest
    rwa [BitVec.ofNat_toNat, BitVec.setWidth_eq] at hlisting
  induction h with
  | nil => exact .nil
  | blank hline h hrest ih =>
    rw [getlines, getlinesFrom_cons hline]
    exact .blank (clean_of_shows h) ih
  | word hline h hrest ih =>
    rw [getlines, getlinesFrom_cons hline]
    exact hword h ih
  | lastBlank hline h =>
    rw [getlines, getlinesFrom_append hline]
    split
    · exact .nil
    · exact .blank (clean_of_shows h) .nil
  | @lastWord line word hline h =>
    rw [getlines, getlinesFrom_append hline, List.nil_append]
    split
    · rename_i hempty
      have hne := (hexWord_of_showsWord h).ne_nil
      rw [List.isEmpty_iff.mp hempty] at hne
      exact absurd rfl hne
    · exact hword h .nil

-- The grammar of the format, the line that an error names, and the way back.
theorem parseHexProgram_exact (text : List Char) :
    ((parseHexProgram text).ok = true ↔ ∀ line ∈ getlines text, clean line ≠ [] →
      ∃ v, HexWord (clean line) v) ∧
    ((parseHexProgram text).ok = true → Listing (getlines text) (parseHexProgram text).words) ∧
    ((parseHexProgram text).ok = false → (parseHexProgram text).words = [] ∧
      ∃ n, FirstBad (getlines text) n ∧
        (parseHexProgram text).error = some ("Bad hex on line ".toList ++ decimal (n + 1))) ∧
    ∀ words, Renders words text → parseHexProgram text = { words } := by
  have hrenders : ∀ words, Renders words text → parseHexProgram text = { words } := by
    intro words h
    rw [parseHexProgram, parseHexLines_listing (listing_of_renders h), List.nil_append]
  rcases listing_or_bad (getlines text) with ⟨ws, hws⟩ | ⟨n, hn⟩
  · have hparse : parseHexProgram text = { words := ws } := by
      rw [parseHexProgram, parseHexLines_listing hws, List.nil_append]
    refine ⟨⟨fun _ => hws.good, fun _ => by rw [hparse]; rfl⟩, fun _ => ?_, ?_, hrenders⟩
    · rw [hparse]
      exact hws
    · rw [hparse]
      exact nofun
  · have hparse : parseHexProgram text =
        { error := some ("Bad hex on line ".toList ++ decimal (n + 1)) } := by
      rw [parseHexProgram, parseHexLines_bad hn, Nat.zero_add]
    obtain ⟨line, hline, hne, hnone⟩ := hn.bad
    refine ⟨⟨?_, fun hall => ?_⟩, ?_, fun _ => ?_, hrenders⟩
    · rw [hparse]
      exact nofun
    · obtain ⟨v, hv⟩ := hall line (List.mem_of_getElem? hline) hne
      exact absurd hv (hnone v)
    · rw [hparse]
      exact nofun
    · rw [hparse]
      exact ⟨rfl, n, hn, rfl⟩

-- A comment line, inner spaces and a carriage return, a blank line, and a last line of its own.
example : Renders [0x10#32, 0xBEEF#32] "# a\n0X00 1 0 # b\r\n\nbeEF".toList := by
  have hfirst : ShowsWord "0X00 1 0 # b\r".toList 0x10#32 :=
    ⟨['0', 'X'], 2, "10".toList, by decide, by decide, "0X00 1 0 ".toList, "# b\r".toList, rfl,
      by decide, by simp, by decide⟩
  have hlast : ShowsWord "beEF".toList 0xBEEF#32 :=
    ⟨[], 0, "beEF".toList, by decide, by decide, "beEF".toList, [], rfl, by decide, nofun,
      by decide⟩
  have hcomment : Shows "# a".toList [] := ⟨[], "# a".toList, rfl, nofun, by simp, rfl⟩
  exact .blank (by decide) hcomment (.word (by decide) hfirst (@Renders.blank [] _ _ nofun
    ⟨[], [], rfl, nofun, nofun, rfl⟩ (.lastWord (by decide) hlast)))

end ClearCore.Mips
