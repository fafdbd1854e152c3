import ClearCore.Nsc.Converter

-- What the converter prints is what it reads.

namespace ClearCore.Nsc

open Numeral

section Parse

variable {base : ℕ}

theorem digitValue_eq (c : Char) :
    digitValue c = match Numeral.digitValue c with
      | some v => (v : ℤ)
      | none => -1 := by
  unfold digitValue Numeral.digitValue
  split_ifs with h0 ha hA
  · exact (Int.ofNat_sub (show '0'.toNat ≤ c.toNat from h0.1)).symm
  · exact congrArg (· + 10) (Int.ofNat_sub (show 'a'.toNat ≤ c.toNat from ha.1)).symm
  · exact congrArg (· + 10) (Int.ofNat_sub (show 'A'.toNat ≤ c.toNat from hA.1)).symm
  · rfl

theorem rejects_eq (base : ℕ) (c : Char) : rejects base c = !isDigit base c := by
  rw [rejects, digitValue_eq, isDigit]
  cases Numeral.digitValue c with
  | none => rfl
  | some v =>
    by_cases h : v < base
    · simp [h]
    · simp only [h, decide_false, Bool.not_false, Bool.or_eq_true, decide_eq_true_iff]
      omega

theorem any_rejects (str : List Char) :
    str.any (rejects base) = true ↔ ¬∀ c ∈ str, isDigit base c = true := by
  simp [rejects_eq]

-- A text is accepted if it is a digit string with a value below 2^64.
theorem parseBase_digits {str : List Char} (hne : str ≠ [])
    (hds : ∀ c ∈ str, isDigit base c = true) :
    parseBase str base =
      if ofDigits base str < 2 ^ 64 then some (BitVec.ofNat 64 (ofDigits base str)) else none := by
  rw [parseBase, if_neg (by simpa using hne), if_neg fun h => (any_rejects str).mp h hds,
    stoull_digits hne hds]
  by_cases hlt : ofDigits base str < 2 ^ 64
  · rw [if_pos hlt, if_pos hlt]
    exact if_neg (not_not_intro rfl)
  · rw [if_neg hlt, if_neg hlt]

theorem parseBase_eq_some (str : List Char) (value : BitVec 64) :
    parseBase str base = some value ↔
      str ≠ [] ∧ (∀ c ∈ str, isDigit base c = true) ∧ ofDigits base str = value.toNat := by
  by_cases hne : str = []
  · simp [parseBase, hne]
  by_cases hds : ∀ c ∈ str, isDigit base c = true
  · rw [parseBase_digits hne hds]
    constructor
    · intro h
      split at h
      · rename_i hlt
        refine ⟨hne, hds, ?_⟩
        rw [← Option.some.inj h, BitVec.toNat_ofNat, Nat.mod_eq_of_lt hlt]
      · cases h
    · rintro ⟨-, -, hvalue⟩
      rw [hvalue, if_pos value.isLt, BitVec.ofNat_toNat, BitVec.setWidth_eq]
  · have hnone : parseBase str base = none := by
      rw [parseBase, if_neg (by simpa using hne), if_pos (any_rejects str |>.mpr hds)]
    rw [hnone]
    exact iff_of_false nofun fun h => hds h.2.1

end Parse

section Render

def binaryStyle : DigitStyle 2 := lower (by decide)

def binaryDigits (n : ℕ) : List Char := binaryStyle.digits (by decide) n

theorem bitChar_eq (value : BitVec 64) :
    Char.ofNat ('0'.toNat + (value &&& 1#64).toNat) = binaryStyle.char (value.toNat % 2) := by
  have hbit : (value &&& 1#64).toNat = value.toNat % 2 := by
    rw [BitVec.toNat_and]
    exact Nat.and_two_pow_sub_one_eq_mod value.toNat 1
  rw [hbit]
  rcases Nat.mod_two_eq_zero_or_one value.toNat with h | h <;> rw [h] <;> rfl

-- The loop of to_binary finds the digits from the last one on.
theorem binaryLoop_eq (value : BitVec 64) (out : List Char) (h : value ≠ 0#64) :
    binaryLoop value out = out ++ (binaryDigits value.toNat).reverse := by
  induction hn : value.toNat using Nat.strongRecOn generalizing value out with
  | ind n ih =>
    subst hn
    have hshift : (value >>> 1).toNat = value.toNat / 2 := by
      rw [BitVec.toNat_ushiftRight, Nat.shiftRight_eq_div_pow, Nat.pow_one]
    have hpos : value.toNat ≠ 0 := fun hz => h (BitVec.eq_of_toNat_eq hz)
    rw [binaryLoop, if_neg h, bitChar_eq, binaryDigits, DigitStyle.digits]
    by_cases hlt : value.toNat < 2
    · have hzero : value >>> 1 = 0#64 := by
        apply BitVec.eq_of_toNat_eq
        rw [hshift, Nat.div_eq_of_lt hlt]
        rfl
      rw [if_pos hlt, binaryLoop, if_pos hzero, Nat.mod_eq_of_lt hlt]
      rfl
    · have hnonzero : value >>> 1 ≠ 0#64 := by
        intro hz
        have hdiv := congrArg BitVec.toNat hz
        rw [hshift] at hdiv
        exact absurd ((Nat.div_eq_zero_iff_lt (by decide)).mp hdiv) hlt
      rw [if_neg hlt, ih _ (by omega) _ _ hnonzero hshift, List.reverse_append, ← binaryDigits,
        List.append_assoc]
      rfl

theorem toBinary_eq (value : BitVec 64) : toBinary value = binaryDigits value.toNat := by
  unfold toBinary
  split
  · rename_i h
    rw [h, binaryDigits, DigitStyle.digits, if_pos (by decide)]
    rfl
  · rename_i h
    rw [binaryLoop_eq value [] h, List.nil_append, List.reverse_reverse]

-- What each rendering is.
theorem render_eq (v : BitVec 64) (base : Base) :
    ∃ (style : DigitStyle base.radix) (hbase : 1 < base.radix),
      ({ value := v } : Converter).render base = style.digits hbase v.toNat := by
  cases base with
  | Binary => exact ⟨binaryStyle, by decide, toBinary_eq v⟩
  | Decimal => exact ⟨lower (by decide), by decide, toDigits_eq (by decide) (by decide) v.toNat⟩
  | Hex => exact ⟨upper (by decide), by decide, upperHex_eq v.toNat⟩

theorem parseBase_render (v : BitVec 64) (base : Base) :
    parseBase (({ value := v } : Converter).render base) base.radix = some v := by
  obtain ⟨style, hbase, heq⟩ := render_eq v base
  rw [heq, parseBase_eq_some]
  exact ⟨style.digits_ne_nil hbase _, style.isDigit_digits hbase _, style.ofDigits_digits hbase _⟩

theorem render_leadingZero (v : BitVec 64) (base : Base)
    (h : (({ value := v } : Converter).render base).head? = some '0') :
    ({ value := v } : Converter).render base = ['0'] := by
  obtain ⟨style, hbase, heq⟩ := render_eq v base
  rw [heq] at h ⊢
  have hzero := style.head?_digits hbase _ h
  rw [hzero, DigitStyle.digits, if_pos (by omega)] at h ⊢
  rw [Option.some.inj h]

end Render

section Group

-- Zeros up to the next multiple of 4.
theorem padLeft_eq (bits : List Char) :
    padLeft bits = zeroPadded ((bits.length + 3) / 4 * 4) bits := by
  induction bits using padLeft.induct with
  | case1 bits hlen ih =>
    have hwidth : (bits.length + 1 + 3) / 4 * 4 = (bits.length + 3) / 4 * 4 := by omega
    have hcount : (bits.length + 3) / 4 * 4 - bits.length =
        (bits.length + 3) / 4 * 4 - (bits.length + 1) + 1 := by omega
    rw [padLeft, if_pos hlen, ih, zeroPadded, zeroPadded, List.length_cons, hwidth, hcount,
      List.replicate_succ', List.append_assoc, List.singleton_append]
  | case2 bits hlen =>
    have hcount : (bits.length + 3) / 4 * 4 - bits.length = 0 := by omega
    rw [padLeft, if_neg hlen, zeroPadded, hcount, List.replicate_zero, List.nil_append]

-- The separators are all that grouping adds.
theorem filter_groupFrom (i : ℕ) {bits : List Char} (h : ∀ c ∈ bits, c ≠ ' ') :
    (groupFrom i bits).filter (fun c => decide (c ≠ ' ')) = bits := by
  induction bits generalizing i with
  | nil => rfl
  | cons b bits ih =>
    rw [List.forall_mem_cons] at h
    have hgap : (if 0 < i ∧ i % 4 = 0 then [' '] else []).filter (fun c => decide (c ≠ ' ')) =
        [] := by
      split <;> rfl
    rw [groupFrom, List.filter_append, hgap, List.nil_append,
      List.filter_cons, if_pos (decide_eq_true h.1), ih _ h.2]

theorem filter_groupBits (v : BitVec 64) :
    (groupBits v).filter (fun c => decide (c ≠ ' ')) =
      zeroPadded (((toBinary v).length + 3) / 4 * 4) (toBinary v) := by
  rw [groupBits, padLeft_eq, filter_groupFrom]
  intro c hc
  have hdigit : isDigit 2 c = true := by
    refine isDigit_zeroPadded (by decide) (fun c hc => ?_) c hc
    rw [toBinary_eq] at hc
    exact binaryStyle.isDigit_digits _ _ c hc
  rintro rfl
  exact absurd hdigit (by decide)

end Group

-- A value printed in a base is read back; a text is read if and only if it is a digit string of
-- the base with a value below 2^64; a text that is not read changes nothing; the grouped view is
-- the padded binary one.
theorem converter_roundTrip :
    (∀ (v : BitVec 64) (base : Base), let text := ({ value := v } : Converter).render base
      parseBase text base.radix = some v ∧ (text.head? = some '0' → text = ['0'])) ∧
    (∀ (str : List Char) (base : Base),
      ((parseBase str base.radix).isSome ↔
        str ≠ [] ∧ (∀ c ∈ str, isDigit base.radix c = true) ∧ ofDigits base.radix str < 2 ^ 64) ∧
      ∀ v, parseBase str base.radix = some v → v.toNat = ofDigits base.radix str) ∧
    (∀ (c : Converter) (text : List Char) (base : Base),
      ((c.update text base).1 = (parseBase text base.radix).isSome) ∧
      ((c.update text base).1 = false → (c.update text base).2 = c) ∧
      ∀ v, parseBase text base.radix = some v → (c.update text base).2.value = v) ∧
    ∀ c : Converter, c.bits.filter (fun ch => decide (ch ≠ ' ')) =
      zeroPadded (((c.render .Binary).length + 3) / 4 * 4) (c.render .Binary) := by
  refine ⟨fun v base => ⟨parseBase_render v base, render_leadingZero v base⟩,
    fun str base => ⟨⟨fun h => ?_, fun h => ?_⟩, fun v h => ?_⟩, fun c text base => ?_,
    fun c => filter_groupBits c.value⟩
  · obtain ⟨v, hv⟩ := Option.isSome_iff_exists.mp h
    obtain ⟨hne, hds, hvalue⟩ := (parseBase_eq_some str v).mp hv
    exact ⟨hne, hds, hvalue ▸ v.isLt⟩
  · obtain ⟨hne, hds, hlt⟩ := h
    rw [parseBase_digits hne hds, if_pos hlt]
    rfl
  · exact ((parseBase_eq_some str v).mp h).2.2.symm
  · rw [Converter.update]
    cases hparse : parseBase text base.radix with
    | none => exact ⟨rfl, fun _ => rfl, nofun⟩
    | some value => exact ⟨rfl, nofun, fun v h => Option.some.inj h⟩

end ClearCore.Nsc
