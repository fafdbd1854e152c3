import ClearCore.Qt.Assembler.Notation

-- The encoders against the decoder, and the operand parsers against the numerals and
-- registers they read.

namespace ClearCore.Qt.Assembler

open Isa Mips Numeral

-- A field above the bits of `b`.
theorem toNat_or_field {width k : ℕ} (x : BitVec width) {b : Word} (hk : width + k ≤ 32)
    (hb : b.toNat < 2 ^ k) :
    (x.setWidth 32 <<< k ||| b).toNat = x.toNat * 2 ^ k + b.toNat ∧
      (x.setWidth 32 <<< k ||| b).toNat < 2 ^ (width + k) := by
  have hx := x.isLt
  have hpos : 0 < 2 ^ k := Nat.two_pow_pos k
  have hwidth : 2 ^ width ≤ 2 ^ 32 := Nat.pow_le_pow_right (by decide) (by omega)
  have hword : 2 ^ (width + k) ≤ 2 ^ 32 := Nat.pow_le_pow_right (by decide) hk
  have hle : x.toNat * 2 ^ k + 2 ^ k ≤ 2 ^ (width + k) := by
    rw [← Nat.succ_mul, Nat.pow_add]
    exact Nat.mul_le_mul_right _ hx
  have hvalue : (x.setWidth 32 <<< k ||| b).toNat = x.toNat * 2 ^ k + b.toNat := by
    have hx32 : x.toNat % 2 ^ 32 = x.toNat := Nat.mod_eq_of_lt (by omega)
    have hshift : x.toNat * 2 ^ k % 2 ^ 32 = 2 ^ k * x.toNat := by
      rw [Nat.mod_eq_of_lt (by omega), Nat.mul_comm]
    rw [BitVec.toNat_or, BitVec.toNat_shiftLeft, BitVec.toNat_setWidth, Nat.shiftLeft_eq, hx32, hshift,
      ← Nat.two_pow_add_eq_or_of_lt hb, Nat.mul_comm]
  exact ⟨hvalue, by omega⟩

theorem toNat_encR (rs rt rd : RegIdx) (shamt : BitVec 5) (funct : BitVec 6) :
    (encR rs rt rd shamt funct).toNat =
      rs.toNat * 2 ^ 21 + (rt.toNat * 2 ^ 16 + (rd.toNat * 2 ^ 11 + (shamt.toNat * 2 ^ 6 +
        funct.toNat))) := by
  have hfunct : (funct.setWidth 32).toNat = funct.toNat := by
    have hlt := funct.isLt
    rw [BitVec.toNat_setWidth]
    omega
  obtain ⟨hshamt, hlt⟩ := toNat_or_field (k := 6) shamt (by decide) (hfunct.trans_lt funct.isLt)
  obtain ⟨hrd, hlt⟩ := toNat_or_field (k := 11) rd (by decide) hlt
  obtain ⟨hrt, hlt⟩ := toNat_or_field (k := 16) rt (by decide) hlt
  obtain ⟨hrs, -⟩ := toNat_or_field (k := 21) rs (by decide) hlt
  rw [encR, BitVec.or_assoc, BitVec.or_assoc, BitVec.or_assoc, hrs, hrt, hrd, hshamt, hfunct]

theorem toNat_encI (op : BitVec 6) (rs rt : RegIdx) (imm : Half) :
    (encI op rs rt imm).toNat =
      op.toNat * 2 ^ 26 + (rs.toNat * 2 ^ 21 + (rt.toNat * 2 ^ 16 + imm.toNat)) := by
  have himm : (imm.setWidth 32).toNat = imm.toNat := by
    rw [BitVec.toNat_setWidth]
    omega
  obtain ⟨hrt, hlt⟩ := toNat_or_field (k := 16) rt (by decide) (himm.trans_lt imm.isLt)
  obtain ⟨hrs, hlt⟩ := toNat_or_field (k := 21) rs (by decide) hlt
  obtain ⟨hop, -⟩ := toNat_or_field (k := 26) op (by decide) hlt
  rw [encI, BitVec.or_assoc, BitVec.or_assoc, hop, hrs, hrt, himm]

theorem toNat_encJ (op : BitVec 6) (target : Word) :
    (encJ op target).toNat = op.toNat * 2 ^ 26 + target.toNat % 2 ^ 26 := by
  have hmask : (target &&& 0x03FFFFFF#32).toNat = target.toNat % 2 ^ 26 := by
    rw [BitVec.toNat_and]
    exact Nat.and_two_pow_sub_one_eq_mod _ 26
  obtain ⟨hop, -⟩ := toNat_or_field (k := 26) op (by decide)
    (hmask.trans_lt (Nat.mod_lt _ (by decide)))
  rw [encJ, hop, hmask]

theorem ofBits_code {op : Opcode} (h : Decoder.formatOf op ≠ .Unknown) : .ofBits op.code = op := by
  cases op with
  | unnamed code => exact absurd rfl h
  | _ => rfl

theorem ofBits_functCode {funct : FunctCode} (h : Decoder.implementedSpecial funct = true) :
    .ofBits funct.code = funct := by
  cases funct with
  | unnamed code | ERET => exact absurd h Bool.false_ne_true
  | _ => rfl

theorem field_eq {word : Word} {hi lo width : ℕ} {x : BitVec width} (hhi : hi - lo < 31)
    (hwidth : width = hi - lo + 1) (h : word.toNat / 2 ^ lo % 2 ^ width = x.toNat) :
    (Decoder.bits word hi lo).setWidth width = x := by
  apply BitVec.eq_of_toNat_eq
  rw [Decoder.toNat_field word hhi hwidth, h]

-- The decoder reads back what the encoders put together.
theorem decode_encR {funct : FunctCode} (h : Decoder.implementedSpecial funct = true)
    (rs rt rd : RegIdx) (shamt : BitVec 5) :
    Decoder.decode (encR rs rt rd shamt funct.code) =
      some { raw := encR rs rt rd shamt funct.code, opcode := .SPECIAL, format := .R
             fields := .r { rs, rt, rd, shamt, funct } } := by
  have hsum := toNat_encR rs rt rd shamt funct.code
  have hrs := rs.isLt
  have hrt := rt.isLt
  have hrd := rd.isLt
  have hshamt := shamt.isLt
  have hfunct := funct.code.isLt
  generalize hword : encR rs rt rd shamt funct.code = word at hsum
  have fop : (Decoder.bits word 31 26).setWidth 6 = 0#6 :=
    field_eq (by decide) rfl (by rw [BitVec.toNat_ofNat]; omega)
  have frs : (Decoder.bits word 25 21).setWidth 5 = rs := field_eq (by decide) rfl (by omega)
  have frt : (Decoder.bits word 20 16).setWidth 5 = rt := field_eq (by decide) rfl (by omega)
  have frd : (Decoder.bits word 15 11).setWidth 5 = rd := field_eq (by decide) rfl (by omega)
  have fshamt : (Decoder.bits word 10 6).setWidth 5 = shamt := field_eq (by decide) rfl (by omega)
  have ffunct : (Decoder.bits word 5 0).setWidth 6 = funct.code :=
    field_eq (by decide) rfl (by omega)
  have hop : Decoder.rawOpcode word = .SPECIAL := by
    rw [Decoder.rawOpcode, fop]
    rfl
  simp [Decoder.decode, hop, Decoder.formatOf, ffunct, ofBits_functCode h, h, frs, frt, frd, fshamt]

theorem decode_encI {op : Opcode} (h : Decoder.formatOf op = .I) (rs rt : RegIdx) (imm : Half) :
    Decoder.decode (encI op.code rs rt imm) =
      some { raw := encI op.code rs rt imm, opcode := op, format := .I, fields := .i { rs, rt, imm } } := by
  have hsum := toNat_encI op.code rs rt imm
  have hcode := op.code.isLt
  have hrs := rs.isLt
  have hrt := rt.isLt
  have himm := imm.isLt
  generalize hword : encI op.code rs rt imm = word at hsum
  have fop : (Decoder.bits word 31 26).setWidth 6 = op.code := field_eq (by decide) rfl (by omega)
  have frs : (Decoder.bits word 25 21).setWidth 5 = rs := field_eq (by decide) rfl (by omega)
  have frt : (Decoder.bits word 20 16).setWidth 5 = rt := field_eq (by decide) rfl (by omega)
  have fimm : (Decoder.bits word 15 0).setWidth 16 = imm := field_eq (by decide) rfl (by omega)
  have hop : Decoder.rawOpcode word = op := by
    rw [Decoder.rawOpcode, fop, ofBits_code (by rw [h]; decide)]
  simp [Decoder.decode, hop, h, frs, frt, fimm]

theorem decode_encJ {op : Opcode} (h : Decoder.formatOf op = .J) {target : Word}
    (ht : target ≤ kJumpTargetMax) :
    Decoder.decode (encJ op.code target) =
      some { raw := encJ op.code target, opcode := op, format := .J, fields := .j { target } } := by
  have hsum := toNat_encJ op.code target
  have hcode := op.code.isLt
  have htarget : target.toNat ≤ 0x03FFFFFF := BitVec.le_def.mp ht
  generalize hword : encJ op.code target = word at hsum
  have fop : (Decoder.bits word 31 26).setWidth 6 = op.code := field_eq (by decide) rfl (by omega)
  have ftarget : Decoder.bits word 25 0 = target := by
    apply BitVec.eq_of_toNat_eq
    rw [Decoder.toNat_bits word (by decide)]
    omega
  have hop : Decoder.rawOpcode word = op := by
    rw [Decoder.rawOpcode, fop, ofBits_code (by rw [h]; decide)]
  simp [Decoder.decode, hop, h, ftarget]

-- A number in the range of a field is the field's, extended as the CPU does it.
theorem toNat_of_nonneg {v : Word} (h : 0 ≤ v.toInt) : (v.toNat : ℤ) = v.toInt := by
  have hlt := v.isLt
  rw [BitVec.toInt_eq_toNat_cond] at h ⊢
  split at h <;> split <;> omega

theorem setWidth_shamt {v : Word} (h : ¬(v.toInt < 0 ∨ 31 < v.toInt)) :
    (v.setWidth 5).setWidth 32 = v := by
  have hnat := toNat_of_nonneg (v := v) (by omega)
  apply BitVec.eq_of_toNat_eq
  rw [BitVec.toNat_setWidth, BitVec.toNat_setWidth]
  omega

theorem setWidth_uimm16 {v : Word} (h : fitsUimm16 v = true) : (v.setWidth 16).setWidth 32 = v := by
  obtain ⟨hlow, hhigh⟩ := of_decide_eq_true h
  have hnat := toNat_of_nonneg hlow
  apply BitVec.eq_of_toNat_eq
  rw [BitVec.toNat_setWidth, BitVec.toNat_setWidth]
  omega

theorem signExtend_simm16 {v : Word} (h : fitsSimm16 v = true) :
    Decoder.signExtend (v.setWidth 16) = v := by
  obtain ⟨hlow, hhigh⟩ := of_decide_eq_true h
  apply BitVec.eq_of_toInt_eq
  have hlt := v.isLt
  rw [Decoder.toInt_signExtend, BitVec.toInt_setWidth]
  rw [BitVec.toInt_eq_toNat_cond] at hlow hhigh ⊢
  simp only [Int.bmod]
  split at hlow <;> split <;> omega

theorem toInt_imm_range (imm : Half) :
    -32768 ≤ (Decoder.signExtend imm).toInt ∧ (Decoder.signExtend imm).toInt ≤ 32767 := by
  rw [Decoder.toInt_signExtend, BitVec.toInt_eq_toNat_cond]
  have hlt := imm.isLt
  split <;> omega

theorem find_eq_some {β : Type} {table : List (String × β)} {key : Text} {v : β}
    (h : find table key = some v) : ∃ name, (name, v) ∈ table ∧ name.toList = key := by
  obtain ⟨⟨name, v'⟩, hfind, rfl⟩ := Option.map_eq_some_iff.mp h
  exact ⟨name, List.mem_of_find?_eq_some hfind, by simpa using List.find?_some hfind⟩

theorem parseReg_names {tok : Text} {idx : RegIdx} (h : parseReg tok = some idx) :
    NamesReg tok (idx.setWidth 32) := by
  refine ⟨idx, rfl, ?_⟩
  unfold parseReg at h
  split at h
  · rename_i name
    split at h
    · rename_i hfirst
      split at h
      · rename_i n hread
        split at h
        · rename_i hrange
          obtain rfl := Option.some.inj h
          rcases fromCharsInt32_eq_some hread with ⟨tail, m, rfl, -⟩ | ⟨m, hm, rfl, -⟩
          · exact absurd hfirst Bool.false_ne_true
          · obtain ⟨ds, rfl, hne, hdigits, rfl⟩ := fromChars_eq_some hm
            refine .inr ⟨ds, by rw [List.append_nil], hne, hdigits, ?_⟩
            rw [BitVec.ofInt_natCast, BitVec.toNat_ofNat]
            omega
        · cases h
      · cases h
    · obtain ⟨entry, hmem, rfl⟩ := find_eq_some h
      have hall : ∀ entry ∈ kRegMap, entry.1.toList = registerAbiName entry.2 := by decide
      exact .inl (by rw [hall _ hmem])
  · cases h

theorem parseMagnitude_literal {tok : Text} {w : Word} (h : parseMagnitude tok = some w) :
    Literal tok w := by
  unfold parseMagnitude at h
  split at h
  · rename_i hprefix
    obtain ⟨hlen, hzero, hx⟩ := hprefix
    split at h
    · rename_i u hread
      obtain rfl := Option.some.inj h
      obtain ⟨ds, hds, hne, hdigits, rfl⟩ := fromChars_eq_some (fromCharsUInt32_eq_some hread).1
      obtain ⟨z, x, tail, rfl⟩ : ∃ z x tail, tok = z :: x :: tail := by
        match tok, hlen with
        | z :: x :: tail, _ => exact ⟨z, x, tail, rfl⟩
      obtain rfl : z = '0' := by simpa using hzero
      obtain rfl : tail = ds := by simpa using hds
      refine ⟨_, .hex (by simpa using hx) hne hdigits, ?_⟩
      rw [BitVec.ofInt_natCast]
    · cases h
  · split at h
    · rename_i v hread
      obtain rfl := Option.some.inj h
      refine ⟨v, ?_, rfl⟩
      rcases fromCharsInt32_eq_some hread with ⟨tail, n, rfl, hn, rfl, -⟩ | ⟨n, hn, rfl, -⟩
      · obtain ⟨ds, rfl, hne, hdigits, rfl⟩ := fromChars_eq_some hn
        rw [List.append_nil]
        exact .neg (.decimal hne hdigits)
      · obtain ⟨ds, rfl, hne, hdigits, rfl⟩ := fromChars_eq_some hn
        rw [List.append_nil]
        exact .decimal hne hdigits
    · cases h

theorem parseImm_literal {tok : Text} {w : Word} (h : parseImm tok = some w) : Literal tok w := by
  unfold parseImm at h
  split at h
  · cases h
  · rename_i tail
    obtain ⟨v, hv, rfl⟩ := Option.map_eq_some_iff.mp h
    obtain ⟨n, hn, rfl⟩ := parseMagnitude_literal hv
    refine ⟨-n, .neg hn, ?_⟩
    rw [BitVec.ofInt_neg, BitVec.zero_sub]
  · exact parseMagnitude_literal h

theorem eq_take_cons_drop {s : Text} {i : ℕ} {c : Char} (h : s[i]? = some c) :
    s = s.take i ++ c :: s.drop (i + 1) := by
  obtain ⟨hi, hc⟩ := List.getElem?_eq_some_iff.mp h
  rw [← hc, ← List.drop_eq_getElem_cons hi, List.take_append_drop]

theorem getElem?_of_findIdx? {s : Text} {c : Char} {i : ℕ}
    (h : s.findIdx? (fun x => decide (x = c)) = some i) : s[i]? = some c := by
  obtain ⟨hi, hc, -⟩ := List.findIdx?_eq_some_iff_getElem.mp h
  rw [List.getElem?_eq_getElem hi]
  simpa using hc

theorem parseMemOperand_spec {tok : Text} {w : Word} {idx : RegIdx}
    (h : parseMemOperand tok = some (w, idx)) :
    ∃ imm reg rest, tok = imm ++ '(' :: (reg ++ ')' :: rest) ∧ Literal imm w ∧
      NamesReg reg (idx.setWidth 32) := by
  unfold parseMemOperand at h
  split at h
  · rename_i lp rp hlp hrp
    have hopen := getElem?_of_findIdx? hlp
    have hclose := getElem?_of_findIdx? hrp
    split at h
    · cases h
    · rename_i hle
      have hlt : lp < rp := by
        rcases Nat.lt_or_ge lp rp with hlt | hge
        · exact hlt
        · obtain rfl : lp = rp := by omega
          rw [hopen] at hclose
          exact absurd (Option.some.inj hclose) (by decide)
      split at h
      · rename_i imm reg himm hreg
        obtain ⟨rfl, rfl⟩ := Prod.mk.inj (Option.some.inj h)
        have hrest : (tok.drop (lp + 1))[rp - lp - 1]? = some ')' := by
          rw [List.getElem?_drop, ← hclose]
          congr 1
          omega
        refine ⟨_, _, (tok.drop (lp + 1)).drop (rp - lp - 1 + 1), ?_, parseImm_literal himm,
          parseReg_names hreg⟩
        rw [← eq_take_cons_drop hrest]
        exact eq_take_cons_drop hopen
      · cases h
  · cases h

-- The parsers on texts of their form.

theorem parseReg_abiName (idx : RegIdx) : parseReg ('$' :: registerAbiName idx) = some idx := by
  revert idx
  decide

theorem abiName_ne_paren (idx : RegIdx) : ∀ c ∈ '$' :: registerAbiName idx, c ≠ ')' := by
  revert idx
  decide

theorem parseReg_of_names {tok : Text} {idx : RegIdx} (h : NamesReg tok (idx.setWidth 32)) :
    parseReg tok = some idx := by
  obtain ⟨idx', hidx, h⟩ := h
  obtain rfl : idx = idx' := by
    have hnat := congrArg BitVec.toNat hidx
    have hlt := idx.isLt
    have hlt' := idx'.isLt
    rw [BitVec.toNat_setWidth, BitVec.toNat_setWidth] at hnat
    apply BitVec.eq_of_toNat_eq
    omega
  rcases h with rfl | ⟨digits, rfl, hne, hdigits, hvalue⟩
  · exact parseReg_abiName idx
  · obtain ⟨c, rest, rfl⟩ := List.exists_cons_of_ne_nil hne
    have hfirst : (c :: rest).head?.any (isDigit 10) = true := hdigits c List.mem_cons_self
    have hlt := idx.isLt
    rw [parseReg, if_pos hfirst, fromCharsInt32_digits hne hdigits (by omega)]
    dsimp only
    rw [if_pos (by omega), hvalue, BitVec.ofInt_natCast, BitVec.ofNat_toNat, BitVec.setWidth_eq]

theorem parseMagnitude_digits {digits : Text} (hne : digits ≠ [])
    (hdigits : ∀ c ∈ digits, isDigit 10 c = true) (h : ofDigits 10 digits < 2 ^ 31) :
    parseMagnitude digits = some (BitVec.ofNat 32 (ofDigits 10 digits)) := by
  have hnohex : ¬(2 < digits.length ∧ digits[0]? = some '0' ∧
      (digits[1]? = some 'x' ∨ digits[1]? = some 'X')) := by
    rintro ⟨-, -, hx⟩
    rcases hx with hx | hx
    · exact absurd (hdigits _ (List.mem_of_getElem? hx)) (by decide)
    · exact absurd (hdigits _ (List.mem_of_getElem? hx)) (by decide)
  rw [parseMagnitude, if_neg hnohex, fromCharsInt32_digits hne hdigits h]
  rfl

theorem parseMagnitude_hex {x : Char} (hx : x = 'x' ∨ x = 'X') {digits : Text} (hne : digits ≠ [])
    (hdigits : ∀ c ∈ digits, isDigit 16 c = true) (h : ofDigits 16 digits < 2 ^ 32) :
    parseMagnitude ('0' :: x :: digits) = some (BitVec.ofNat 32 (ofDigits 16 digits)) := by
  have hlen : 2 < ('0' :: x :: digits).length := by
    have hpos := List.length_pos_iff.mpr hne
    simp only [List.length_cons]
    omega
  rw [parseMagnitude, if_pos ⟨hlen, rfl, by simpa using hx⟩]
  simp only [List.drop_succ_cons, List.drop_zero, fromCharsUInt32_digits hne hdigits h]

theorem parseImm_of_ne_minus {c : Char} (hc : c ≠ '-') (tok : Text) :
    parseImm (c :: tok) = parseMagnitude (c :: tok) := by
  unfold parseImm
  split
  · contradiction
  · rename_i heq
    exact absurd (List.cons.inj heq).1 hc
  · rfl

theorem findIdx?_append_cons {s : Text} {c : Char} (h : ∀ x ∈ s, x ≠ c) (rest : Text) :
    (s ++ c :: rest).findIdx? (fun x => decide (x = c)) = some s.length := by
  have hnone : s.findIdx? (fun x => decide (x = c)) = none :=
    List.findIdx?_eq_none_iff.mpr fun x hx => decide_eq_false (h x hx)
  rw [List.findIdx?_append, hnone, List.findIdx?_cons]
  simp

theorem parseMemOperand_eq {imm reg : Text} {v : Word} {idx : RegIdx}
    (hopen : ∀ c ∈ imm, c ≠ '(') (hclose : ∀ c ∈ imm, c ≠ ')') (hreg : ∀ c ∈ reg, c ≠ ')')
    (rest : Text) (himm : parseImm imm = some v) (hidx : parseReg reg = some idx) :
    parseMemOperand (imm ++ '(' :: (reg ++ ')' :: rest)) = some (v, idx) := by
  have hfront : ∀ c ∈ imm ++ '(' :: reg, c ≠ ')' := by
    intro c hc
    rcases List.mem_append.mp hc with hc | hc
    · exact hclose c hc
    rcases List.mem_cons.mp hc with rfl | hc
    · decide
    · exact hreg c hc
  have hlp := findIdx?_append_cons hopen (reg ++ ')' :: rest)
  have hrp := findIdx?_append_cons hfront rest
  have hassoc : (imm ++ '(' :: reg) ++ ')' :: rest = imm ++ '(' :: (reg ++ ')' :: rest) := by simp
  rw [hassoc] at hrp
  have htake : (imm ++ '(' :: (reg ++ ')' :: rest)).take imm.length = imm := List.take_left
  have hdrop : (imm ++ '(' :: (reg ++ ')' :: rest)).drop (imm.length + 1) = reg ++ ')' :: rest := by
    rw [← List.drop_drop, List.drop_left, List.drop_succ_cons, List.drop_zero]
  have hlength : (imm ++ '(' :: reg).length - imm.length - 1 = reg.length := by
    rw [List.length_append, List.length_cons]
    omega
  have hle : ¬(imm ++ '(' :: reg).length < imm.length := by
    rw [List.length_append]
    omega
  rw [parseMemOperand, hlp, hrp]
  simp only [hle, if_false, htake, hdrop, hlength, List.take_left, himm, hidx]

end ClearCore.Qt.Assembler
