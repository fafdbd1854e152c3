import ClearCore.Mips.ElfLoader
import Mathlib.Tactic.Common

-- parse_elf accepts exactly the well-formed images, and returns all their segments.

namespace ClearCore.Mips

open Isa

namespace Elf

theorem field_lt (bytes : List Byte) (off size : ℕ) : field bytes off size < 256 ^ size := by
  have hlen : (((bytes.drop off).take size).map BitVec.toNat).length ≤ size := by
    rw [List.length_map]
    exact List.length_take_le _ _
  have hdigits : ∀ d ∈ ((bytes.drop off).take size).map BitVec.toNat, d < 256 := by
    intro d hd
    obtain ⟨b, -, rfl⟩ := List.mem_map.mp hd
    exact b.isLt
  calc field bytes off size
      < 256 ^ (((bytes.drop off).take size).map BitVec.toNat).length :=
        Nat.ofDigits_lt_base_pow_length (by decide) hdigits
    _ ≤ 256 ^ size := Nat.pow_le_pow_right (by decide) hlen

-- A field of a structure read at `pos` is one of the file.
theorem field_drop_take (data : List Byte) (pos count : ℕ) {off size : ℕ} (h : off + size ≤ count) :
    field ((data.drop pos).take count) off size = field data (pos + off) size := by
  rw [field, field, List.drop_take, List.drop_drop, List.take_take, Nat.min_eq_left (by omega)]

-- The fields of the file that decide what is loaded.
def entryField (data : List Byte) (i off size : ℕ) : ℕ :=
  field data (field data 28 4 + 32 * i + off) size

def pOffset (data : List Byte) (i : ℕ) : ℕ := entryField data i 4 4
def pVaddr (data : List Byte) (i : ℕ) : ℕ := entryField data i 8 4
def pFilesz (data : List Byte) (i : ℕ) : ℕ := entryField data i 16 4
def pMemsz (data : List Byte) (i : ℕ) : ℕ := entryField data i 20 4

-- Program header `i` is a PT_LOAD entry that is not empty.
def Loads (data : List Byte) (i : ℕ) : Prop :=
  entryField data i 0 4 = 1 ∧ (pFilesz data i ≠ 0 ∨ pMemsz data i ≠ 0)

instance (data : List Byte) (i : ℕ) : Decidable (Loads data i) :=
  inferInstanceAs (Decidable (_ ∧ _))

structure SegmentFits (data : List Byte) (i : ℕ) : Prop where
  memsz : pFilesz data i ≤ pMemsz data i
  space : pVaddr data i + pMemsz data i ≤ 2 ^ 32
  file : 0 < pFilesz data i → pOffset data i + pFilesz data i ≤ data.length

structure WellFormed (data : List Byte) : Prop where
  size : 52 ≤ data.length
  magic : data.take 4 = [0x7F#8, 0x45#8, 0x4C#8, 0x46#8]
  class32 : data[4]? = some 1#8
  lsb : data[5]? = some 1#8
  machine : field data 18 2 = 8
  type : field data 16 2 = 2 ∨ field data 16 2 = 1
  phnum : field data 44 2 ≠ 0
  phoff : field data 28 4 ≠ 0
  phentsize : field data 42 2 = 32
  table : field data 28 4 + 32 * field data 44 2 ≤ data.length
  segments : ∀ i < field data 44 2, Loads data i → SegmentFits data i
  nonempty : ∃ i < field data 44 2, Loads data i

def segmentOf (data : List Byte) (i : ℕ) : ElfSegment where
  vaddr := BitVec.ofNat 32 (pVaddr data i)
  filesz := BitVec.ofNat 32 (pFilesz data i)
  memsz := BitVec.ofNat 32 (pMemsz data i)
  data := (data.drop (pOffset data i)).take (pFilesz data i)

-- The segments of the file, in table order.
def segmentsOf (data : List Byte) : List ElfSegment :=
  ((List.range (field data 44 2)).filter fun i => Loads data i).map (segmentOf data)

section Parse

variable {data : List Byte} {s : IStream Byte}

theorem toNat_field (bytes : List Byte) (off : ℕ) {size w : ℕ} (h : 256 ^ size ≤ 2 ^ w) :
    (BitVec.ofNat w (field bytes off size)).toNat = field bytes off size := by
  rw [BitVec.toNat_ofNat]
  exact Nat.mod_eq_of_lt (Nat.lt_of_lt_of_le (field_lt bytes off size) h)

theorem streamRead_sound (h : s.Sound data) (heof : s.eof = false) (count : ℕ)
    (hcount : s.pos + count ≤ data.length) :
    (streamRead s count).1 = some ((data.drop s.pos).take count) ∧
      (streamRead s count).2.Sound data := by
  obtain ⟨hout, hsound⟩ := h.read heof hcount
  rw [streamRead]
  refine ⟨?_, hsound⟩
  simp only [hsound.fail, Bool.false_eq_true, if_false, hout]

theorem streamRead_short (hcount : s.data.length < s.pos + count) (hpos : 0 < count) :
    (streamRead s count).1 = none := by
  simp only [streamRead, IStream.read_short hcount hpos, if_true]

theorem ofNat_eq_ofNat_iff (bytes : List Byte) (off size w n : ℕ) (h : 256 ^ size ≤ 2 ^ w)
    (hn : n < 2 ^ w) :
    BitVec.ofNat w (field bytes off size) = BitVec.ofNat w n ↔ field bytes off size = n := by
  rw [← BitVec.toNat_inj, toNat_field bytes off h, BitVec.toNat_ofNat, Nat.mod_eq_of_lt hn]

-- A check passes if its condition fails and the checks after it pass.
theorem check_eq_none_iff {c : Prop} [Decidable c] {error : String} {rest : Option String} :
    (if c then some error else rest) = none ↔ ¬c ∧ rest = none := by
  by_cases hc : c
  · simp [hc]
  · simp [hc]

-- What the checks on the header ask of the file.
theorem checkHeader_eq_none_iff (hsize : 52 ≤ data.length) :
    checkHeader (.ofBytes (data.take 52)) = none ↔
      data.take 4 = [0x7F#8, 0x45#8, 0x4C#8, 0x46#8] ∧ data[4]? = some 1#8 ∧ data[5]? = some 1#8 ∧
      field data 18 2 = 8 ∧ (field data 16 2 = 2 ∨ field data 16 2 = 1) ∧
      field data 44 2 ≠ 0 ∧ field data 28 4 ≠ 0 := by
  have hfield : ∀ off size, off + size ≤ 52 →
      field (data.take 52) off size = field data off size := fun off size h => by
    have hdrop := field_drop_take data 0 52 h
    rwa [List.drop_zero, Nat.zero_add] at hdrop
  have hmachine := ofNat_eq_ofNat_iff data 18 2 16 8 (by decide) (by decide)
  have hexec := ofNat_eq_ofNat_iff data 16 2 16 2 (by decide) (by decide)
  have hrel := ofNat_eq_ofNat_iff data 16 2 16 1 (by decide) (by decide)
  have hphnum := ofNat_eq_ofNat_iff data 44 2 16 0 (by decide) (by decide)
  have hphoff := ofNat_eq_ofNat_iff data 28 4 32 0 (by decide) (by decide)
  have hident : ∀ k < 16, ((data.take 52).take 16).getD k 0 = data.getD k 0 := fun k hk => by
    rw [List.take_take, List.getD_eq_getElem?_getD, List.getElem?_take_of_lt (by omega),
      List.getD_eq_getElem?_getD]
  simp only [checkHeader, Elf32Ehdr.ofBytes, hident 0 (by decide), hident 1 (by decide),
    hident 2 (by decide), hident 3 (by decide), hident 4 (by decide), hident 5 (by decide),
    hfield 18 2 (by decide), hfield 16 2 (by decide), hfield 44 2 (by decide),
    hfield 28 4 (by decide), kEmMips, kEtExec, kEtRel, Ne, hmachine, hexec, hrel, hphnum, hphoff]
  match data, hsize with
  | b0 :: b1 :: b2 :: b3 :: b4 :: b5 :: rest, _ =>
    simp only [List.getD_cons_zero, List.getD_cons_succ, List.take_succ_cons, List.take_zero,
      List.cons.injEq, List.getElem?_cons_zero, List.getElem?_cons_succ, Option.some.injEq,
      and_true, kElfMag0, kElfMag1, kElfMag2, kElfMag3, kElfClass32, kElfData2LSB]
    simp only [check_eq_none_iff, not_or, not_and_or, not_not, and_true, and_assoc]

-- What the checks on the table ask of it.
theorem checkTable_eq_none_iff (ehdr : Elf32Ehdr) (fileSize : ℕ) :
    checkTable ehdr fileSize = none ↔
      ehdr.phentsize.toNat = 32 ∧ ehdr.phoff.toNat + 32 * ehdr.phnum.toNat ≤ fileSize := by
  rw [checkTable, check_eq_none_iff, check_eq_none_iff, not_not, not_lt, kPhdrSize]
  constructor
  · rintro ⟨hsize, hfits, -⟩
    rw [hsize, Nat.mul_comm] at hfits
    exact ⟨hsize, hfits⟩
  · rintro ⟨hsize, hfits⟩
    rw [hsize, Nat.mul_comm]
    exact ⟨rfl, hfits, rfl⟩

theorem streamSize_sound (h : s.Sound data) :
    ∃ s', streamSize s = (some data.length, s') ∧ s'.Sound data := by
  refine ⟨{ s with eof := false, fail := false, pos := s.data.length }, ?_, ⟨h.data, rfl⟩⟩
  rw [← h.data]
  rfl

-- Program header `i` as it is read from the table.
def entryAt (data : List Byte) (i : ℕ) : Elf32Phdr :=
  .ofBytes ((data.drop (field data 28 4 + 32 * i)).take 32)

theorem entryAt_eq (data : List Byte) (i : ℕ) :
    entryAt data i =
      { type := BitVec.ofNat 32 (entryField data i 0 4)
        offset := BitVec.ofNat 32 (pOffset data i)
        vaddr := BitVec.ofNat 32 (pVaddr data i)
        filesz := BitVec.ofNat 32 (pFilesz data i)
        memsz := BitVec.ofNat 32 (pMemsz data i) } := by
  simp only [entryAt, Elf32Phdr.ofBytes, field_drop_take data _ 32 (by decide : 0 + 4 ≤ 32),
    field_drop_take data _ 32 (by decide : 4 + 4 ≤ 32),
    field_drop_take data _ 32 (by decide : 8 + 4 ≤ 32),
    field_drop_take data _ 32 (by decide : 16 + 4 ≤ 32),
    field_drop_take data _ 32 (by decide : 20 + 4 ≤ 32)]
  rfl

-- The bytes of a segment that lies in the file.
theorem readData_ok (h : s.Sound data) (i : ℕ) (phdr : Elf32Phdr)
    (hpos : 0 < phdr.filesz.toNat)
    (hfits : phdr.offset.toNat + phdr.filesz.toNat ≤ data.length) :
    ∃ s', readData s i phdr data.length =
        (.ok ((data.drop phdr.offset.toNat).take phdr.filesz.toNat), s') ∧ s'.Sound data := by
  obtain ⟨hseek, heof, hat⟩ := h.seek phdr.offset.toNat (by omega)
  obtain ⟨hout, hsound⟩ := streamRead_sound hseek heof phdr.filesz.toNat
    (by rw [hat]; exact hfits)
  rw [hat] at hout
  refine ⟨(streamRead (s.seek phdr.offset.toNat) phdr.filesz.toNat).2, ?_, hsound⟩
  have hpair : streamRead (s.seek phdr.offset.toNat) phdr.filesz.toNat =
      (some ((data.drop phdr.offset.toNat).take phdr.filesz.toNat),
        (streamRead (s.seek phdr.offset.toNat) phdr.filesz.toNat).2) := Prod.ext hout rfl
  rw [readData, if_neg (by omega)]
  simp only [hseek.fail, Bool.false_eq_true, if_false]
  rw [hpair]

theorem entryAt_toNat (data : List Byte) (i : ℕ) :
    (entryAt data i).offset.toNat = pOffset data i ∧
      (entryAt data i).vaddr.toNat = pVaddr data i ∧
      (entryAt data i).filesz.toNat = pFilesz data i ∧
      (entryAt data i).memsz.toNat = pMemsz data i := by
  rw [entryAt_eq]
  exact ⟨toNat_field _ _ (by decide), toNat_field _ _ (by decide), toNat_field _ _ (by decide),
    toNat_field _ _ (by decide)⟩

theorem loads_iff (data : List Byte) (i : ℕ) :
    Loads data i ↔ (entryAt data i).type = kPtLoad ∧
      ¬((entryAt data i).filesz = 0#32 ∧ (entryAt data i).memsz = 0#32) := by
  rw [entryAt_eq, Loads, not_and_or]
  have hzero : ∀ off, BitVec.ofNat 32 (entryField data i off 4) = 0#32 ↔
      entryField data i off 4 = 0 := fun off => ofNat_eq_ofNat_iff _ _ _ _ _ (by decide) (by decide)
  have htype : BitVec.ofNat 32 (entryField data i 0 4) = kPtLoad ↔ entryField data i 0 4 = 1 :=
    ofNat_eq_ofNat_iff _ _ _ _ _ (by decide) (by decide)
  simp only [pFilesz, pMemsz, hzero, htype, Ne]

-- One turn of the loop: an entry that is not loaded, one that is, and one in error.
theorem readSegment_skip {i : ℕ} (hskip : ¬Loads data i) :
    readSegment s i (entryAt data i) data.length = (.ok none, s) := by
  rw [loads_iff, not_and_or, not_not] at hskip
  rw [readSegment]
  rcases hskip with htype | hempty
  · rw [if_pos htype]
  · rw [if_pos hempty, ite_self]

theorem readSegment_ok (h : s.Sound data) {i : ℕ} (hloads : Loads data i)
    (hfits : SegmentFits data i) :
    ∃ s', readSegment s i (entryAt data i) data.length = (.ok (some (segmentOf data i)), s') ∧
      s'.Sound data := by
  obtain ⟨hoffset, hvaddr, hfilesz, hmemsz⟩ := entryAt_toNat data i
  have hmem := hfits.memsz
  have hspace : pVaddr data i + pMemsz data i ≤ kAddressSpaceEnd := hfits.space
  obtain ⟨htype, hnonempty⟩ := (loads_iff data i).mp hloads
  rw [readSegment, if_neg (not_not.mpr htype), if_neg hnonempty, hvaddr, hmemsz, hfilesz,
    if_neg (by omega), if_neg (by omega)]
  have hsegment : ∀ bytes, bytes = (data.drop (pOffset data i)).take (pFilesz data i) →
      ({ vaddr := (entryAt data i).vaddr, filesz := (entryAt data i).filesz,
         memsz := (entryAt data i).memsz, data := bytes } : ElfSegment) = segmentOf data i := by
    intro bytes hbytes
    rw [entryAt_eq, hbytes, segmentOf]
  by_cases hpos : 0 < pFilesz data i
  · have hfile := hfits.file hpos
    obtain ⟨s', hread, hsound⟩ := readData_ok h i (entryAt data i)
      (by rw [hfilesz]; exact hpos) (by rw [hoffset, hfilesz]; exact hfile)
    rw [if_pos hpos, hread]
    exact ⟨s', congrArg (fun segment => (Except.ok (some segment), s'))
      (hsegment _ (by rw [hoffset, hfilesz])), hsound⟩
  · have hzero : pFilesz data i = 0 := by omega
    rw [if_neg hpos]
    exact ⟨s, by rw [hsegment [] (by rw [hzero, List.take_zero])], h⟩

theorem readSegment_error {i : ℕ} (hloads : Loads data i) (hmisfit : ¬SegmentFits data i) :
    ∃ error s', readSegment s i (entryAt data i) data.length = (.error error, s') := by
  obtain ⟨hoffset, hvaddr, hfilesz, hmemsz⟩ := entryAt_toNat data i
  obtain ⟨htype, hnonempty⟩ := (loads_iff data i).mp hloads
  rw [readSegment, if_neg (not_not.mpr htype), if_neg hnonempty, hvaddr, hmemsz, hfilesz]
  by_cases hmem : pMemsz data i < pFilesz data i
  · exact ⟨_, _, if_pos hmem⟩
  rw [if_neg hmem]
  by_cases hspace : pVaddr data i + pMemsz data i > kAddressSpaceEnd
  · exact ⟨_, _, if_pos hspace⟩
  rw [if_neg hspace]
  have hfile : 0 < pFilesz data i ∧ data.length < pOffset data i + pFilesz data i := by
    by_contra hfile
    have hspace' : pVaddr data i + pMemsz data i ≤ kAddressSpaceEnd := by omega
    exact hmisfit ⟨by omega, hspace', fun hpos => by omega⟩
  have hread : (readData s i (entryAt data i) data.length) =
      (.error ("segment " ++ decimal i ++ " data (0x" ++ hex (entryAt data i).filesz ++
        " bytes at file offset 0x" ++ hex (entryAt data i).offset ++
        ") extends past the end of the file"), s) := by
    rw [readData, if_pos (by rw [hoffset, hfilesz]; exact hfile.2)]
  rw [if_pos hfile.1, hread]
  exact ⟨_, _, rfl⟩

-- A turn of the loop reads the program header that is in the table.
theorem readSegments_succ {ehdr : Elf32Ehdr} (hphoff : ehdr.phoff.toNat = field data 28 4)
    (hphentsize : ehdr.phentsize.toNat = 32) (h : s.Sound data) {i : ℕ}
    (htable : field data 28 4 + 32 * i + 32 ≤ data.length) (img : ElfImage) (count : ℕ) :
    ∃ s', s'.Sound data ∧ readSegments ehdr data.length s img i (count + 1) =
      match readSegment s' i (entryAt data i) data.length with
      | (.error error, _) => { img with error := some error }
      | (.ok segment, s) =>
          readSegments ehdr data.length s
            { img with segments := img.segments ++ segment.toList } (i + 1) count := by
  obtain ⟨hseek, heof, hat⟩ := h.seek (field data 28 4 + 32 * i) (by omega)
  obtain ⟨hout, hsound⟩ := streamRead_sound hseek heof 32 (by rw [hat]; exact htable)
  rw [hat] at hout
  have hread : streamRead (s.seek (field data 28 4 + 32 * i)) kPhdrSize =
      (some ((data.drop (field data 28 4 + 32 * i)).take 32),
        (streamRead (s.seek (field data 28 4 + 32 * i)) 32).2) := Prod.ext hout rfl
  have hoff : ehdr.phoff.toNat + i * ehdr.phentsize.toNat = field data 28 4 + 32 * i := by
    rw [hphoff, hphentsize, Nat.mul_comm]
  refine ⟨_, hsound, ?_⟩
  simp only [readSegments, hoff, hseek.fail, Bool.false_eq_true, if_false, hread]
  rfl

-- The turns of the loop from header `i` on.
theorem readSegments_spec {ehdr : Elf32Ehdr} (hphoff : ehdr.phoff.toNat = field data 28 4)
    (hphentsize : ehdr.phentsize.toNat = 32) (img : ElfImage) (himg : img.error = none)
    (h : s.Sound data) (i count : ℕ) (htable : field data 28 4 + 32 * (i + count) ≤ data.length) :
    ((readSegments ehdr data.length s img i count).error = none ↔
      ∀ j ∈ List.range' i count, Loads data j → SegmentFits data j) ∧
    ((readSegments ehdr data.length s img i count).error = none →
      (readSegments ehdr data.length s img i count).entry = img.entry ∧
      (readSegments ehdr data.length s img i count).segments = img.segments ++
        ((List.range' i count).filter fun j => Loads data j).map (segmentOf data)) := by
  induction count generalizing s img i with
  | zero => simp [readSegments, himg]
  | succ count ih =>
    obtain ⟨s', hsound, hturn⟩ := readSegments_succ hphoff hphentsize h (i := i) (by omega) img count
    have hrange : List.range' i (count + 1) = i :: List.range' (i + 1) count := rfl
    rw [hturn, hrange, List.forall_mem_cons, List.filter_cons]
    by_cases hloads : Loads data i
    · by_cases hfits : SegmentFits data i
      · obtain ⟨s'', hsegment, hsound'⟩ := readSegment_ok hsound hloads hfits
        rw [hsegment]
        obtain ⟨herror, hok⟩ :=
          ih { img with segments := img.segments ++ [segmentOf data i] } himg hsound' (i + 1)
            (by omega)
        constructor
        · refine herror.trans ⟨fun hrest => ⟨fun _ => hfits, hrest⟩, fun hall => hall.2⟩
        · intro hnone
          obtain ⟨hentry, hsegments⟩ := hok hnone
          refine ⟨hentry, hsegments.trans ?_⟩
          rw [decide_eq_true hloads, if_pos rfl, List.map_cons, List.append_assoc]
          rfl
      · obtain ⟨error, s'', herror⟩ := readSegment_error (s := s') hloads hfits
        rw [herror]
        exact ⟨⟨nofun, fun hall => absurd (hall.1 hloads) hfits⟩, nofun⟩
    · rw [readSegment_skip hloads]
      obtain ⟨herror, hok⟩ :=
        ih { img with segments := img.segments ++ [] } himg hsound (i + 1) (by omega)
      constructor
      · exact herror.trans ⟨fun hrest => ⟨fun hl => absurd hl hloads, hrest⟩, fun hall => hall.2⟩
      · intro hnone
        obtain ⟨hentry, hsegments⟩ := hok hnone
        refine ⟨hentry, hsegments.trans ?_⟩
        rw [decide_eq_false hloads, if_neg Bool.false_ne_true, List.append_nil]

end Parse

end Elf

open Elf

section Header

variable {data : List Byte} (boundedSeek : Bool)

theorem parseElf_short (h : data.length < 52) :
    (parseElf { data, boundedSeek }).error ≠ none := by
  have hshort : (streamRead { data, boundedSeek } kEhdrSize).1 = none :=
    streamRead_short (by rw [Nat.zero_add]; exact h) (by decide)
  have hpair : streamRead { data, boundedSeek } kEhdrSize =
      (none, (streamRead { data, boundedSeek } kEhdrSize).2) := Prod.ext hshort rfl
  rw [parseElf, hpair]
  exact nofun

-- What parse_elf does once the header has been read.
theorem parseElf_of_header (h : 52 ≤ data.length) :
    ∃ s, s.Sound data ∧ parseElf { data, boundedSeek } =
      match checkHeader (.ofBytes (data.take 52)) with
      | some error => { error := some error }
      | none => readImage (.ofBytes (data.take 52)) data.length s := by
  have hstart : IStream.Sound { data, boundedSeek } data := ⟨rfl, rfl⟩
  obtain ⟨hout, hsound⟩ := streamRead_sound hstart rfl 52 (by rw [Nat.zero_add]; exact h)
  have hpair : streamRead { data, boundedSeek } kEhdrSize =
      (some (data.take 52), (streamRead { data, boundedSeek } kEhdrSize).2) := Prod.ext hout rfl
  obtain ⟨s, hsize, hsound'⟩ := streamSize_sound hsound
  refine ⟨s, hsound', ?_⟩
  rw [parseElf, hpair]
  cases hc : checkHeader (.ofBytes (data.take 52)) with
  | some error => simp only [hc]
  | none =>
    have hsize' : streamSize (streamRead { data, boundedSeek } kEhdrSize).2 =
        (some data.length, s) := hsize
    simp only [hc, hsize']

-- The fields of the header are those of the file.
theorem ofBytes_toNat (data : List Byte) :
    (Elf32Ehdr.ofBytes (data.take 52)).entry = BitVec.ofNat 32 (field data 24 4) ∧
      (Elf32Ehdr.ofBytes (data.take 52)).phoff.toNat = field data 28 4 ∧
      (Elf32Ehdr.ofBytes (data.take 52)).phentsize.toNat = field data 42 2 ∧
      (Elf32Ehdr.ofBytes (data.take 52)).phnum.toNat = field data 44 2 := by
  have hfield : ∀ off size, off + size ≤ 52 →
      field (data.take 52) off size = field data off size := fun off size h => by
    have hdrop := field_drop_take data 0 52 h
    rwa [List.drop_zero, Nat.zero_add] at hdrop
  simp only [Elf32Ehdr.ofBytes, hfield 24 4 (by decide), hfield 28 4 (by decide),
    hfield 42 2 (by decide), hfield 44 2 (by decide)]
  exact ⟨trivial, toNat_field _ _ (by decide), toNat_field _ _ (by decide),
    toNat_field _ _ (by decide)⟩

theorem segmentsOf_eq_nil_iff (data : List Byte) :
    segmentsOf data = [] ↔ ¬∃ i < field data 44 2, Loads data i := by
  simp [segmentsOf]

-- The table and the segments, for a file whose header is as it should be.
theorem readImage_exact {s : IStream Byte} (h : s.Sound data) :
    let img := readImage (.ofBytes (data.take 52)) data.length s
    (img.error = none ↔ field data 42 2 = 32 ∧
      field data 28 4 + 32 * field data 44 2 ≤ data.length ∧
      (∀ i < field data 44 2, Loads data i → SegmentFits data i) ∧
      ∃ i < field data 44 2, Loads data i) ∧
    (img.error = none → img.entry = BitVec.ofNat 32 (field data 24 4) ∧
      img.segments = segmentsOf data) := by
  obtain ⟨hentry, hphoff, hphentsize, hphnum⟩ := ofBytes_toNat data
  have htable := checkTable_eq_none_iff (.ofBytes (data.take 52)) data.length
  rw [hphoff, hphentsize, hphnum] at htable
  rw [readImage, hphnum, hentry]
  cases ht : checkTable (.ofBytes (data.take 52)) data.length with
  | some error =>
    refine ⟨⟨nofun, fun hwell => ?_⟩, nofun⟩
    have hnone := htable.mpr ⟨hwell.1, hwell.2.1⟩
    rw [ht] at hnone
    cases hnone
  | none =>
    obtain ⟨hsize, hfits⟩ := htable.mp ht
    obtain ⟨herror, hok⟩ := readSegments_spec hphoff
      (hphentsize.trans hsize) { entry := BitVec.ofNat 32 (field data 24 4) } rfl h 0
      (field data 44 2) (by rw [Nat.zero_add]; exact hfits)
    rw [← List.range_eq_range'] at herror hok
    simp only [List.mem_range] at herror
    dsimp only
    generalize readSegments _ data.length s _ 0 (field data 44 2) = img at herror hok ⊢
    cases he : img.error with
    | some error =>
      rw [he] at herror
      refine ⟨⟨fun hnone => ?_, fun hwell => ?_⟩, fun hnone => ?_⟩
      · simp [he] at hnone
      · exact absurd (herror.mpr hwell.2.2.1) nofun
      · simp [he] at hnone
    | none =>
      obtain ⟨hent, hsegments⟩ := hok he
      have hall := herror.mp he
      have hsegments' : img.segments = segmentsOf data := hsegments
      have hnil := segmentsOf_eq_nil_iff data
      rw [← hsegments'] at hnil
      by_cases hempty : img.segments = []
      · simp only [Option.isNone_none, hempty, and_self, if_true]
        exact ⟨⟨nofun, fun hwell => absurd hwell.2.2.2 (hnil.mp hempty)⟩, nofun⟩
      · have hload : ∃ i < field data 44 2, Loads data i :=
          not_not.mp fun hno => hempty (hnil.mpr hno)
        simp only [hempty, and_false, if_false]
        exact ⟨⟨fun _ => ⟨hsize, hfits, hall, hload⟩, fun _ => he⟩, fun _ => ⟨hent, hsegments'⟩⟩

end Header

-- parse_elf reports no error exactly on the well-formed images, and then returns their
-- entry point and all their segments.
theorem parseElf_exact (data : List Byte) (boundedSeek : Bool) :
    ((parseElf { data, boundedSeek }).error = none ↔ WellFormed data) ∧
    ((parseElf { data, boundedSeek }).error = none →
      (parseElf { data, boundedSeek }).entry = BitVec.ofNat 32 (field data 24 4) ∧
      (parseElf { data, boundedSeek }).segments = segmentsOf data) := by
  by_cases hsize : 52 ≤ data.length
  swap
  · have hshort := parseElf_short boundedSeek (Nat.lt_of_not_le hsize)
    exact ⟨⟨fun h => absurd h hshort, fun h => absurd h.size hsize⟩, fun h => absurd h hshort⟩
  obtain ⟨s, hsound, hparse⟩ := parseElf_of_header boundedSeek hsize
  obtain ⟨herror, hok⟩ := readImage_exact hsound
  have hheader := checkHeader_eq_none_iff hsize
  rw [hparse]
  cases hc : checkHeader (.ofBytes (data.take 52)) with
  | some error =>
    refine ⟨⟨nofun, fun h => ?_⟩, nofun⟩
    have hnone := hheader.mpr ⟨h.magic, h.class32, h.lsb, h.machine, h.type, h.phnum, h.phoff⟩
    rw [hc] at hnone
    cases hnone
  | none =>
    obtain ⟨hmagic, hclass, hlsb, hmachine, htype, hphnum, hphoff⟩ := hheader.mp hc
    refine ⟨herror.trans ⟨fun h => ?_, fun h => ?_⟩, hok⟩
    · obtain ⟨hphentsize, htable, hsegments, hnonempty⟩ := h
      exact ⟨hsize, hmagic, hclass, hlsb, hmachine, htype, hphnum, hphoff, hphentsize, htable,
        hsegments, hnonempty⟩
    · exact ⟨h.phentsize, h.table, h.segments, h.nonempty⟩

end ClearCore.Mips
