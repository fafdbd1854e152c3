import ClearCore.Isa.Memory.Lemmas
import ClearCore.Mips.ElfLoader
import ClearCore.Mips.Processor.Lemmas

-- What load_elf_into_processor does to memory: the segments are laid over it in table order,
-- and a load that fails keeps what came before the failure.

namespace ClearCore.Mips

open Isa Elf

-- The bytes of a segment in memory: those of the file, and zeros after them.
def ElfSegment.contents (seg : ElfSegment) : List Byte :=
  seg.data ++ List.replicate (seg.memsz.toNat - seg.filesz.toNat) 0

-- What the segment has at address `n`.
def ElfSegment.byteAt (seg : ElfSegment) (n : ℕ) : Option Byte :=
  if n < seg.vaddr.toNat then none else seg.contents[n - seg.vaddr.toNat]?

def ElfSegment.Fits (seg : ElfSegment) (size : ℕ) : Prop :=
  seg.vaddr.toNat + seg.memsz.toNat ≤ size

instance (seg : ElfSegment) (size : ℕ) : Decidable (seg.Fits size) :=
  inferInstanceAs (Decidable (_ ≤ _))

-- What the segments have at address `n`. A later segment wins.
def overlay : List ElfSegment → ℕ → Option Byte
  | [], _ => none
  | seg :: segs, n => (overlay segs n).or (seg.byteAt n)

-- The segments up to the first that does not fit, with it.
def attempted (size : ℕ) : List ElfSegment → List ElfSegment
  | [] => []
  | seg :: segs => if seg.Fits size then seg :: attempted size segs else [seg]

-- `mem'` is `mem` with the segments laid over it, as far as there is memory.
structure Laid (segs : List ElfSegment) (mem mem' : Memory) : Prop where
  size : mem'.size = mem.size
  bytes : ∀ n < mem.size, mem'.data[n]? = (overlay segs n).or mem.data[n]?

-- What parse_elf promises of a segment.
structure ElfSegment.Valid (seg : ElfSegment) : Prop where
  data : seg.data.length = seg.filesz.toNat
  memsz : seg.filesz.toNat ≤ seg.memsz.toNat
  nonempty : 0 < seg.memsz.toNat
  space : seg.vaddr.toNat + seg.memsz.toNat ≤ 2 ^ 32

section Segments

variable {mem : Memory}

theorem writeBytes_spec (mem : Memory) (vaddr : Word) (value : ℕ → Byte) (off count : ℕ)
    (h : vaddr.toNat + off + count ≤ 2 ^ 32) :
    (writeBytes vaddr value off count mem).1 =
        decide (count = 0 ∨ vaddr.toNat + off + count ≤ mem.size) ∧
      (writeBytes vaddr value off count mem).2.size = mem.size ∧
      ∀ n < mem.size, (writeBytes vaddr value off count mem).2.data[n]? =
        if vaddr.toNat + off ≤ n ∧ n < vaddr.toNat + off + count then
          some (value (n - vaddr.toNat))
        else mem.data[n]? := by
  induction count generalizing off mem with
  | zero =>
    refine ⟨rfl, rfl, fun n _ => ?_⟩
    rw [if_neg (by omega)]
    rfl
  | succ count ih =>
    have haddr : (vaddr + BitVec.ofNat 32 off).toNat = vaddr.toNat + off := by
      rw [BitVec.toNat_add, BitVec.toNat_ofNat]
      omega
    rw [writeBytes, Memory.writeByte, Memory.inBounds, haddr]
    by_cases hfits : vaddr.toNat + off + 1 ≤ mem.size
    · have hbound : vaddr.toNat + off + 1 ≤ mem.data.size := hfits
      simp only [hbound, decide_true, not_true, if_false]
      obtain ⟨hok, hsize, hbytes⟩ := ih (mem.setByte (vaddr + BitVec.ofNat 32 off) (value off))
        (off + 1) (by omega)
      rw [Memory.size_setByte] at hok hsize hbytes
      refine ⟨?_, hsize, fun n hn => ?_⟩
      · rw [hok]
        apply decide_eq_decide.mpr
        omega
      · rw [hbytes n hn, Memory.getElem?_setByte (by omega), haddr]
        by_cases hfirst : n = vaddr.toNat + off
        · subst hfirst
          rw [if_neg (by omega), if_pos rfl, if_pos (by omega), Nat.add_sub_cancel_left]
        · rw [if_neg hfirst]
          exact if_congr (by omega) rfl rfl
    · have hbound : ¬vaddr.toNat + off + 1 ≤ mem.data.size := hfits
      simp only [hbound, decide_false, Bool.false_eq_true, not_false_iff, if_true]
      refine ⟨?_, trivial, fun n hn => ?_⟩
      · symm
        exact decide_eq_false (by omega)
      · rw [if_neg (by omega)]

theorem contents_length {seg : ElfSegment} (h : seg.Valid) :
    seg.contents.length = seg.memsz.toNat := by
  have hmemsz := h.memsz
  rw [ElfSegment.contents, List.length_append, List.length_replicate, h.data]
  omega

theorem byteAt_file {seg : ElfSegment} (h : seg.Valid) {n : ℕ} (hn : seg.vaddr.toNat ≤ n)
    (hn' : n < seg.vaddr.toNat + seg.filesz.toNat) :
    seg.byteAt n = some (seg.data.getD (n - seg.vaddr.toNat) 0) := by
  have hlt : n - seg.vaddr.toNat < seg.data.length := by rw [h.data]; omega
  rw [ElfSegment.byteAt, if_neg (by omega), ElfSegment.contents, List.getElem?_append_left hlt,
    List.getD_eq_getElem?_getD, List.getElem?_eq_getElem hlt]
  rfl

theorem byteAt_zeros {seg : ElfSegment} (h : seg.Valid) {n : ℕ}
    (hn : seg.vaddr.toNat + seg.filesz.toNat ≤ n) (hn' : n < seg.vaddr.toNat + seg.memsz.toNat) :
    seg.byteAt n = some 0 := by
  rw [ElfSegment.byteAt, if_neg (by omega), ElfSegment.contents,
    List.getElem?_append_right (by rw [h.data]; omega), List.getElem?_replicate, h.data,
    if_pos (by omega)]

theorem byteAt_outside {seg : ElfSegment} (h : seg.Valid) {n : ℕ}
    (hn : n < seg.vaddr.toNat ∨ seg.vaddr.toNat + seg.memsz.toNat ≤ n) : seg.byteAt n = none := by
  rw [ElfSegment.byteAt]
  split
  · rfl
  · rw [List.getElem?_eq_none (by rw [contents_length h]; omega)]

-- A segment goes in as far as there is memory.
theorem loadSegment_spec (mem : Memory) {seg : ElfSegment} (h : seg.Valid) :
    (loadSegment seg mem).1 = decide (seg.Fits mem.size) ∧ Laid [seg] mem (loadSegment seg mem).2 := by
  have hmemsz := h.memsz
  have hnonempty := h.nonempty
  have hspace := h.space
  obtain ⟨hok, hsize, hbytes⟩ := writeBytes_spec mem seg.vaddr (fun off => seg.data.getD off 0) 0
    seg.filesz.toNat (by omega)
  rw [Nat.add_zero] at hok hbytes
  rw [loadSegment]
  generalize hfile : writeBytes seg.vaddr (fun off => seg.data.getD off 0) 0 seg.filesz.toNat mem =
    result at hok hsize hbytes
  obtain ⟨ok, mid⟩ := result
  dsimp only at hok hsize hbytes
  cases ok with
  | false =>
    -- the memory ends in the file bytes
    have hshort := of_decide_eq_false hok.symm
    refine ⟨(decide_eq_false ?_).symm, hsize, fun n hn => ?_⟩
    · rw [ElfSegment.Fits]
      omega
    · rw [hbytes n hn, overlay, overlay, Option.none_or]
      split
      · rename_i hin
        rw [byteAt_file h hin.1 hin.2, Option.some_or]
      · rw [byteAt_outside h (by omega), Option.none_or]
  | true =>
    obtain ⟨hok', hsize', hbytes'⟩ := writeBytes_spec mid seg.vaddr (fun _ => 0) seg.filesz.toNat
      (seg.memsz.toNat - seg.filesz.toNat) (by omega)
    have hfits := of_decide_eq_true hok.symm
    dsimp only
    refine ⟨?_, hsize'.trans hsize, fun n hn => ?_⟩
    · rw [hok', hsize]
      apply decide_eq_decide.mpr
      rw [ElfSegment.Fits]
      omega
    · rw [hbytes' n (by omega), hbytes n hn, overlay, overlay, Option.none_or]
      split
      · rw [byteAt_zeros h (by omega) (by omega), Option.some_or]
      split
      · rw [byteAt_file h (by omega) (by omega), Option.some_or]
      · rw [byteAt_outside h (by omega), Option.none_or]

theorem Laid.nil : Laid [] mem mem := ⟨rfl, fun _ _ => rfl⟩

theorem Laid.cons {seg : ElfSegment} {segs : List ElfSegment} {mid mem' : Memory}
    (h : Laid [seg] mem mid) (h' : Laid segs mid mem') : Laid (seg :: segs) mem mem' := by
  refine ⟨h'.size.trans h.size, fun n hn => ?_⟩
  have hmid := h.bytes n hn
  rw [overlay, overlay, Option.none_or] at hmid
  rw [h'.bytes n (by rw [h.size]; exact hn), hmid, overlay, Option.or_assoc]

-- The loop stops at the first segment that does not fit.
theorem loadSegments_spec (mem : Memory) {segs : List ElfSegment} (h : ∀ seg ∈ segs, seg.Valid) :
    ((loadSegments segs mem).1 = none ↔ ∀ seg ∈ segs, seg.Fits mem.size) ∧
      Laid (attempted mem.size segs) mem (loadSegments segs mem).2 := by
  induction segs generalizing mem with
  | nil => exact ⟨⟨nofun, fun _ => rfl⟩, .nil⟩
  | cons seg segs ih =>
    obtain ⟨hok, hlaid⟩ := loadSegment_spec mem (h seg List.mem_cons_self)
    have hrest := ih (loadSegment seg mem).2 fun seg' hseg => h seg' (List.mem_cons_of_mem _ hseg)
    rw [loadSegments, attempted]
    generalize loadSegment seg mem = result at hok hlaid hrest
    obtain ⟨ok, mid⟩ := result
    cases ok with
    | false =>
      have hmisfit : ¬seg.Fits mem.size := of_decide_eq_false hok.symm
      rw [if_neg hmisfit]
      exact ⟨⟨nofun, fun hall => absurd (hall seg List.mem_cons_self) hmisfit⟩, hlaid⟩
    | true =>
      have hfits : seg.Fits mem.size := of_decide_eq_true hok.symm
      obtain ⟨hnone, hlaid'⟩ := hrest
      rw [hlaid.size] at hnone hlaid'
      rw [if_pos hfits]
      refine ⟨hnone.trans ?_, hlaid.cons hlaid'⟩
      simp only [List.forall_mem_cons, hfits, true_and]

end Segments

-- The segments of parse_elf, from any stream.

section Parse

variable {s : IStream Byte}

theorem streamRead_length {size : ℕ} {bytes : List Byte} (h : (streamRead s size).1 = some bytes) :
    bytes.length = size := by
  rw [streamRead] at h
  dsimp only at h
  split at h
  · cases h
  · rename_i hfail
    obtain rfl := Option.some.inj h
    rw [IStream.read] at hfail ⊢
    split
    · rename_i hstate
      rw [if_pos hstate] at hfail
      exact absurd rfl hfail
    · rename_i hstate
      rw [if_neg hstate] at hfail
      dsimp only at hfail ⊢
      split
      · rename_i hlen
        exact hlen
      · rename_i hlen
        rw [if_neg hlen] at hfail
        exact absurd rfl hfail

theorem readData_length {i fileSize : ℕ} {phdr : Elf32Phdr} {data : List Byte}
    (h : (readData s i phdr fileSize).1 = .ok data) : data.length = phdr.filesz.toNat := by
  rw [readData] at h
  split at h
  · cases h
  dsimp only at h
  split at h
  · cases h
  split at h
  · cases h
  · rename_i hread
    obtain rfl := Except.ok.inj h
    exact streamRead_length (congrArg Prod.fst hread)

theorem readSegment_valid {i fileSize : ℕ} {phdr : Elf32Phdr} {seg : ElfSegment}
    (h : (readSegment s i phdr fileSize).1 = .ok (some seg)) : seg.Valid := by
  rw [readSegment] at h
  split at h
  · cases h
  split at h
  · cases h
  rename_i hempty
  split at h
  · cases h
  rename_i hmemsz
  split at h
  · cases h
  rename_i hspace
  have hend : phdr.vaddr.toNat + phdr.memsz.toNat ≤ 2 ^ 32 := Nat.le_of_not_lt hspace
  have hle : phdr.filesz.toNat ≤ phdr.memsz.toNat := by omega
  have hnonempty : 0 < phdr.memsz.toNat := by
    refine Nat.pos_of_ne_zero fun hzero => hempty ⟨?_, BitVec.eq_of_toNat_eq hzero⟩
    exact BitVec.eq_of_toNat_eq (by rw [BitVec.toNat_ofNat]; omega)
  split at h
  · split at h
    · cases h
    · rename_i data s' hread
      obtain rfl := Option.some.inj (Except.ok.inj h)
      exact ⟨readData_length (congrArg Prod.fst hread), hle, hnonempty, hend⟩
  · rename_i hfilesz
    obtain rfl := Option.some.inj (Except.ok.inj h)
    have hzero : phdr.filesz.toNat = 0 := by omega
    exact ⟨hzero.symm, hle, hnonempty, hend⟩

theorem readSegments_valid (ehdr : Elf32Ehdr) (fileSize : ℕ) (s : IStream Byte) {img : ElfImage}
    (himg : ∀ seg ∈ img.segments, seg.Valid) (i count : ℕ) :
    ∀ seg ∈ (readSegments ehdr fileSize s img i count).segments, seg.Valid := by
  induction count generalizing s img i with
  | zero => exact himg
  | succ count ih =>
    rw [readSegments]
    split
    · exact himg
    split
    · exact himg
    split
    · exact himg
    · rename_i segment s' hread
      refine ih s' (fun seg hseg => ?_) (i + 1)
      rcases List.mem_append.mp hseg with hseg | hseg
      · exact himg seg hseg
      · obtain rfl := Option.mem_toList.mp hseg
        exact readSegment_valid (congrArg Prod.fst hread)

theorem parseElf_valid (s : IStream Byte) : ∀ seg ∈ (parseElf s).segments, seg.Valid := by
  rw [parseElf]
  split
  · nofun
  dsimp only
  split
  · nofun
  split
  · nofun
  rw [readImage]
  split
  · nofun
  · have hempty : ∀ seg ∈ ([] : List ElfSegment), seg.Valid := nofun
    dsimp only
    split
    · exact readSegments_valid _ _ _ hempty 0 _
    · exact readSegments_valid _ _ _ hempty 0 _

end Parse

section Processor

variable {P : Type} [IMipsProcessor P]

-- The attempted segments put nothing in memory that is not there already.
def Redundant (image : ElfImage) (mem : Memory) : Prop :=
  image.error = none → (∃ seg ∈ image.segments, ¬seg.Fits mem.size) →
    ∀ n < mem.size, ∀ b, overlay (attempted mem.size image.segments) n = some b →
      mem.data[n]? = some b

-- A load that fails leaves the memory, the PC and all registers as they were.
def LoadKeeps (cpu : P) (image : ElfImage) : Prop :=
  (loadElfIntoProcessor cpu image).1 ≠ none →
    visible (loadElfIntoProcessor cpu image).2 = visible cpu

variable [LawfulSetters P] (cpu : P) (s : IStream Byte)

theorem attempted_eq_self {size : ℕ} {segs : List ElfSegment} (h : ∀ seg ∈ segs, seg.Fits size) :
    attempted size segs = segs := by
  induction segs with
  | nil => rfl
  | cons seg segs ih =>
    have hrest := ih fun seg' hseg => h seg' (List.mem_cons_of_mem _ hseg)
    rw [attempted, if_pos (h seg List.mem_cons_self), hrest]

theorem overlay_eq_none {size n : ℕ} {segs : List ElfSegment} (hvalid : ∀ seg ∈ segs, seg.Valid)
    (hfits : ∀ seg ∈ segs, seg.Fits size) (hn : size ≤ n) : overlay segs n = none := by
  induction segs with
  | nil => rfl
  | cons seg segs ih =>
    obtain ⟨hseg, hsegs⟩ := List.forall_mem_cons.mp hvalid
    obtain ⟨hfit, hrest⟩ := List.forall_mem_cons.mp hfits
    rw [ElfSegment.Fits] at hfit
    rw [overlay, ih hsegs hrest, Option.none_or, byteAt_outside hseg (by omega)]

-- What a load does that is not rejected for the image.
theorem loadElf_spec {image : ElfImage} (h : image.error = none)
    (hvalid : ∀ seg ∈ image.segments, seg.Valid) :
    ((loadElfIntoProcessor cpu image).1 = none ↔
      ∀ seg ∈ image.segments, seg.Fits (IMipsProcessor.mem cpu).size) ∧
    ∃ mem, Laid (attempted (IMipsProcessor.mem cpu).size image.segments) (IMipsProcessor.mem cpu) mem ∧
      visible (loadElfIntoProcessor cpu image).2 =
        if (loadElfIntoProcessor cpu image).1 = none then { visible cpu with mem, pc := image.entry }
        else { visible cpu with mem } := by
  obtain ⟨hok, hlaid⟩ := loadSegments_spec (IMipsProcessor.mem cpu) hvalid
  simp only [loadElfIntoProcessor, h]
  generalize loadSegments image.segments (IMipsProcessor.mem cpu) = result at hok hlaid
  obtain ⟨misfit, mem⟩ := result
  cases misfit with
  | none =>
    refine ⟨⟨fun _ => hok.mp rfl, fun _ => rfl⟩, mem, hlaid, ?_⟩
    rw [if_pos rfl, LawfulSetters.setPc, LawfulSetters.setMem]
  | some seg =>
    refine ⟨⟨nofun, fun hall => absurd (hok.mpr hall) nofun⟩, mem, hlaid, ?_⟩
    rw [if_neg nofun, LawfulSetters.setMem]

-- A load succeeds if all segments fit, and then lays them over memory.
theorem loadElf_exact (h : (parseElf s).error = none) :
    ((loadElfIntoProcessor cpu (parseElf s)).1 = none ↔ ∀ seg ∈ (parseElf s).segments,
      seg.vaddr.toNat + seg.memsz.toNat ≤ (IMipsProcessor.mem cpu).size) ∧
    ((loadElfIntoProcessor cpu (parseElf s)).1 = none →
      ∃ mem, visible (loadElfIntoProcessor cpu (parseElf s)).2 =
        { visible cpu with mem, pc := (parseElf s).entry } ∧
        ∀ n, mem.data[n]? = (overlay (parseElf s).segments n).or (IMipsProcessor.mem cpu).data[n]?) := by
  have hvalid := parseElf_valid s
  obtain ⟨hok, mem, hlaid, hvisible⟩ := loadElf_spec cpu h hvalid
  refine ⟨hok, fun hnone => ⟨mem, by rw [hvisible, if_pos hnone], fun n => ?_⟩⟩
  have hfits := hok.mp hnone
  rw [attempted_eq_self hfits] at hlaid
  by_cases hn : n < (IMipsProcessor.mem cpu).size
  · exact hlaid.bytes n hn
  · have hsize : mem.data.size ≤ n := by
      have hsame : mem.data.size = (IMipsProcessor.mem cpu).size := hlaid.size
      omega
    have hold : (IMipsProcessor.mem cpu).data.size ≤ n := Nat.le_of_not_lt hn
    rw [overlay_eq_none hvalid hfits hold, Array.getElem?_eq_none hsize,
      Array.getElem?_eq_none hold]
    rfl

-- An image with a segment of four file bytes and 252 zeros at address 12.
def bssElf : IStream Byte where
  data :=
    [0x7F, 0x45, 0x4C, 0x46, 1, 1, 1, 0, 0, 0, 0, 0, 0, 0, 0, 0,
      2, 0, 8, 0, 1, 0, 0, 0, 12, 0, 0, 0, 52, 0, 0, 0, 0, 0, 0, 0, 0, 0, 0, 0,
      52, 0, 32, 0, 1, 0, 0, 0, 0, 0, 0, 0,
      1, 0, 0, 0, 84, 0, 0, 0, 12, 0, 0, 0, 12, 0, 0, 0, 4, 0, 0, 0, 0, 1, 0, 0,
      5, 0, 0, 0, 4, 0, 0, 0,
      0xAA, 0xAA, 0xAA, 0xAA]
  boundedSeek := false

def bssSegment : ElfSegment :=
  { vaddr := 12, filesz := 4, memsz := 0x100, data := [0xAA, 0xAA, 0xAA, 0xAA] }

theorem parseElf_bssElf : parseElf bssElf = { segments := [bssSegment], entry := 12 } := by
  decide

theorem loadElf_exact_bss : ∃ mem,
    visible (loadElfIntoProcessor (SingleCycleCpu.create 0x200) (parseElf bssElf)).2 =
      { visible (SingleCycleCpu.create 0x200) with mem, pc := 12 } ∧
    mem.data[12]? = some 0xAA ∧ mem.data[0x10B]? = some 0 ∧ mem.data[0x10C]? = some 0 := by
  have herror : (parseElf bssElf).error = none := by rw [parseElf_bssElf]
  obtain ⟨hok, hlaid⟩ := loadElf_exact (SingleCycleCpu.create 0x200) bssElf herror
  have hnone := hok.mpr (by rw [parseElf_bssElf]; decide +kernel)
  obtain ⟨mem, hvisible, hbytes⟩ := hlaid hnone
  rw [parseElf_bssElf] at hbytes
  refine ⟨mem, by rw [hvisible, parseElf_bssElf], ?_, ?_, ?_⟩
  · rw [hbytes]; decide
  · rw [hbytes]; decide
  · rw [hbytes]; decide +kernel

-- A load that fails changes nothing just when what it had laid over memory was there before.
theorem failedLoad_unchanged_iff :
    LoadKeeps cpu (parseElf s) ↔ Redundant (parseElf s) (IMipsProcessor.mem cpu) := by
  cases h : (parseElf s).error with
  | some error =>
    have hresult : (loadElfIntoProcessor cpu (parseElf s)).2 = cpu := by
      simp only [loadElfIntoProcessor, h]
    refine ⟨fun _ hnone => ?_, fun _ _ => by rw [hresult]⟩
    rw [h] at hnone
    cases hnone
  | none =>
    obtain ⟨hok, mem, hlaid, hvisible⟩ := loadElf_spec cpu h (parseElf_valid s)
    have hfails : (∃ seg ∈ (parseElf s).segments, ¬seg.Fits (IMipsProcessor.mem cpu).size) ↔
        (loadElfIntoProcessor cpu (parseElf s)).1 ≠ none := by
      rw [Ne, hok]
      push Not
      rfl
    -- the overlay is redundant if the memory is the old one
    have hsame : mem = IMipsProcessor.mem cpu ↔ ∀ n < (IMipsProcessor.mem cpu).size, ∀ b,
        overlay (attempted (IMipsProcessor.mem cpu).size (parseElf s).segments) n = some b →
          (IMipsProcessor.mem cpu).data[n]? = some b := by
      constructor
      · rintro rfl n hn b hb
        have hbyte := hlaid.bytes n hn
        rwa [hb, Option.some_or] at hbyte
      · intro hredundant
        apply Memory.eq_of_getElem?
        intro n
        by_cases hn : n < (IMipsProcessor.mem cpu).size
        · rw [hlaid.bytes n hn]
          cases hb : overlay (attempted (IMipsProcessor.mem cpu).size (parseElf s).segments) n with
          | none => rfl
          | some b => rw [hredundant n hn b hb, Option.some_or]
        · have hsize : mem.data.size = (IMipsProcessor.mem cpu).data.size := hlaid.size
          have hold : (IMipsProcessor.mem cpu).data.size ≤ n := Nat.le_of_not_lt hn
          rw [Array.getElem?_eq_none (hsize ▸ hold), Array.getElem?_eq_none hold]
    constructor
    · intro hkeeps _ hmisfit
      have hfail := hfails.mp hmisfit
      have hvis := hkeeps hfail
      rw [hvisible, if_neg hfail] at hvis
      exact hsame.mp (congrArg Visible.mem hvis)
    · intro hredundant hfail
      rw [hvisible, if_neg hfail, hsame.mpr (hredundant h (hfails.mpr hfail))]
      rfl

theorem failedLoad_unchanged_iff_pipelined :
    LoadKeeps (PipelinedCpu.create 16) (parseElf bssElf) ↔
      Redundant (parseElf bssElf) (PipelinedCpu.create 16).mem :=
  failedLoad_unchanged_iff _ _

-- The file bytes fit in 16 bytes of memory and the zeros do not.
theorem failed_load_writes :
    (loadElfIntoProcessor (SingleCycleCpu.create 16) (parseElf bssElf)).1.isSome = true ∧
      (loadElfIntoProcessor (SingleCycleCpu.create 16) (parseElf bssElf)).2.mem.readWord 12 =
        some 0xAAAAAAAA#32 ∧
      (SingleCycleCpu.create 16).mem.readWord 12 = some 0#32 ∧
      ¬LoadKeeps (SingleCycleCpu.create 16) (parseElf bssElf) := by
  rw [parseElf_bssElf]
  refine ⟨by decide, by decide, by decide, fun h => ?_⟩
  have hmem := congrArg (fun v => v.mem.readWord 12) (h (by decide))
  exact absurd hmem (by decide)

end Processor

end ClearCore.Mips
