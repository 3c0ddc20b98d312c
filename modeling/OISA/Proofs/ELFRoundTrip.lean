import OISA.Cpp.ELFWriter
import OISA.Lib.Runs
import OISA.Proofs.ELFRanges

/-!
# The ELF reader reads what the writer writes

The header says where the tables are, a section header where the buffers of its section are, and
the string table where its name is.
-/

namespace OISA.Cpp.ELFWriter

open OISA.Lib ELFReader

variable {file : File}

section Layouts

lemma number_append (pre mid post : List UInt8) :
    number (memory (pre ++ mid ++ post)) mid.length pre.length = leNat mid := by
  unfold number memory
  congr 1
  apply List.ext_getElem
  · rw [List.length_map, List.length_range]
  · intro i hi hi'
    rw [List.getElem_map, List.getElem_range, List.getD_eq_getElem?_getD, List.append_assoc,
      List.getElem?_append_right (by omega), Nat.add_sub_cancel_left,
      List.getElem?_append_left hi', List.getElem?_eq_getElem hi']
    rfl

lemma layout_cons (field : ℕ × ℕ) (fields : List (ℕ × ℕ)) :
    layout (field :: fields) = leBytes field.1 field.2 ++ layout fields := rfl

lemma layout_append (fields fields' : List (ℕ × ℕ)) :
    layout (fields ++ fields') = layout fields ++ layout fields' := List.flatMap_append

lemma length_layout (fields : List (ℕ × ℕ)) :
    (layout fields).length = (fields.map Prod.fst).sum := by
  induction fields with
  | nil => rfl
  | cons field fields ih =>
    rw [layout_cons, List.length_append, length_leBytes, ih, List.map_cons, List.sum_cons]

lemma number_layout {bytes pre post : List UInt8} {fields : List (ℕ × ℕ)} {widths : List ℕ}
    (hbytes : bytes = pre ++ layout fields ++ post) (hwidths : fields.map Prod.fst = widths)
    (k pos : ℕ) {width value : ℕ} (hfield : fields[k]? = some (width, value))
    (hvalue : value < 256 ^ width) (hpos : pos = pre.length + (widths.take k).sum) :
    number (memory bytes) width pos = value := by
  obtain ⟨hk, hat⟩ := List.getElem?_eq_some_iff.mp hfield
  have hfields : fields = fields.take k ++ (width, value) :: fields.drop (k + 1) := by
    rw [← hat, List.getElem_cons_drop, List.take_append_drop]
  have hsplit : bytes = (pre ++ layout (fields.take k)) ++ leBytes width value ++
      (layout (fields.drop (k + 1)) ++ post) := by
    rw [hbytes]
    conv_lhs => rw [hfields]
    rw [layout_append, layout_cons]
    simp only [List.append_assoc]
  have hlength : pos = (pre ++ layout (fields.take k)).length := by
    rw [List.length_append, length_layout, List.map_take, hwidths, hpos]
  have hnumber := number_append (pre ++ layout (fields.take k)) (leBytes width value)
    (layout (fields.drop (k + 1)) ++ post)
  rw [length_leBytes, ← hsplit, ← hlength, leNat_leBytes_of_lt hvalue] at hnumber
  exact hnumber

def ehdrWidths : List ℕ := List.replicate 16 1 ++ [2, 2, 4, 4, 4, 4, 4, 2, 2, 2, 2, 2, 2]

def shdrWidths : List ℕ := List.replicate 10 4

def phdrWidths : List ℕ := List.replicate 8 4

lemma map_ehdrFields (file : File) : (ehdrFields file).map Prod.fst = ehdrWidths := rfl

lemma map_shdrFields (file : File) (i : ℕ) (s : Section) :
    (shdrFields file i s).map Prod.fst = shdrWidths := rfl

lemma map_phdrFields (file : File) (s : Segment) :
    (phdrFields file s).map Prod.fst = phdrWidths := rfl

end Layouts

section Runs

/-- The sections have their names in the string table, and their buffers exist. -/
structure Built (file : File) : Prop where
  null : file.buffers[0]? = some []
  names : ∃ names, file.buffers[1]? = some names ∧ ∀ s ∈ file.sections,
    ∃ before after, names = before ++ (s.name ++ 0 :: after) ∧ before.length = s.sh_name
  first : file.sections[0]? = newFile.sections[0]?
  second : file.sections[1]? = newFile.sections[1]?
  range : ∀ s ∈ file.sections, s.first_buffer ≤ s.last_buffer

lemma built_new : Built newFile := by
  refine ⟨rfl, ⟨_, rfl, ?_⟩, rfl, rfl, ?_⟩
  · intro s hs
    simp only [newFile, List.mem_cons, List.not_mem_nil, or_false] at hs
    rcases hs with rfl | rfl
    · exact ⟨[], shstrtab ++ [0], rfl, rfl⟩
    · exact ⟨[0], [], rfl, rfl⟩
  · intro s hs
    simp only [newFile, List.mem_cons, List.not_mem_nil, or_false] at hs
    rcases hs with rfl | rfl <;> exact le_refl _

lemma Built.newSection (h : Built file) {name : List UInt8} {first last : ℕ} {file' : File}
    (hstep : newSection name first last file = some file') : Built file' := by
  obtain ⟨names, hnames, hsections⟩ := h.names
  unfold ELFWriter.newSection at hstep
  split_ifs at hstep with hrange horder
  rw [hnames] at hstep
  obtain rfl := Option.some.inj hstep
  have hlen : 1 < file.buffers.length := (List.getElem?_eq_some_iff.mp hnames).1
  have hshorter : 1 < file.sections.length :=
    (List.getElem?_eq_some_iff.mp (h.second.trans rfl)).1
  refine ⟨?_, ⟨names ++ name ++ [0], ?_, ?_⟩, ?_, ?_, ?_⟩
  · simp only [List.getElem?_set_ne (show 1 ≠ 0 by decide)]
    exact h.null
  · simp only [List.getElem?_set_self hlen]
  · intro s hs
    cases List.mem_append.mp hs with
    | inl hs =>
      obtain ⟨before, after, rfl, hbefore⟩ := hsections s hs
      exact ⟨before, after ++ (name ++ [0]), by simp, hbefore⟩
    | inr hs =>
      obtain rfl := List.mem_singleton.mp hs
      exact ⟨names, [], by simp, rfl⟩
  · simp only [List.getElem?_append_left (show 0 < file.sections.length by omega)]
    exact h.first
  · simp only [List.getElem?_append_left hshorter]
    exact h.second
  · intro s hs
    cases List.mem_append.mp hs with
    | inl hs => exact h.range s hs
    | inr hs =>
      obtain rfl := List.mem_singleton.mp hs
      exact not_lt.mp horder

lemma Built.perform (h : Built file) {op : Op} {file' : File}
    (hstep : perform op file = some file') : Built file' := by
  have hlen : 1 < file.buffers.length := by
    obtain ⟨names, hnames, -⟩ := h.names
    exact (List.getElem?_eq_some_iff.mp hnames).1
  cases op with
  | header e_ident e_machine e_version e_entry =>
    obtain rfl := Option.some.inj hstep
    exact ⟨h.null, h.names, h.first, h.second, h.range⟩
  | newBuffer =>
    obtain rfl := Option.some.inj hstep
    have hget : ∀ i < 2, (file.buffers ++ [[]])[i]? = file.buffers[i]? := fun i hi =>
      List.getElem?_append_left (by omega)
    refine ⟨(hget 0 (by decide)).trans h.null, ?_, h.first, h.second, h.range⟩
    obtain ⟨names, hnames, hsections⟩ := h.names
    exact ⟨names, (hget 1 (by decide)).trans hnames, hsections⟩
  | write index bytes =>
    unfold ELFWriter.perform at hstep
    dsimp only at hstep
    split_ifs at hstep with hindex
    obtain rfl := Option.some.inj hstep
    have hget : ∀ i < 2, (file.buffers.set index bytes)[i]? = file.buffers[i]? := fun i hi =>
      List.getElem?_set_ne (by omega)
    refine ⟨(hget 0 (by decide)).trans h.null, ?_, h.first, h.second, h.range⟩
    obtain ⟨names, hnames, hsections⟩ := h.names
    exact ⟨names, (hget 1 (by decide)).trans hnames, hsections⟩
  | newSection name first last => exact h.newSection hstep
  | setSection index info =>
    unfold ELFWriter.perform at hstep
    dsimp only at hstep
    split_ifs at hstep with hindex
    obtain rfl := Option.some.inj hstep
    have hget : ∀ i < 2, (file.sections.modify index fun s => { s with info := info })[i]? =
        file.sections[i]? := by
      intro i hi
      have hne : index ≠ i := by omega
      simp [hne]
    have hsame : ∀ s ∈ file.sections.modify index fun s => { s with info := info },
        ∃ t ∈ file.sections, s.name = t.name ∧ s.sh_name = t.sh_name ∧
          s.first_buffer = t.first_buffer ∧ s.last_buffer = t.last_buffer := by
      intro s hs
      obtain ⟨i, hi⟩ := List.mem_iff_getElem?.mp hs
      rw [List.getElem?_modify] at hi
      obtain ⟨t, ht, rfl⟩ := Option.map_eq_some_iff.mp hi
      refine ⟨t, List.mem_of_getElem? ht, ?_⟩
      split_ifs <;> exact ⟨rfl, rfl, rfl, rfl⟩
    refine ⟨h.null, ?_, (hget 0 (by decide)).trans h.first, (hget 1 (by decide)).trans h.second,
      ?_⟩
    · obtain ⟨names, hnames, hsections⟩ := h.names
      refine ⟨names, hnames, ?_⟩
      intro s hs
      obtain ⟨t, ht, hname, hoffset, -⟩ := hsame s hs
      rw [hname, hoffset]
      exact hsections t ht
    · intro s hs
      obtain ⟨t, ht, -, -, hfirst, hlast⟩ := hsame s hs
      rw [hfirst, hlast]
      exact h.range t ht
  | newSegment first last =>
    unfold ELFWriter.perform ELFWriter.newSegment at hstep
    dsimp only at hstep
    split_ifs at hstep
    obtain rfl := Option.some.inj hstep
    exact ⟨h.null, h.names, h.first, h.second, h.range⟩
  | setSegment index info =>
    obtain rfl := Option.some.inj hstep
    exact ⟨h.null, h.names, h.first, h.second, h.range⟩

end Runs

section Output

def shtab (file : File) : List (List UInt8) :=
  file.sections.mapIdx fun i s => layout (shdrFields file i s)

def phtab (file : File) : List (List UInt8) :=
  file.segments.map fun s => layout (phdrFields file s)

lemma Generate_eq (file : File) : Generate file = layout (ehdrFields file) ++
    (phtab file).flatten ++ file.buffers.flatten ++ (shtab file).flatten := rfl

lemma length_ehdr (file : File) : (layout (ehdrFields file)).length = 52 := by
  rw [length_layout, map_ehdrFields]
  decide

lemma length_flatten_of_forall {lists : List (List UInt8)} {n : ℕ}
    (h : ∀ list ∈ lists, list.length = n) : lists.flatten.length = n * lists.length := by
  rw [List.length_flatten, List.map_congr_left h, List.map_const', List.sum_replicate,
    smul_eq_mul, Nat.mul_comm]

lemma length_of_mem_phtab {bytes : List UInt8} (h : bytes ∈ phtab file) : bytes.length = 32 := by
  obtain ⟨s, -, rfl⟩ := List.mem_map.mp h
  rw [length_layout, map_phdrFields]
  decide

lemma length_of_mem_shtab {bytes : List UInt8} (h : bytes ∈ shtab file) : bytes.length = 40 := by
  obtain ⟨i, hi, rfl⟩ := List.mem_mapIdx.mp h
  rw [length_layout, map_shdrFields]
  decide

lemma length_phtab (file : File) : (phtab file).flatten.length = 32 * file.segments.length := by
  rw [length_flatten_of_forall fun _ => length_of_mem_phtab, phtab, List.length_map]

lemma length_shtab (file : File) : (shtab file).flatten.length = 40 * file.sections.length := by
  rw [length_flatten_of_forall fun _ => length_of_mem_shtab, shtab, List.length_mapIdx]

lemma length_before (file : File) :
    (layout (ehdrFields file) ++ (phtab file).flatten).length = dataOffset file := by
  rw [List.length_append, length_ehdr, length_phtab, dataOffset]

lemma bufOffset_eq (file : File) (first : ℕ) :
    bufOffset file first = (file.buffers.take first).flatten.length := by
  rw [bufOffset, List.length_flatten]

def tableOffset (file : File) : ℕ := dataOffset file + bufOffset file file.buffers.length

lemma length_Generate (file : File) :
    (Generate file).length = tableOffset file + 40 * file.sections.length := by
  rw [Generate_eq, List.length_append, List.length_append, length_before, length_shtab,
    tableOffset, bufOffset_eq, List.take_length]

lemma flatten_split {lists : List (List UInt8)} {n i : ℕ} {list : List UInt8}
    (h : ∀ list ∈ lists, list.length = n) (hi : lists[i]? = some list) :
    ∃ before after, lists.flatten = before ++ list ++ after ∧ before.length = n * i := by
  obtain ⟨hlt, rfl⟩ := List.getElem?_eq_some_iff.mp hi
  refine ⟨(lists.take i).flatten, (lists.drop (i + 1)).flatten, ?_, ?_⟩
  · conv_lhs => rw [← List.take_append_drop i lists, ← List.getElem_cons_drop hlt]
    rw [List.flatten_append, List.flatten_cons, List.append_assoc]
  · rw [length_flatten_of_forall fun list hlist => h list (List.mem_of_mem_take hlist),
      List.length_take_of_le hlt.le]

lemma content_at (file : File) {first last : ℕ} (hrange : first ≤ last + 1) :
    ∃ before after, Generate file = before ++ content file first last ++ after ∧
      before.length = dataOffset file + bufOffset file first := by
  have hbuffers : file.buffers.flatten = (file.buffers.take first).flatten ++
      content file first last ++ (file.buffers.drop (last + 1)).flatten := by
    have htake : (file.buffers.take (last + 1)).take first = file.buffers.take first := by
      rw [List.take_take, Nat.min_eq_left hrange]
    conv_lhs => rw [← List.take_append_drop (last + 1) file.buffers,
      ← List.take_append_drop first (file.buffers.take (last + 1)), htake]
    rw [List.flatten_append, List.flatten_append, content]
  refine ⟨layout (ehdrFields file) ++ (phtab file).flatten ++ (file.buffers.take first).flatten,
    (file.buffers.drop (last + 1)).flatten ++ (shtab file).flatten, ?_, ?_⟩
  · rw [Generate_eq, hbuffers]
    simp only [List.append_assoc]
  · rw [List.length_append, length_before, bufOffset_eq]

end Output

section Headers

structure Fits (file : File) : Prop where
  size : (Generate file).length < 2 ^ 32
  sections : file.sections.length < 2 ^ 16
  segments : file.segments.length < 2 ^ 16

lemma Fits.tableOffset_lt (h : Fits file) : tableOffset file < 2 ^ 32 := by
  have hsize := h.size
  rw [length_Generate] at hsize
  omega

lemma Fits.ehdr (h : Fits file) : ehdr (memory (Generate file)) = {
    e_class := 1
    e_phoff := if file.segments = [] then 0 else 52
    e_shoff := tableOffset file
    e_phentsize := if file.segments = [] then 0 else 32
    e_phnum := file.segments.length
    e_shentsize := 40
    e_shnum := file.sections.length
    e_shstrndx := 1 } := by
  have hbytes : Generate file = [] ++ layout (ehdrFields file) ++ ((phtab file).flatten ++
      file.buffers.flatten ++ (shtab file).flatten) := by
    rw [Generate_eq]
    simp only [List.nil_append, List.append_assoc]
  have hphoff : (if file.segments = [] then 0 else 52) < 256 ^ 4 := by
    split_ifs <;> decide
  have hphentsize : (if file.segments = [] then 0 else 32) < 256 ^ 2 := by
    split_ifs <;> decide
  have hread := number_layout hbytes (map_ehdrFields file)
  unfold ELFReader.ehdr
  rw [hread 20 28 rfl hphoff (by decide), hread 21 32 rfl h.tableOffset_lt (by decide),
    hread 24 42 rfl hphentsize (by decide), hread 25 44 rfl h.segments (by decide),
    hread 26 46 rfl (by decide) (by decide), hread 27 48 rfl h.sections (by decide),
    hread 28 50 rfl (by decide) (by decide)]
  rfl

lemma slice (file : File) (first last : ℕ) :
    ((Generate file).drop (dataOffset file + bufOffset file first)).take
        (content file first last).length = content file first last ∧
      dataOffset file + bufOffset file first + (content file first last).length ≤
        tableOffset file := by
  have hbuffers : (file.buffers.take first).flatten.length ≤ file.buffers.flatten.length := by
    conv_rhs => rw [← List.take_append_drop first file.buffers, List.flatten_append,
      List.length_append]
    exact Nat.le_add_right _ _
  by_cases hrange : first ≤ last + 1
  · obtain ⟨before, after, hout, hlength⟩ := content_at file hrange
    have htotal : (file.buffers.take first).flatten.length + (content file first last).length ≤
        file.buffers.flatten.length := by
      have hdrop : ((file.buffers.take (last + 1)).drop first).flatten.length ≤
          (file.buffers.drop first).flatten.length := by
        rw [List.drop_take]
        conv_rhs => rw [← List.take_append_drop (last + 1 - first) (file.buffers.drop first),
          List.flatten_append, List.length_append]
        exact Nat.le_add_right _ _
      conv_rhs => rw [← List.take_append_drop first file.buffers, List.flatten_append,
        List.length_append]
      exact Nat.add_le_add_left hdrop _
    constructor
    · rw [hout, List.append_assoc, List.drop_left' hlength, List.take_left' rfl]
    · rw [tableOffset, bufOffset_eq, bufOffset_eq, List.take_length]
      omega
  · have hnone : content file first last = [] := by
      rw [content, List.drop_eq_nil_of_le, List.flatten_nil]
      rw [List.length_take]
      omega
    rw [hnone]
    refine ⟨rfl, ?_⟩
    rw [tableOffset, bufOffset_eq, bufOffset_eq, List.take_length, List.length_nil]
    omega

def headerOf (file : File) (i : ℕ) (s : Section) : Elf32_Shdr where
  sh_name := s.sh_name
  sh_type := s.info.sh_type.toNat
  sh_offset := sectionOffset file i s
  sh_size := (content file s.first_buffer s.last_buffer).length
  sh_link := s.info.sh_link.toNat

lemma sectionOffset_le (file : File) (i : ℕ) (s : Section) :
    sectionOffset file i s + (content file s.first_buffer s.last_buffer).length ≤
      tableOffset file := by
  have hslice := (slice file s.first_buffer s.last_buffer).2
  unfold sectionOffset
  split_ifs <;> omega

lemma Built.sh_name_lt (h : Built file) (hfits : Fits file) {s : Section}
    (hs : s ∈ file.sections) : s.sh_name < 2 ^ 32 := by
  obtain ⟨names, hnames, hsections⟩ := h.names
  obtain ⟨before, after, rfl, hbefore⟩ := hsections s hs
  have hsize := hfits.tableOffset_lt
  have hle : (before ++ (s.name ++ 0 :: after)).length ≤ file.buffers.flatten.length :=
    (List.sublist_flatten_of_mem (List.mem_of_getElem? hnames)).length_le
  rw [List.length_append, hbefore] at hle
  rw [tableOffset, bufOffset_eq, List.take_length] at hsize
  omega

lemma Built.shdr (h : Built file) (hfits : Fits file) {i : ℕ} {s : Section}
    (hs : file.sections[i]? = some s) :
    shdr (memory (Generate file)) (tableOffset file + i * 40) = headerOf file i s := by
  have hrow : (shtab file)[i]? = some (layout (shdrFields file i s)) := by
    rw [shtab, List.getElem?_mapIdx, hs]
    rfl
  obtain ⟨before, after, htable, hbefore⟩ :=
    flatten_split (fun _ => length_of_mem_shtab) hrow
  have hbytes : Generate file = (layout (ehdrFields file) ++ (phtab file).flatten ++
      file.buffers.flatten ++ before) ++ layout (shdrFields file i s) ++ after := by
    rw [Generate_eq, htable]
    simp only [List.append_assoc]
  have hpre : (layout (ehdrFields file) ++ (phtab file).flatten ++ file.buffers.flatten ++
      before).length = tableOffset file + i * 40 := by
    rw [List.length_append, List.length_append, length_before, hbefore, tableOffset, bufOffset_eq,
      List.take_length, Nat.mul_comm]
  have hname := h.sh_name_lt hfits (List.mem_of_getElem? hs)
  have hsize := hfits.tableOffset_lt
  have hoffset := sectionOffset_le file i s
  have hread := number_layout hbytes (map_shdrFields file i s)
  rw [hpre] at hread
  generalize tableOffset file + i * 40 = pos at hread ⊢
  unfold ELFReader.shdr headerOf
  rw [hread 0 pos rfl hname rfl, hread 1 (pos + 4) rfl s.info.sh_type.toNat_lt rfl,
    hread 4 (pos + 16) rfl (show sectionOffset file i s < 256 ^ 4 by omega) rfl,
    hread 5 (pos + 20) rfl
      (show (content file s.first_buffer s.last_buffer).length < 256 ^ 4 by omega) rfl,
    hread 6 (pos + 24) rfl s.info.sh_link.toNat_lt rfl]

lemma Fits.phdr (h : Fits file) {i : ℕ} {s : Segment} (hs : file.segments[i]? = some s) :
    phdr (memory (Generate file)) (52 + i * 32) = {
      p_offset := dataOffset file + bufOffset file s.first_buffer
      p_filesz := (content file s.first_buffer s.last_buffer).length } := by
  have hrow : (phtab file)[i]? = some (layout (phdrFields file s)) := by
    rw [phtab, List.getElem?_map, hs]
    rfl
  obtain ⟨before, after, htable, hbefore⟩ :=
    flatten_split (fun _ => length_of_mem_phtab) hrow
  have hbytes : Generate file = (layout (ehdrFields file) ++ before) ++
      layout (phdrFields file s) ++ (after ++ file.buffers.flatten ++ (shtab file).flatten) := by
    rw [Generate_eq, htable]
    simp only [List.append_assoc]
  have hpre : (layout (ehdrFields file) ++ before).length = 52 + i * 32 := by
    rw [List.length_append, length_ehdr, hbefore, Nat.mul_comm]
  have hsize := h.tableOffset_lt
  have hslice := (slice file s.first_buffer s.last_buffer).2
  have hread := number_layout hbytes (map_phdrFields file s)
  rw [hpre] at hread
  generalize 52 + i * 32 = pos at hread ⊢
  unfold ELFReader.phdr
  rw [hread 1 (pos + 4) rfl
      (show dataOffset file + bufOffset file s.first_buffer < 256 ^ 4 by omega) rfl,
    hread 4 (pos + 16) rfl
      (show (content file s.first_buffer s.last_buffer).length < 256 ^ 4 by omega) rfl]

end Headers

section Acceptance

def nameAt (bytes : List UInt8) (name : ℕ) : List UInt8 := (bytes.drop name).takeWhile (· ≠ 0)

def contentAt (bytes : List UInt8) (buffer : Pointer) (size : ℕ) : Option (List UInt8) :=
  match buffer with
  | .file offset => some ((bytes.drop offset).take size)
  | .null _ => none

structure Agrees (file : File) (read : ELFReader.File) : Prop where
  sections : List.Forall₂ (fun (s : Section) (r : ELFReader.Section) =>
    nameAt (Generate file) r.name = s.name ∧ r.info.sh_type = s.info.sh_type.toNat ∧
      contentAt (Generate file) r.buffer r.info.sh_size =
        some (content file s.first_buffer s.last_buffer)) file.sections read.sections
  segments : List.Forall₂ (fun (s : Segment) (p : ProgramHeader) =>
    contentAt (Generate file) p.buffer p.info.p_filesz =
      some (content file s.first_buffer s.last_buffer)) file.segments read.program_headers

/-- Names without zeros, sections with content, and symbols with names in their string tables -/
structure Plain (file : File) : Prop where
  names : ∀ s ∈ file.sections, 0 ∉ s.name
  types : ∀ s ∈ file.sections, s.info.sh_type ≠ 8
  symbols : ∀ s ∈ file.sections, s.info.sh_type = 2 ∨ s.info.sh_type = 11 →
    ∀ i < (content file s.first_buffer s.last_buffer).length / 16,
      ∃ names ∈ file.sections[s.info.sh_link.toNat]?,
        leNat (((content file s.first_buffer s.last_buffer).drop (i * 16)).take 4) <
          (content file names.first_buffer names.last_buffer).length

variable {read : ELFReader.File}

lemma collect_ok {α : Type} {make : ℕ → Except Failure α} {is : List ℕ} {xs : List α}
    (h : List.Forall₂ (fun i x => make i = .ok x) is xs) : collect make is = .ok xs := by
  induction h with
  | nil => rfl
  | cons hx _ ih =>
    rw [collect, hx, ih]
    rfl

lemma collect_range {α : Type} {make : ℕ → Except Failure α} {xs : List α}
    (h : ∀ i x, xs[i]? = some x → make i = .ok x) :
    collect make (List.range xs.length) = .ok xs := by
  apply collect_ok
  rw [List.forall₂_iff_get]
  refine ⟨List.length_range, ?_⟩
  intro i hi hi'
  rw [List.get_eq_getElem, List.getElem_range]
  exact h i _ (List.getElem?_eq_getElem hi')

def readSections (file : File) : List ELFReader.Section :=
  file.sections.mapIdx fun i s => {
    info := headerOf file i s
    buffer := .file (sectionOffset file i s) }

def readHeaders (file : File) : List ProgramHeader :=
  file.segments.map fun s => {
    info := {
      p_offset := dataOffset file + bufOffset file s.first_buffer
      p_filesz := (content file s.first_buffer s.last_buffer).length }
    buffer := .file (dataOffset file + bufOffset file s.first_buffer) }

lemma Built.newSection_ok (h : Built file) (hfits : Fits file) (hplain : Plain file) {i : ℕ}
    {s : Section} (hs : file.sections[i]? = some s) :
    ELFReader.newSection (memory (Generate file)) (Generate file).length
      (ELFReader.sectionOffset (memory (Generate file)) i) = .ok {
        info := headerOf file i s
        buffer := .file (sectionOffset file i s) } := by
  have hi : i < file.sections.length := (List.getElem?_eq_some_iff.mp hs).1
  have hlength := length_Generate file
  have hsize := hfits.size
  have hpos : ELFReader.sectionOffset (memory (Generate file)) i = tableOffset file + i * 40 := by
    unfold ELFReader.sectionOffset
    rw [hfits.ehdr]
    exact Nat.mod_eq_of_lt (by simp only; omega)
  have htype : (headerOf file i s).sh_type ≠ 8 := by
    intro heq
    exact hplain.types s (List.mem_of_getElem? hs) (UInt32.toNat_inj.mp heq)
  have hrange := sectionOffset_le file i s
  have hmod : (sectionOffset file i s + (content file s.first_buffer s.last_buffer).length) %
      2 ^ 32 = sectionOffset file i s + (content file s.first_buffer s.last_buffer).length :=
    Nat.mod_eq_of_lt (by omega)
  unfold ELFReader.newSection
  rw [hpos, h.shdr hfits hs]
  dsimp only
  rw [if_neg (by omega), if_pos htype, if_neg]
  · rfl
  · rw [show (headerOf file i s).sh_offset + (headerOf file i s).sh_size = sectionOffset file i s +
      (content file s.first_buffer s.last_buffer).length from rfl, hmod]
    omega

lemma Fits.newProgramHeader_ok (h : Fits file) {i : ℕ} {s : Segment}
    (hs : file.segments[i]? = some s) :
    newProgramHeader (memory (Generate file)) (Generate file).length
      (programHeaderOffset (memory (Generate file)) i) = .ok {
        info := {
          p_offset := dataOffset file + bufOffset file s.first_buffer
          p_filesz := (content file s.first_buffer s.last_buffer).length }
        buffer := .file (dataOffset file + bufOffset file s.first_buffer) } := by
  have hi : i < file.segments.length := (List.getElem?_eq_some_iff.mp hs).1
  have hne : file.segments ≠ [] := List.ne_nil_of_length_pos (by omega)
  have hlength := length_Generate file
  have htable : dataOffset file ≤ tableOffset file := Nat.le_add_right _ _
  have hsize := h.size
  have hdata : dataOffset file = 52 + 32 * file.segments.length := rfl
  have hpos : programHeaderOffset (memory (Generate file)) i = 52 + i * 32 := by
    unfold programHeaderOffset
    rw [h.ehdr]
    simp only [if_neg hne]
    exact Nat.mod_eq_of_lt (by omega)
  unfold newProgramHeader
  rw [hpos, h.phdr hs]
  dsimp only
  rw [if_neg (by omega)]

lemma Fits.readHeader (h : Fits file) :
    ReadHeader (memory (Generate file)) (Generate file).length = .ok () := by
  have hlength := length_Generate file
  have htable : dataOffset file ≤ tableOffset file := Nat.le_add_right _ _
  have hdata : dataOffset file = 52 + 32 * file.segments.length := rfl
  unfold ReadHeader
  rw [if_neg (by omega), h.ehdr, if_neg, if_neg (show ¬ (1 : UInt8) = 2 by decide)]
  rw [not_not]
  rfl

lemma getElem?_readSections (file : File) (i : ℕ) : (readSections file)[i]? =
    file.sections[i]?.map fun s => {
      info := headerOf file i s
      buffer := .file (sectionOffset file i s) } := List.getElem?_mapIdx

lemma Built.content_names (h : Built file) {names : List UInt8}
    (hnames : file.buffers[1]? = some names) : bufOffset file 1 = 0 ∧ content file 1 1 = names := by
  have hnull := h.null
  obtain ⟨first, second, rest, hbuffers⟩ : ∃ first second rest,
      file.buffers = first :: second :: rest := by
    cases hlist : file.buffers with
    | nil =>
      rw [hlist] at hnull
      cases hnull
    | cons first rest =>
      cases rest with
      | nil =>
        rw [hlist] at hnames
        cases hnames
      | cons second rest => exact ⟨first, second, rest, rfl⟩
  rw [hbuffers] at hnull hnames
  obtain rfl := Option.some.inj hnull
  obtain rfl := Option.some.inj hnames
  rw [bufOffset, content, hbuffers]
  simp

lemma Built.nameAt (h : Built file) (hplain : Plain file) {s : Section}
    (hs : s ∈ file.sections) :
    ELFWriter.nameAt (Generate file) (dataOffset file + s.sh_name) = s.name := by
  obtain ⟨names, hnames, hsections⟩ := h.names
  obtain ⟨hoffset, hcontent⟩ := h.content_names hnames
  obtain ⟨start, finish, rfl, hstart⟩ := hsections s hs
  obtain ⟨before, after, hout, hbefore⟩ := content_at file (show 1 ≤ 1 + 1 by decide)
  rw [hcontent] at hout
  rw [hoffset, Nat.add_zero] at hbefore
  have hsplit : Generate file = (before ++ start) ++ (s.name ++ 0 :: (finish ++ after)) := by
    rw [hout]
    simp only [List.append_assoc, List.cons_append]
  have hlength : (before ++ start).length = dataOffset file + s.sh_name := by
    rw [List.length_append, hbefore, hstart]
  have hchars : ∀ c ∈ s.name, (c ≠ 0 : Bool) = true := by
    intro c hc
    have : c ≠ 0 := ne_of_mem_of_not_mem hc (hplain.names s hs)
    simpa using this
  rw [ELFWriter.nameAt, hsplit, List.drop_left' hlength, List.takeWhile_append_of_pos hchars,
    List.takeWhile_cons_of_neg (by decide), List.append_nil]

lemma Built.contentAt (h : Built file) {i : ℕ} {s : Section} (hs : file.sections[i]? = some s) :
    ((Generate file).drop (sectionOffset file i s)).take
      (content file s.first_buffer s.last_buffer).length =
        content file s.first_buffer s.last_buffer := by
  unfold sectionOffset
  split_ifs with hzero
  · subst hzero
    have hnone : content file s.first_buffer s.last_buffer = [] := by
      obtain rfl : (⟨[], 0, {}, 0, 0⟩ : Section) = s :=
        Option.some.inj (h.first.symm.trans hs)
      have hnull := h.null
      cases hbuffers : file.buffers with
      | nil => rw [content, hbuffers]; rfl
      | cons first rest =>
        rw [hbuffers] at hnull
        obtain rfl := Option.some.inj hnull
        rw [content, hbuffers]
        rfl
    rw [hnone]
    rfl
  · exact (slice file s.first_buffer s.last_buffer).1

lemma number_content (bytes : List UInt8) (offset : ℕ) {n pos : ℕ} (hpos : pos + 4 ≤ n)
    (hn : ((bytes.drop offset).take n).length = n) : number (memory bytes) 4 (offset + pos) =
      leNat ((((bytes.drop offset).take n).drop pos).take 4) := by
  have hlen : offset + n ≤ bytes.length ∨ n = 0 := by
    rw [List.length_take, List.length_drop] at hn
    omega
  have hmid : (((bytes.drop offset).take n).drop pos).take 4 = (bytes.drop (offset + pos)).take 4 := by
    rw [List.drop_take, List.take_take, List.drop_drop, Nat.min_eq_left (by omega)]
  have hsplit : bytes = bytes.take (offset + pos) ++ (bytes.drop (offset + pos)).take 4 ++
      (bytes.drop (offset + pos)).drop 4 := by
    rw [List.append_assoc, List.take_append_drop, List.take_append_drop]
  have hfour : ((bytes.drop (offset + pos)).take 4).length = 4 := by
    rw [List.length_take, List.length_drop]
    omega
  have hnumber := number_append (bytes.take (offset + pos)) ((bytes.drop (offset + pos)).take 4)
    ((bytes.drop (offset + pos)).drop 4)
  rw [← hsplit, hfour, List.length_take_of_le (by omega)] at hnumber
  rw [hmid, hnumber]

def namedSections (file : File) : List ELFReader.Section :=
  setNames (dataOffset file) (readSections file)

lemma getElem?_namedSections (file : File) (i : ℕ) : (namedSections file)[i]? =
    file.sections[i]?.map fun s => {
      info := headerOf file i s
      buffer := .file (sectionOffset file i s)
      name := dataOffset file + s.sh_name } := by
  rw [namedSections, setNames, List.getElem?_map, getElem?_readSections, Option.map_map]
  rfl

lemma exists_collect {α : Type} {make : ℕ → Except Failure α} {is : List ℕ}
    (h : ∀ i ∈ is, ∃ x, make i = .ok x) : ∃ xs, collect make is = .ok xs := by
  induction is with
  | nil => exact ⟨[], rfl⟩
  | cons i is ih =>
    obtain ⟨x, hx⟩ := h i List.mem_cons_self
    obtain ⟨xs, hxs⟩ := ih fun j hj => h j (List.mem_cons_of_mem i hj)
    refine ⟨x :: xs, ?_⟩
    rw [collect, hx, hxs]
    rfl

lemma exists_readTables {mem : ℕ → UInt8} {sections tables : List ELFReader.Section}
    (h : ∀ table ∈ tables, ∃ symbols, readTable mem sections table = .ok symbols) :
    ∃ symbols, readTables mem sections tables = .ok symbols := by
  induction tables with
  | nil => exact ⟨[], rfl⟩
  | cons table tables ih =>
    obtain ⟨symbols, hsymbols⟩ := h table List.mem_cons_self
    obtain ⟨rest, hrest⟩ := ih fun t ht => h t (List.mem_cons_of_mem table ht)
    refine ⟨symbols ++ rest, ?_⟩
    rw [readTables, hsymbols, hrest]
    rfl

/-- The symbols of a table are read. -/
lemma Built.exists_readTable (h : Built file) (hplain : Plain file)
    {table : ELFReader.Section} (htable : table ∈ namedSections file) :
    ∃ symbols, readTable (memory (Generate file)) (namedSections file) table = .ok symbols := by
  obtain ⟨i, hi⟩ := List.mem_iff_getElem?.mp htable
  rw [getElem?_namedSections] at hi
  obtain ⟨s, hs, rfl⟩ := Option.map_eq_some_iff.mp hi
  unfold readTable
  by_cases htype : s.info.sh_type.toNat = 2 ∨ s.info.sh_type.toNat = 11
  · have htype' : s.info.sh_type = 2 ∨ s.info.sh_type = 11 :=
      htype.imp UInt32.toNat_inj.mp UInt32.toNat_inj.mp
    rw [if_pos (show (headerOf file i s).sh_type = 2 ∨ (headerOf file i s).sh_type = 11 from htype)]
    obtain ⟨symbols, hsymbols⟩ : ∃ symbols, collect (fun k => newSymbol (memory (Generate file))
        (namedSections file) {
          info := headerOf file i s
          buffer := .file (sectionOffset file i s)
          name := dataOffset file + s.sh_name } (k * 16))
        (List.range ((headerOf file i s).sh_size / 16)) = .ok symbols := by
      apply exists_collect
      intro k hk
      have hlt : k < (content file s.first_buffer s.last_buffer).length / 16 :=
        List.mem_range.mp hk
      obtain ⟨names, hnames, hname⟩ :=
        hplain.symbols s (List.mem_of_getElem? hs) htype' k hlt
      have hlink : (namedSections file)[(headerOf file i s).sh_link]? = some {
          info := headerOf file s.info.sh_link.toNat names
          buffer := .file (sectionOffset file s.info.sh_link.toNat names)
          name := dataOffset file + names.sh_name } := by
        rw [getElem?_namedSections]
        exact congrArg (Option.map _) hnames
      have hcontent := h.contentAt hs
      have hnumber := number_content (Generate file) (sectionOffset file i s)
        (show k * 16 + 4 ≤ (content file s.first_buffer s.last_buffer).length by omega)
        (congrArg List.length hcontent)
      rw [hcontent] at hnumber
      have hsize : ¬ (headerOf file i s).sh_size < k * 16 + 16 := by
        show ¬ (content file s.first_buffer s.last_buffer).length < k * 16 + 16
        omega
      have hfits : ¬ (headerOf file s.info.sh_link.toNat names).sh_size ≤
          (sym (memory (Generate file)) (sectionOffset file i s + k * 16)).st_name := by
        show ¬ (content file names.first_buffer names.last_buffer).length ≤
          number (memory (Generate file)) 4 (sectionOffset file i s + k * 16)
        rw [hnumber]
        exact not_le.mpr hname
      unfold newSymbol
      simp only [if_neg hsize, hlink, if_neg hfits]
      exact ⟨_, rfl⟩
    rw [hsymbols]
    exact ⟨_, rfl⟩
  · rw [if_neg (show ¬ ((headerOf file i s).sh_type = 2 ∨ (headerOf file i s).sh_type = 11) from
      htype)]
    exact ⟨[], rfl⟩

lemma Built.readSections_ok (h : Built file) (hfits : Fits file) (hplain : Plain file) :
    ∃ table, ReadSections (memory (Generate file)) { size := (Generate file).length } = .ok {
      size := (Generate file).length
      sections := namedSections file
      string_table := some table } := by
  have hcollect : collect (fun i => ELFReader.newSection (memory (Generate file))
      (Generate file).length (ELFReader.sectionOffset (memory (Generate file)) i))
      (List.range file.sections.length) = .ok (readSections file) := by
    have hlength : (readSections file).length = file.sections.length := List.length_mapIdx
    rw [← hlength]
    apply collect_range
    intro i r hr
    rw [getElem?_readSections] at hr
    obtain ⟨s, hs, rfl⟩ := Option.map_eq_some_iff.mp hr
    exact h.newSection_ok hfits hplain hs
  have hsecond := h.second
  have htable : (readSections file)[1]? = some {
      info := headerOf file 1 ⟨shstrtab, 1, { sh_type := 3 }, 1, 1⟩
      buffer := .file (dataOffset file) } := by
    obtain ⟨names, hnames, -⟩ := h.names
    have hoffset := (h.content_names hnames).1
    rw [getElem?_readSections, hsecond]
    simp only [newFile, List.getElem?_cons_succ, List.getElem?_cons_zero, Option.map_some,
      sectionOffset, if_neg (show ¬ (1 : ℕ) = 0 by decide), hoffset, Nat.add_zero]
  have hne : file.sections.length ≠ 0 := by
    have := (List.getElem?_eq_some_iff.mp (hsecond.trans rfl)).1
    omega
  unfold ReadSections
  rw [hfits.ehdr]
  simp only [hne, ne_eq, not_true_eq_false, or_self, if_false, hcollect, bind, Except.bind, htable]
  exact ⟨_, rfl⟩

lemma Fits.readProgramHeaders_ok (h : Fits file) (read : ELFReader.File)
    (hsize : read.size = (Generate file).length) (hnone : read.program_headers = []) :
    ReadProgramHeaders (memory (Generate file)) read =
      .ok { read with program_headers := readHeaders file } := by
  have hcollect : collect (fun i => newProgramHeader (memory (Generate file))
      (Generate file).length (programHeaderOffset (memory (Generate file)) i))
      (List.range file.segments.length) = .ok (readHeaders file) := by
    have hlength : (readHeaders file).length = file.segments.length := List.length_map _
    rw [← hlength]
    apply collect_range
    intro i p hp
    rw [readHeaders, List.getElem?_map] at hp
    obtain ⟨s, hs, rfl⟩ := Option.map_eq_some_iff.mp hp
    exact h.newProgramHeader_ok hs
  unfold ReadProgramHeaders
  rw [h.ehdr, hsize]
  by_cases hsegments : file.segments = []
  · have hempty : readHeaders file = [] := by rw [readHeaders, hsegments, List.map_nil]
    simp only [hsegments, List.length_nil, if_true]
    rw [hempty, ← hnone, ← hsize]
  · have hne : file.segments.length ≠ 0 := fun heq => hsegments (List.length_eq_zero_iff.mp heq)
    simp only [hne, hsegments, if_false, ne_eq, not_true_eq_false, hcollect]
    rfl

lemma Built.agrees (h : Built file) (hplain : Plain file) {read : ELFReader.File}
    (hsections : read.sections = namedSections file)
    (hheaders : read.program_headers = readHeaders file) : Agrees file read := by
  constructor
  · rw [hsections, List.forall₂_iff_get]
    have hlength : (namedSections file).length = file.sections.length := by
      rw [namedSections, setNames, List.length_map, readSections, List.length_mapIdx]
    refine ⟨hlength.symm, ?_⟩
    intro i hi hi'
    rw [List.get_eq_getElem, List.get_eq_getElem]
    have hs := List.getElem?_eq_getElem hi
    have hr := getElem?_namedSections file i
    rw [hs, List.getElem?_eq_getElem hi', Option.map_some] at hr
    rw [Option.some.inj hr]
    refine ⟨h.nameAt hplain (List.getElem_mem hi), rfl, ?_⟩
    exact congrArg some (h.contentAt hs)
  · rw [hheaders, readHeaders, List.forall₂_map_right_iff, List.forall₂_same]
    intro s _
    exact congrArg some (slice file s.first_buffer s.last_buffer).1

end Acceptance

section Examples

/-- Two sections and a segment over some of the same buffers; the second section is a symbol table
with one symbol. -/
def shared : List Op :=
  [.newBuffer, .newBuffer, .newBuffer, .write 2 [1, 2, 3], .newSection [46, 97] 2 3,
    .newSection [98] 4 4, .newSegment 2 4, .write 4 (leBytes 4 1 ++ List.replicate 12 0),
    .setSection 2 { sh_type := 1 }, .setSection 3 { sh_type := 2, sh_link := 1 }]

def sharedFile : File := (run perform shared newFile).getD newFile

/-- A section of one byte with a name and a type -/
def oneSection (name : List UInt8) (sh_type : UInt32) : List Op :=
  [.newBuffer, .write 2 [7], .newSection name 2 2, .setSection 2 { sh_type := sh_type }]

def thirdSection (file : File) : Option (List UInt8 × Option (List UInt8)) :=
  match ELFReader.newFile (memory (Generate file)) (Generate file).length true with
  | .ok read => read.sections[2]?.map fun r => (nameAt (Generate file) r.name,
      contentAt (Generate file) r.buffer r.info.sh_size)
  | .error _ => none

lemma Agrees.thirdSection {read : ELFReader.File} (h : Agrees file read)
    (hread : ELFReader.newFile (memory (Generate file)) (Generate file).length true = .ok read) :
    ELFWriter.thirdSection file = file.sections[2]?.map fun s =>
      (s.name, some (content file s.first_buffer s.last_buffer)) := by
  unfold ELFWriter.thirdSection
  rw [hread]
  have hsections := h.sections
  have hlength := hsections.length_eq
  by_cases hlt : 2 < file.sections.length
  · have hat := hsections.get hlt (hlength ▸ hlt)
    simp only [List.get_eq_getElem] at hat
    simp only [List.getElem?_eq_getElem hlt, List.getElem?_eq_getElem (hlength ▸ hlt),
      Option.map_some, hat.1, hat.2.2]
  · simp only [List.getElem?_eq_none (not_lt.mp hlt),
      List.getElem?_eq_none (hlength ▸ not_lt.mp hlt), Option.map_none]

end Examples

end OISA.Cpp.ELFWriter
