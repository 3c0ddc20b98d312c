import OISA.Cpp.ELFReader

/-!
# What an accepted ELF file may refer to

The sum of the offset and the size of a section wraps before it is compared with the size of the
file, the ranges of segments and the ends of names are not checked, and a symbol of a section
without content gets a pointer computed from a null pointer.
-/

namespace OISA.Cpp.ELFReader

open OISA.Lib

variable {mem : ℕ → UInt8} {size : ℕ} {file : File}

section Ranges

def InFile (size : ℕ) (buffer : Pointer) (n : ℕ) : Prop :=
  ∃ offset, buffer = .file offset ∧ offset + n ≤ size

def Terminated (mem : ℕ → UInt8) (table : Section) (name : ℕ) : Prop :=
  ∃ start first last, table.buffer = .file start ∧ name = start + first ∧ first ≤ last ∧
    last < table.info.sh_size ∧ mem (start + last) = 0

/-- Contents and names lie inside the file and their tables. -/
structure Inside (mem : ℕ → UInt8) (file : File) : Prop where
  sections : ∀ s ∈ file.sections, s.info.sh_type ≠ 8 → InFile file.size s.buffer s.info.sh_size
  segments : ∀ p ∈ file.program_headers, InFile file.size p.buffer p.info.p_filesz
  symbols : ∀ s ∈ file.symbols, s.buffer ≠ .null 0 → InFile file.size s.buffer s.info.st_size
  sectionNames : ∀ s ∈ file.sections, ∃ table ∈ file.string_table, Terminated mem table s.name
  symbolNames : ∀ s ∈ file.symbols, Terminated mem s.name_section s.name

end Ranges

section Conditions

variable (mem)

def sectionHeaders : List Elf32_Shdr :=
  (List.range (ehdr mem).e_shnum).map fun i => shdr mem (sectionOffset mem i)

def programHeaders : List Elf32_Phdr :=
  (List.range (ehdr mem).e_phnum).map fun i => phdr mem (programHeaderOffset mem i)

def lastZero (start : ℕ) : ℕ → Option ℕ
  | 0 => none
  | n + 1 => if mem (start + n) = 0 then some n else lastZero start n

@[reducible] def NameFits (table : Elf32_Shdr) (name : ℕ) : Prop :=
  ∃ last ∈ lastZero mem table.sh_offset table.sh_size, name ≤ last

/-- If the wrapped range of a symbol fits into its section, it does not wrap, or it starts at 0 in
a section without content. -/
@[reducible] def ContentFits (info : Elf32_Sym) : Prop :=
  ∀ target ∈ (sectionHeaders mem)[info.st_shndx]?,
    (info.st_value + info.st_size) % 2 ^ 32 ≤ target.sh_size →
      if target.sh_type = 8 then info.st_value = 0 else info.st_value + info.st_size < 2 ^ 32

/-- The headers do not wrap and do not refer to what is not there. -/
structure Clean (size : ℕ) : Prop where
  sections : ∀ info ∈ sectionHeaders mem, info.sh_type ≠ 8 → info.sh_offset + info.sh_size < 2 ^ 32
  segments : ∀ info ∈ programHeaders mem, info.p_offset + info.p_filesz ≤ size
  sectionNames : ∀ info ∈ sectionHeaders mem,
    ∀ table ∈ (sectionHeaders mem)[(ehdr mem).e_shstrndx]?, NameFits mem table info.sh_name
  symbols : ∀ table ∈ sectionHeaders mem, table.sh_type = 2 ∨ table.sh_type = 11 →
    ∀ i < table.sh_size / 16, ∀ names ∈ (sectionHeaders mem)[table.sh_link]?,
      mem (names.sh_offset + (sym mem (table.sh_offset + i * 16)).st_name) ≠ 0 →
        NameFits mem names (sym mem (table.sh_offset + i * 16)).st_name ∧
          ContentFits mem (sym mem (table.sh_offset + i * 16))

lemma nameFits_iff (table : Elf32_Shdr) (name : ℕ) : NameFits mem table name ↔
    ∃ last, name ≤ last ∧ last < table.sh_size ∧ mem (table.sh_offset + last) = 0 := by
  unfold NameFits
  induction table.sh_size with
  | zero => simp [lastZero]
  | succ n ih =>
    rw [lastZero]
    by_cases hzero : mem (table.sh_offset + n) = 0
    · rw [if_pos hzero]
      constructor
      · rintro ⟨last, hlast, hle⟩
        obtain rfl := Option.some.inj hlast
        exact ⟨n, hle, Nat.lt_succ_self n, hzero⟩
      · rintro ⟨last, hle, hlt, -⟩
        exact ⟨n, rfl, by omega⟩
    · rw [if_neg hzero, ih]
      constructor
      · rintro ⟨last, hle, hlt, hlast⟩
        exact ⟨last, hle, by omega, hlast⟩
      · rintro ⟨last, hle, hlt, hlast⟩
        have hne : last ≠ n := fun heq => hzero (heq ▸ hlast)
        exact ⟨last, hle, by omega, hlast⟩

end Conditions

section Reading

variable {α : Type} {make : ℕ → Except Failure α} {is : List ℕ} {xs : List α}

lemma bind_eq_ok {α β : Type} {x : Except Failure α} {f : α → Except Failure β} {b : β} :
    x.bind f = .ok b ↔ ∃ a, x = .ok a ∧ f a = .ok b := by
  cases x with
  | error e => simp [Except.bind]
  | ok a => simp [Except.bind]

lemma collect_cons {i : ℕ} (h : collect make (i :: is) = .ok xs) :
    ∃ x rest, xs = x :: rest ∧ make i = .ok x ∧ collect make is = .ok rest := by
  obtain ⟨x, hx, h⟩ := bind_eq_ok.mp h
  obtain ⟨rest, hrest, h⟩ := bind_eq_ok.mp h
  cases h
  exact ⟨x, rest, rfl, hx, hrest⟩

lemma collect_spec (h : collect make is = .ok xs) :
    (∀ x, x ∈ xs ↔ ∃ i ∈ is, make i = .ok x) ∧ ∀ i ∈ is, ∃ x, make i = .ok x := by
  induction is generalizing xs with
  | nil =>
    cases h
    simp
  | cons i is ih =>
    obtain ⟨x, rest, rfl, hx, hrest⟩ := collect_cons h
    obtain ⟨hmem, hall⟩ := ih hrest
    constructor
    · intro y
      rw [List.mem_cons, hmem]
      constructor
      · rintro (rfl | ⟨j, hj, hy⟩)
        · exact ⟨i, List.mem_cons_self, hx⟩
        · exact ⟨j, List.mem_cons_of_mem i hj, hy⟩
      · rintro ⟨j, hj, hy⟩
        cases List.mem_cons.mp hj with
        | inl heq =>
          rw [heq, hx] at hy
          exact Or.inl (Except.ok.inj hy).symm
        | inr hj => exact Or.inr ⟨j, hj, hy⟩
    · intro j hj
      cases List.mem_cons.mp hj with
      | inl heq => exact heq ▸ ⟨x, hx⟩
      | inr hj => exact hall j hj

lemma collect_map {β : Type} {g : α → β} {e : ℕ → β} (hmake : ∀ i x, make i = .ok x → g x = e i)
    (h : collect make is = .ok xs) : xs.map g = is.map e := by
  induction is generalizing xs with
  | nil =>
    cases h
    rfl
  | cons i is ih =>
    obtain ⟨x, rest, rfl, hx, hrest⟩ := collect_cons h
    rw [List.map_cons, List.map_cons, hmake i x hx, ih hrest]

def bufferOf (info : Elf32_Shdr) : Pointer :=
  if info.sh_type ≠ 8 then .file info.sh_offset else .null 0

structure Checked (size : ℕ) (s : Section) : Prop where
  buffer : s.buffer = bufferOf s.info
  range : s.info.sh_type ≠ 8 → (s.info.sh_offset + s.info.sh_size) % 2 ^ 32 ≤ size

lemma newSection_ok {pos : ℕ} {s : Section} (h : newSection mem size pos = .ok s) :
    s.info = shdr mem pos ∧ Checked size s := by
  unfold newSection at h
  dsimp only at h
  split_ifs at h with hpos htype hrange <;> cases h
  · exact ⟨rfl, (if_pos htype).symm, fun _ => not_lt.mp hrange⟩
  · exact ⟨rfl, (if_neg htype).symm, fun hne => absurd hne htype⟩

lemma newProgramHeader_ok {pos : ℕ} {p : ProgramHeader}
    (h : newProgramHeader mem size pos = .ok p) :
    p.info = phdr mem pos ∧ p.buffer = .file p.info.p_offset := by
  unfold newProgramHeader at h
  dsimp only at h
  split_ifs at h
  cases h
  exact ⟨rfl, rfl⟩

lemma newSymbol_ok {sections : List Section} {table : Section} {pos : ℕ} {s : Symbol}
    (h : newSymbol mem sections table pos = .ok s) : ∃ start base,
      table.buffer = .file start ∧ s.info = sym mem (start + pos) ∧
        sections[table.info.sh_link]? = some s.name_section ∧ s.name_section.buffer = .file base ∧
        s.name = base + s.info.st_name ∧ s.buffer = symbolBuffer sections s.info := by
  unfold newSymbol at h
  cases htable : table.buffer with
  | null offset =>
    simp only [htable] at h
    cases h
  | file start =>
    simp only [htable] at h
    split_ifs at h
    cases hlink : sections[table.info.sh_link]? with
    | none =>
      simp only [hlink] at h
      cases h
    | some names =>
      simp only [hlink] at h
      split_ifs at h
      cases hbuffer : names.buffer with
      | null offset =>
        simp only [hbuffer] at h
        cases h
      | file base =>
        simp only [hbuffer] at h
        cases h
        exact ⟨start, base, rfl, rfl, rfl, hbuffer, rfl, rfl⟩

end Reading

section Files

structure HasSections (mem : ℕ → UInt8) (file : File) : Prop where
  headers : file.sections.map (·.info) = sectionHeaders mem
  checked : ∀ s ∈ file.sections, Checked file.size s
  table : ∃ table ∈ file.string_table,
    (sectionHeaders mem)[(ehdr mem).e_shstrndx]? = some table.info ∧
      table.buffer = .file table.info.sh_offset ∧
      ∀ s ∈ file.sections, s.name = table.info.sh_offset + s.info.sh_name

structure HasSegments (mem : ℕ → UInt8) (file : File) : Prop where
  headers : file.program_headers.map (·.info) = programHeaders mem
  buffer : ∀ p ∈ file.program_headers, p.buffer = .file p.info.p_offset

structure HasSymbols (mem : ℕ → UInt8) (file : File) : Prop where
  symbols : ∀ s, s ∈ file.symbols ↔ ∃ table ∈ file.sections,
    (table.info.sh_type = 2 ∨ table.info.sh_type = 11) ∧ ∃ i < table.info.sh_size / 16,
      newSymbol mem file.sections table (i * 16) = .ok s ∧ mem s.name ≠ 0
  made : ∀ table ∈ file.sections, table.info.sh_type = 2 ∨ table.info.sh_type = 11 →
    ∀ i < table.info.sh_size / 16, ∃ s, newSymbol mem file.sections table (i * 16) = .ok s

lemma ReadSections_ok {file' : File} (h : ReadSections mem file = .ok file') :
    HasSections mem file' ∧ file'.size = file.size := by
  unfold ReadSections at h
  dsimp only at h
  split_ifs at h
  obtain ⟨sections, hcollect, h⟩ := bind_eq_ok.mp h
  have hheaders : sections.map (·.info) = sectionHeaders mem :=
    collect_map (fun i s hs => (newSection_ok hs).1) hcollect
  have hchecked : ∀ s ∈ sections, Checked file.size s := by
    intro s hs
    obtain ⟨i, -, hs⟩ := ((collect_spec hcollect).1 s).mp hs
    exact (newSection_ok hs).2
  cases htable : sections[(ehdr mem).e_shstrndx]? with
  | none =>
    simp only [htable] at h
    cases h
  | some table =>
    simp only [htable] at h
    split_ifs at h with htype
    have hbuffer : table.buffer = .file table.info.sh_offset := by
      rw [(hchecked table (List.mem_of_getElem? htable)).buffer, bufferOf, if_pos (by omega)]
    simp only [hbuffer] at h
    cases h
    refine ⟨⟨?_, ?_, table, rfl, ?_, hbuffer, ?_⟩, rfl⟩
    · simp only [setNames, List.map_map]
      exact hheaders
    · intro s hs
      obtain ⟨t, ht, rfl⟩ := List.mem_map.mp hs
      exact ⟨(hchecked t ht).buffer, (hchecked t ht).range⟩
    · rw [← hheaders, List.getElem?_map, htable]
      rfl
    · intro s hs
      obtain ⟨s, -, rfl⟩ := List.mem_map.mp hs
      rfl

lemma ReadProgramHeaders_ok {file' : File} (hnone : file.program_headers = [])
    (h : ReadProgramHeaders mem file = .ok file') : HasSegments mem file' ∧
      file' = { file with program_headers := file'.program_headers } := by
  unfold ReadProgramHeaders at h
  dsimp only at h
  split_ifs at h with hzero
  · cases h
    refine ⟨⟨?_, ?_⟩, rfl⟩
    · rw [hnone, programHeaders, hzero]
      rfl
    · intro p hp
      rw [hnone] at hp
      cases hp
  · obtain ⟨headers, hcollect, h⟩ := bind_eq_ok.mp h
    cases h
    refine ⟨⟨collect_map (fun i p hp => (newProgramHeader_ok hp).1) hcollect, ?_⟩, rfl⟩
    intro p hp
    obtain ⟨i, -, hp⟩ := ((collect_spec hcollect).1 p).mp hp
    exact (newProgramHeader_ok hp).2

lemma readTable_ok {sections : List Section} {table : Section} {symbols : List Symbol}
    (h : readTable mem sections table = .ok symbols) :
    (∀ s, s ∈ symbols ↔ (table.info.sh_type = 2 ∨ table.info.sh_type = 11) ∧
      ∃ i < table.info.sh_size / 16, newSymbol mem sections table (i * 16) = .ok s ∧
        mem s.name ≠ 0) ∧
    (table.info.sh_type = 2 ∨ table.info.sh_type = 11 → ∀ i < table.info.sh_size / 16,
      ∃ s, newSymbol mem sections table (i * 16) = .ok s) := by
  unfold readTable at h
  split_ifs at h with htype
  · obtain ⟨all, hcollect, h⟩ := bind_eq_ok.mp h
    cases h
    obtain ⟨hmem, hall⟩ := collect_spec hcollect
    constructor
    · intro s
      rw [List.mem_filter, hmem]
      simp only [List.mem_range, htype, true_and, decide_eq_true_eq]
      constructor
      · rintro ⟨⟨i, hi, hs⟩, hname⟩
        exact ⟨i, hi, hs, hname⟩
      · rintro ⟨i, hi, hs, hname⟩
        exact ⟨⟨i, hi, hs⟩, hname⟩
    · intro _ i hi
      exact hall i (List.mem_range.mpr hi)
  · cases h
    simp [htype]

lemma readTables_ok {sections tables : List Section} {symbols : List Symbol}
    (h : readTables mem sections tables = .ok symbols) :
    (∀ s, s ∈ symbols ↔ ∃ table ∈ tables,
      (table.info.sh_type = 2 ∨ table.info.sh_type = 11) ∧ ∃ i < table.info.sh_size / 16,
        newSymbol mem sections table (i * 16) = .ok s ∧ mem s.name ≠ 0) ∧
    ∀ table ∈ tables, table.info.sh_type = 2 ∨ table.info.sh_type = 11 →
      ∀ i < table.info.sh_size / 16, ∃ s, newSymbol mem sections table (i * 16) = .ok s := by
  induction tables generalizing symbols with
  | nil =>
    cases h
    simp
  | cons table tables ih =>
    obtain ⟨first, hfirst, h⟩ := bind_eq_ok.mp h
    obtain ⟨rest, hrest, h⟩ := bind_eq_ok.mp h
    cases h
    obtain ⟨hmem, hall⟩ := readTable_ok hfirst
    obtain ⟨hmem', hall'⟩ := ih hrest
    constructor
    · intro s
      rw [List.mem_append, hmem, hmem']
      simp only [List.mem_cons, exists_eq_or_imp]
    · intro t ht
      cases List.mem_cons.mp ht with
      | inl heq => exact heq ▸ hall
      | inr ht => exact hall' t ht

lemma newFile_ok (h : newFile mem size true = .ok file) : file.size = size ∧
    HasSections mem file ∧ HasSegments mem file ∧ HasSymbols mem file := by
  unfold newFile at h
  split_ifs at h with hsmall htrue
  swap
  · exact absurd rfl htrue
  obtain ⟨_, -, h⟩ := bind_eq_ok.mp h
  obtain ⟨file₁, h₁, h⟩ := bind_eq_ok.mp h
  obtain ⟨file₂, h₂, h⟩ := bind_eq_ok.mp h
  obtain ⟨symbols, h₃, h⟩ := bind_eq_ok.mp h
  cases h
  have hnone : file₁.program_headers = [] := by
    unfold ReadSections at h₁
    dsimp only at h₁
    split_ifs at h₁
    obtain ⟨sections, -, h₁⟩ := bind_eq_ok.mp h₁
    split at h₁
    · cases h₁
    · split_ifs at h₁
      split at h₁
      · cases h₁
      · cases h₁
        rfl
  obtain ⟨hsections, hsize⟩ := ReadSections_ok h₁
  obtain ⟨hsegments, heq⟩ := ReadProgramHeaders_ok hnone h₂
  rw [heq] at h₃ ⊢
  obtain ⟨hmem, hall⟩ := readTables_ok h₃
  exact ⟨hsize, ⟨hsections.headers, hsections.checked, hsections.table⟩,
    ⟨hsegments.headers, hsegments.buffer⟩, hmem, hall⟩

end Files

section Results

lemma HasSections.mem_headers (h : HasSections mem file) {info : Elf32_Shdr} :
    info ∈ sectionHeaders mem ↔ ∃ s ∈ file.sections, s.info = info := by
  rw [← h.headers, List.mem_map]

lemma HasSections.headers_getElem? (h : HasSections mem file) (i : ℕ) :
    (sectionHeaders mem)[i]? = file.sections[i]?.map (·.info) := by
  rw [← h.headers, List.getElem?_map]

lemma Checked.inFile_iff {s : Section} (h : Checked size s) (hsize : size < 2 ^ 32)
    (htype : s.info.sh_type ≠ 8) :
    InFile size s.buffer s.info.sh_size ↔ s.info.sh_offset + s.info.sh_size < 2 ^ 32 := by
  have hrange := h.range htype
  rw [InFile, h.buffer, bufferOf, if_pos htype]
  constructor
  · rintro ⟨offset, heq, hle⟩
    obtain rfl := Pointer.file.inj heq
    omega
  · intro hlt
    rw [Nat.mod_eq_of_lt hlt] at hrange
    exact ⟨_, rfl, hrange⟩

lemma terminated_iff {table : Section} {name : ℕ} (hbuffer : table.buffer =
    .file table.info.sh_offset) : Terminated mem table (table.info.sh_offset + name) ↔
      NameFits mem table.info name := by
  rw [nameFits_iff]
  constructor
  · rintro ⟨start, first, last, hstart, hname, hle, hlt, hzero⟩
    rw [hbuffer] at hstart
    obtain rfl := Pointer.file.inj hstart
    exact ⟨last, by omega, hlt, hzero⟩
  · rintro ⟨last, hle, hlt, hzero⟩
    exact ⟨_, name, last, hbuffer, rfl, hle, hlt, hzero⟩

lemma HasSections.symbol_iff (h : HasSections mem file) (hsize : file.size < 2 ^ 32)
    (hranges : ∀ s ∈ file.sections, s.info.sh_type ≠ 8 →
      s.info.sh_offset + s.info.sh_size < 2 ^ 32) (info : Elf32_Sym) :
    (symbolBuffer file.sections info ≠ .null 0 →
      InFile file.size (symbolBuffer file.sections info) info.st_size) ↔ ContentFits mem info := by
  unfold ContentFits symbolBuffer
  rw [h.headers_getElem?]
  cases htarget : file.sections[info.st_shndx]? with
  | none => simp
  | some target =>
    have hchecked := h.checked target (List.mem_of_getElem? htarget)
    have hbuffer := hchecked.buffer
    simp only [Option.map_some, Option.mem_def, Option.some.injEq, forall_eq']
    by_cases hfits : (info.st_value + info.st_size) % 2 ^ 32 ≤ target.info.sh_size
    · simp only [hfits, true_implies]
      by_cases htype : target.info.sh_type = 8
      · rw [if_pos htype, hbuffer, bufferOf, if_neg (not_not.mpr htype), Pointer.add, Nat.zero_add]
        constructor
        · intro hfile
          by_contra hne
          obtain ⟨offset, heq, -⟩ := hfile fun heq => hne (Pointer.null.inj heq)
          cases heq
        · intro hzero hne
          exact absurd (congrArg Pointer.null hzero) hne
      · have hlt := hranges target (List.mem_of_getElem? htarget) htype
        have hrange := hchecked.range htype
        rw [Nat.mod_eq_of_lt hlt] at hrange
        rw [if_neg htype, hbuffer, bufferOf, if_pos htype, Pointer.add]
        constructor
        · intro hfile
          obtain ⟨offset, heq, hle⟩ := hfile nofun
          obtain rfl := Pointer.file.inj heq
          omega
        · intro hsum _
          rw [Nat.mod_eq_of_lt hsum] at hfits
          exact ⟨_, rfl, by omega⟩
    · rw [if_neg hfits]
      exact iff_of_true (fun hne => absurd rfl hne) fun hle => absurd hle hfits

lemma HasSections.newSymbol (h : HasSections mem file) {table : Section} {i : ℕ} {s : Symbol}
    (hs : newSymbol mem file.sections table (i * 16) = .ok s) (htable : table ∈ file.sections) :
    s.info = sym mem (table.info.sh_offset + i * 16) ∧
      (sectionHeaders mem)[table.info.sh_link]? = some s.name_section.info ∧
      s.name_section.buffer = .file s.name_section.info.sh_offset ∧
      s.name = s.name_section.info.sh_offset + s.info.st_name ∧
      s.buffer = symbolBuffer file.sections s.info := by
  have hfile : ∀ {t : Section} {start}, t ∈ file.sections → t.buffer = .file start →
      start = t.info.sh_offset := by
    intro t start ht hstart
    rw [(h.checked t ht).buffer, bufferOf] at hstart
    split_ifs at hstart
    exact (Pointer.file.inj hstart).symm
  obtain ⟨start, base, hstart, hinfo, hlink, hbase, hname, hbuffer⟩ := newSymbol_ok hs
  obtain rfl := hfile htable hstart
  obtain rfl := hfile (List.mem_of_getElem? hlink) hbase
  refine ⟨hinfo, ?_, hbase, hname, hbuffer⟩
  rw [h.headers_getElem?, hlink]
  rfl

lemma Clean.inside (h : Clean mem size) (hsize : size < 2 ^ 32)
    (hfile : newFile mem size true = .ok file) : Inside mem file := by
  obtain ⟨rfl, hsections, hsegments, hsymbols⟩ := newFile_ok hfile
  obtain ⟨table, htable, hindex, hbuffer, hnames⟩ := hsections.table
  have hranges : ∀ s ∈ file.sections, s.info.sh_type ≠ 8 →
      s.info.sh_offset + s.info.sh_size < 2 ^ 32 := fun s hs =>
    h.sections s.info (hsections.mem_headers.mpr ⟨s, hs, rfl⟩)
  have hfits : ∀ s ∈ file.symbols, s.name_section.buffer = .file s.name_section.info.sh_offset ∧
      s.name = s.name_section.info.sh_offset + s.info.st_name ∧
      s.buffer = symbolBuffer file.sections s.info ∧
      NameFits mem s.name_section.info s.info.st_name ∧ ContentFits mem s.info := by
    intro s hs
    obtain ⟨t, ht, htype, i, hi, hnew, hne⟩ := (hsymbols.symbols s).mp hs
    obtain ⟨hinfo, hlink, hbase, hname, hsbuffer⟩ := hsections.newSymbol hnew ht
    have hclean := h.symbols t.info (hsections.mem_headers.mpr ⟨t, ht, rfl⟩) htype i hi _ hlink
    rw [← hinfo, ← hname] at hclean
    exact ⟨hbase, hname, hsbuffer, hclean hne⟩
  constructor
  · intro s hs htype
    exact ((hsections.checked s hs).inFile_iff hsize htype).mpr (hranges s hs htype)
  · intro p hp
    have hmem : p.info ∈ programHeaders mem := hsegments.headers ▸ List.mem_map_of_mem hp
    exact ⟨_, hsegments.buffer p hp, h.segments p.info hmem⟩
  · intro s hs
    obtain ⟨-, -, hsbuffer, -, hcontent⟩ := hfits s hs
    rw [hsbuffer]
    exact (hsections.symbol_iff hsize hranges s.info).mpr hcontent
  · intro s hs
    refine ⟨table, htable, ?_⟩
    rw [hnames s hs, terminated_iff hbuffer]
    exact h.sectionNames s.info (hsections.mem_headers.mpr ⟨s, hs, rfl⟩) table.info hindex
  · intro s hs
    obtain ⟨hbase, hname, -, hfit, -⟩ := hfits s hs
    rw [hname]
    exact (terminated_iff hbase).mpr hfit

lemma Inside.clean (h : Inside mem file) (hsize : size < 2 ^ 32)
    (hfile : newFile mem size true = .ok file) : Clean mem size := by
  obtain ⟨rfl, hsections, hsegments, hsymbols⟩ := newFile_ok hfile
  obtain ⟨table, htable, hindex, hbuffer, hnames⟩ := hsections.table
  have hranges : ∀ s ∈ file.sections, s.info.sh_type ≠ 8 →
      s.info.sh_offset + s.info.sh_size < 2 ^ 32 := fun s hs htype =>
    ((hsections.checked s hs).inFile_iff hsize htype).mp (h.sections s hs htype)
  constructor
  · intro info hinfo
    obtain ⟨s, hs, rfl⟩ := hsections.mem_headers.mp hinfo
    exact hranges s hs
  · intro info hinfo
    rw [← hsegments.headers] at hinfo
    obtain ⟨p, hp, rfl⟩ := List.mem_map.mp hinfo
    obtain ⟨offset, heq, hle⟩ := h.segments p hp
    rw [hsegments.buffer p hp] at heq
    obtain rfl := Pointer.file.inj heq
    exact hle
  · intro info hinfo names hnamesIndex
    obtain ⟨s, hs, rfl⟩ := hsections.mem_headers.mp hinfo
    obtain rfl : table.info = names := Option.some.inj (hindex.symm.trans hnamesIndex)
    obtain ⟨table', htable', hterminated⟩ := h.sectionNames s hs
    obtain rfl : table = table' := Option.some.inj (htable.symm.trans htable')
    rw [hnames s hs] at hterminated
    exact (terminated_iff hbuffer).mp hterminated
  · intro info hinfo htype i hi names hlink hne
    obtain ⟨t, ht, rfl⟩ := hsections.mem_headers.mp hinfo
    obtain ⟨s, hs⟩ := hsymbols.made t ht htype i hi
    obtain ⟨hsinfo, hslink, hbase, hname, hsbuffer⟩ := hsections.newSymbol hs ht
    obtain rfl : s.name_section.info = names := Option.some.inj (hslink.symm.trans hlink)
    rw [← hsinfo] at hne ⊢
    rw [← hname] at hne
    have hmem : s ∈ file.symbols := (hsymbols.symbols s).mpr ⟨t, ht, htype, i, hi, hs, hne⟩
    have hterminated := h.symbolNames s hmem
    rw [hname] at hterminated
    refine ⟨(terminated_iff hbase).mp hterminated, ?_⟩
    rw [← hsections.symbol_iff hsize hranges, ← hsbuffer]
    exact h.symbols s hmem

/-- An accepted file stays inside its buffer and its string tables exactly if its headers are
clean. -/
theorem newFile_inside_iff {read_content : Bool} (hsize : size < 2 ^ 32)
    (hfile : newFile mem size read_content = .ok file) :
    Inside mem file ↔ (read_content = true → Clean mem size) := by
  cases read_content with
  | true =>
    constructor
    · intro h _
      exact h.clean hsize hfile
    · intro h
      exact (h rfl).inside hsize hfile
  | false =>
    refine ⟨fun _ h => absurd h Bool.false_ne_true, ?_⟩
    intro _
    unfold newFile at hfile
    split_ifs at hfile with hsmall hread
    · exact hread.elim
    · obtain ⟨_, -, hfile⟩ := bind_eq_ok.mp hfile
      cases hfile
      constructor <;>
        · intro x hx
          cases hx

end Results

section Examples

def shdrBytes (info : Elf32_Shdr) : List UInt8 :=
  leBytes 4 info.sh_name ++ leBytes 4 info.sh_type ++ List.replicate 8 0 ++
    leBytes 4 info.sh_offset ++ leBytes 4 info.sh_size ++ leBytes 4 info.sh_link ++
    List.replicate 12 0

/-- A file of 223 bytes with a string table, a symbol table with one symbol, a section with some
range and one program header -/
def sample (sh_offset sh_size : ℕ) : List UInt8 :=
  [127, 69, 76, 70, 1, 1, 1] ++ List.replicate 21 0 ++ leBytes 4 191 ++ leBytes 4 52 ++
    List.replicate 6 0 ++ leBytes 2 32 ++ leBytes 2 1 ++ leBytes 2 40 ++ leBytes 2 3 ++
    leBytes 2 0 ++
    shdrBytes ⟨0, 3, 172, 3, 0⟩ ++ shdrBytes ⟨0, 2, 175, 16, 0⟩ ++
    shdrBytes ⟨1, 1, sh_offset, sh_size, 0⟩ ++ [0, 97, 0] ++
    leBytes 4 1 ++ leBytes 4 0 ++ leBytes 4 3 ++ leBytes 2 0 ++ leBytes 2 2 ++
    leBytes 4 0 ++ leBytes 4 172 ++ List.replicate 8 0 ++ leBytes 4 3 ++ List.replicate 12 0

def memory (bytes : List UInt8) (i : ℕ) : UInt8 := bytes.getD i 0

theorem newFile_inside_sample : ∃ file, newFile (memory (sample 172 3)) 223 true = .ok file ∧
    Inside (memory (sample 172 3)) file := by
  have hok : (newFile (memory (sample 172 3)) 223 true).isOk = true := by decide +kernel
  cases hfile : newFile (memory (sample 172 3)) 223 true with
  | error e =>
    rw [hfile] at hok
    cases hok
  | ok file =>
    refine ⟨file, rfl, (newFile_inside_iff (by decide) hfile).mpr fun _ => ?_⟩
    constructor <;> decide +kernel

/-- The range of a section wraps to the end of the file. -/
theorem wrapped_accepted : ∃ file,
    newFile (memory (sample 4294967280 32)) 223 true = .ok file ∧
      ¬ Inside (memory (sample 4294967280 32)) file := by
  have hok : (newFile (memory (sample 4294967280 32)) 223 true).isOk = true := by decide +kernel
  cases hfile : newFile (memory (sample 4294967280 32)) 223 true with
  | error e =>
    rw [hfile] at hok
    cases hok
  | ok file =>
    refine ⟨file, rfl, ?_⟩
    intro h
    have hsections := (h.clean (by decide) hfile).sections
    exact absurd hsections (by decide +kernel)

end Examples

end OISA.Cpp.ELFReader
