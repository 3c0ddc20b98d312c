import OISA.Lib.Bits

/-!
# ELF writer

Model of `lib/cpp/ELFWriter.cc`. Buffers are given by their contents, and a buffer in a section or
a segment by its index. Writing to a buffer, at whatever position, replaces its content.
-/

namespace OISA.Cpp.ELFWriter

open OISA.Lib

structure SectionInfo where
  sh_type : UInt32 := 0
  sh_flags : UInt32 := 0
  sh_addr : UInt32 := 0
  sh_link : UInt32 := 0
  sh_info : UInt32 := 0
  sh_addralign : UInt32 := 0
  sh_entsize : UInt32 := 0

structure Section where
  name : List UInt8
  sh_name : ℕ := 0
  info : SectionInfo := {}
  first_buffer : ℕ
  last_buffer : ℕ

structure SegmentInfo where
  p_type : UInt32 := 0
  p_vaddr : UInt32 := 0
  p_paddr : UInt32 := 0
  p_flags : UInt32 := 0
  p_align : UInt32 := 0

structure Segment where
  info : SegmentInfo := {}
  first_buffer : ℕ
  last_buffer : ℕ

structure File where
  e_ident : ℕ → UInt8 := fun _ => 0
  e_machine : UInt16 := 0
  e_version : UInt32 := 0
  e_entry : UInt32 := 0
  buffers : List (List UInt8)
  sections : List Section
  segments : List Segment := []

def shstrtab : List UInt8 := [46, 115, 104, 115, 116, 114, 116, 97, 98]

/-- The constructor of `File`, with the null section and the section string table -/
def newFile : File where
  buffers := [[], 0 :: shstrtab ++ [0]]
  sections := [
    { name := []
      first_buffer := 0
      last_buffer := 0 },
    { name := shstrtab
      sh_name := 1
      info := { sh_type := 3 }
      first_buffer := 1
      last_buffer := 1 }]

def newBuffer (file : File) : File := { file with buffers := file.buffers ++ [[]] }

/-- The size of the section string table becomes the offset of the name. -/
def newSection (name : List UInt8) (first last : ℕ) (file : File) : Option File :=
  if file.buffers.length ≤ first ∨ file.buffers.length ≤ last then none
  else if last < first then none
  else do
    let names ← file.buffers[1]?
    some { file with
      sections := file.sections ++ [{
        name := name
        sh_name := names.length
        first_buffer := first
        last_buffer := last }]
      buffers := file.buffers.set 1 (names ++ name ++ [0]) }

def newSegment (first last : ℕ) (file : File) : Option File :=
  if file.buffers.length ≤ first ∨ file.buffers.length ≤ last then none
  else some { file with
    segments := file.segments ++ [{
      first_buffer := first
      last_buffer := last }] }

/-- The buffers from the first to the last one of a range -/
def content (file : File) (first last : ℕ) : List UInt8 :=
  ((file.buffers.take (last + 1)).drop first).flatten

def bufOffset (file : File) (first : ℕ) : ℕ := ((file.buffers.take first).map List.length).sum

def dataOffset (file : File) : ℕ := 52 + 32 * file.segments.length

/-- Numbers in their widths -/
def layout (fields : List (ℕ × ℕ)) : List UInt8 :=
  fields.flatMap fun field => leBytes field.1 field.2

/-- The first seven bytes of `e_ident` are set by `Generate`. -/
def ehdrFields (file : File) : List (ℕ × ℕ) :=
  [(1, 127), (1, 69), (1, 76), (1, 70), (1, 1), (1, 1), (1, 1), (1, (file.e_ident 7).toNat),
    (1, (file.e_ident 8).toNat), (1, (file.e_ident 9).toNat), (1, (file.e_ident 10).toNat),
    (1, (file.e_ident 11).toNat), (1, (file.e_ident 12).toNat), (1, (file.e_ident 13).toNat),
    (1, (file.e_ident 14).toNat), (1, (file.e_ident 15).toNat),
    (2, 2), (2, file.e_machine.toNat), (4, file.e_version.toNat), (4, file.e_entry.toNat),
    (4, if file.segments = [] then 0 else 52),
    (4, dataOffset file + bufOffset file file.buffers.length), (4, 0), (2, 52),
    (2, if file.segments = [] then 0 else 32), (2, file.segments.length), (2, 40),
    (2, file.sections.length), (2, 1)]

def phdrFields (file : File) (segment : Segment) : List (ℕ × ℕ) :=
  let size := (content file segment.first_buffer segment.last_buffer).length
  [(4, segment.info.p_type.toNat), (4, dataOffset file + bufOffset file segment.first_buffer),
    (4, segment.info.p_vaddr.toNat), (4, segment.info.p_paddr.toNat), (4, size),
    (4, if segment.info.p_type = 1 then size else 0), (4, segment.info.p_flags.toNat),
    (4, segment.info.p_align.toNat)]

def sectionOffset (file : File) (i : ℕ) (s : Section) : ℕ :=
  if i = 0 then 0 else dataOffset file + bufOffset file s.first_buffer

def shdrFields (file : File) (i : ℕ) (s : Section) : List (ℕ × ℕ) :=
  [(4, s.sh_name), (4, s.info.sh_type.toNat), (4, s.info.sh_flags.toNat),
    (4, s.info.sh_addr.toNat), (4, sectionOffset file i s),
    (4, (content file s.first_buffer s.last_buffer).length), (4, s.info.sh_link.toNat),
    (4, s.info.sh_info.toNat), (4, s.info.sh_addralign.toNat), (4, s.info.sh_entsize.toNat)]

/-- The output of the first call of `Generate` -/
def Generate (file : File) : List UInt8 :=
  layout (ehdrFields file) ++ (file.segments.map fun s => layout (phdrFields file s)).flatten ++
    file.buffers.flatten ++
    (file.sections.mapIdx fun i s => layout (shdrFields file i s)).flatten

inductive Op
  | header (e_ident : ℕ → UInt8) (e_machine : UInt16) (e_version e_entry : UInt32)
  | newBuffer
  | write (index : ℕ) (bytes : List UInt8)
  | newSection (name : List UInt8) (first last : ℕ)
  | setSection (index : ℕ) (info : SectionInfo)
  | newSegment (first last : ℕ)
  | setSegment (index : ℕ) (info : SegmentInfo)

/-- The two buffers and sections that the constructor makes belong to the file. -/
def perform (op : Op) (file : File) : Option File :=
  match op with
  | .header e_ident e_machine e_version e_entry => some { file with
      e_ident := e_ident
      e_machine := e_machine
      e_version := e_version
      e_entry := e_entry }
  | .newBuffer => some (newBuffer file)
  | .write index bytes =>
    if 2 ≤ index ∧ index < file.buffers.length then
      some { file with buffers := file.buffers.set index bytes }
    else none
  | .newSection name first last => newSection name first last file
  | .setSection index info =>
    if 2 ≤ index then
      some { file with sections := file.sections.modify index fun s => { s with info := info } }
    else none
  | .newSegment first last => newSegment first last file
  | .setSegment index info =>
    some { file with segments := file.segments.modify index fun s => { s with info := info } }

end OISA.Cpp.ELFWriter
