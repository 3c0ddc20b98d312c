import OISA.Lib.Bits
import Mathlib.Tactic

/-!
# ELF reader

Model of `lib/cpp/ELFReader.cc` for a file in memory. The bytes from `size` on are what follows
the buffer in memory.
-/

namespace OISA.Cpp.ELFReader

open OISA.Lib

inductive Failure
  | error (message : String)
  | crash
  deriving DecidableEq, Repr

/-- A pointer into the buffer of the file, or computed from a null pointer -/
inductive Pointer
  | file (offset : ℕ)
  | null (offset : ℕ)
  deriving DecidableEq, Repr

def Pointer.add (offset : ℕ) : Pointer → Pointer
  | .file base => .file (base + offset)
  | .null base => .null (base + offset)

structure Elf32_Ehdr where
  e_class : UInt8
  e_phoff : ℕ
  e_shoff : ℕ
  e_phentsize : ℕ
  e_phnum : ℕ
  e_shentsize : ℕ
  e_shnum : ℕ
  e_shstrndx : ℕ
  deriving DecidableEq, Repr

structure Elf32_Shdr where
  sh_name : ℕ
  sh_type : ℕ
  sh_offset : ℕ
  sh_size : ℕ
  sh_link : ℕ
  deriving DecidableEq, Repr

structure Elf32_Phdr where
  p_offset : ℕ
  p_filesz : ℕ
  deriving DecidableEq, Repr

structure Elf32_Sym where
  st_name : ℕ
  st_value : ℕ
  st_size : ℕ
  st_shndx : ℕ
  deriving DecidableEq, Repr

structure Section where
  info : Elf32_Shdr
  buffer : Pointer
  name : ℕ := 0
  deriving DecidableEq, Repr

structure ProgramHeader where
  info : Elf32_Phdr
  buffer : Pointer
  deriving DecidableEq, Repr

structure Symbol where
  info : Elf32_Sym
  name : ℕ
  name_section : Section
  buffer : Pointer
  deriving DecidableEq, Repr

structure File where
  size : ℕ
  sections : List Section := []
  string_table : Option Section := none
  program_headers : List ProgramHeader := []
  symbols : List Symbol := []
  deriving DecidableEq, Repr

section Headers

variable (mem : ℕ → UInt8)

def number (width pos : ℕ) : ℕ := leNat ((List.range width).map fun i => mem (pos + i))

def ehdr : Elf32_Ehdr where
  e_class := mem 4
  e_phoff := number mem 4 28
  e_shoff := number mem 4 32
  e_phentsize := number mem 2 42
  e_phnum := number mem 2 44
  e_shentsize := number mem 2 46
  e_shnum := number mem 2 48
  e_shstrndx := number mem 2 50

def shdr (pos : ℕ) : Elf32_Shdr where
  sh_name := number mem 4 pos
  sh_type := number mem 4 (pos + 4)
  sh_offset := number mem 4 (pos + 16)
  sh_size := number mem 4 (pos + 20)
  sh_link := number mem 4 (pos + 24)

def phdr (pos : ℕ) : Elf32_Phdr where
  p_offset := number mem 4 (pos + 4)
  p_filesz := number mem 4 (pos + 16)

def sym (pos : ℕ) : Elf32_Sym where
  st_name := number mem 4 pos
  st_value := number mem 4 (pos + 4)
  st_size := number mem 4 (pos + 8)
  st_shndx := number mem 2 (pos + 14)

def sectionOffset (i : ℕ) : ℕ := ((ehdr mem).e_shoff + i * (ehdr mem).e_shentsize) % 2 ^ 32

def programHeaderOffset (i : ℕ) : ℕ := ((ehdr mem).e_phoff + i * (ehdr mem).e_phentsize) % 2 ^ 32

end Headers

section Constructors

variable (mem : ℕ → UInt8) (size : ℕ)

/-- The constructor of `Section` -/
def newSection (info_offset : ℕ) : Except Failure Section :=
  let info := shdr mem info_offset
  if size < info_offset + 40 then .error (.error "Invalid position for section header")
  else if info.sh_type ≠ 8 then
    if size < (info.sh_offset + info.sh_size) % 2 ^ 32 then .error (.error "Section out of range")
    else .ok {
      info := info
      buffer := .file info.sh_offset }
  else .ok {
    info := info
    buffer := .null 0 }

def newProgramHeader (info_offset : ℕ) : Except Failure ProgramHeader :=
  let info := phdr mem info_offset
  if size < info_offset + 32 then .error (.error "Invalid position for program header")
  else .ok {
    info := info
    buffer := .file info.p_offset }

def symbolBuffer (sections : List Section) (info : Elf32_Sym) : Pointer :=
  match sections[info.st_shndx]? with
  | some target =>
    if (info.st_value + info.st_size) % 2 ^ 32 ≤ target.info.sh_size then
      target.buffer.add info.st_value
    else .null 0
  | none => .null 0

/-- The constructor of `Symbol` -/
def newSymbol (sections : List Section) (table : Section) (pos : ℕ) : Except Failure Symbol :=
  match table.buffer with
  | .null _ => .error .crash
  | .file start =>
    let info := sym mem (start + pos)
    if table.info.sh_size < pos + 16 then .error (.error "Invalid position for symbol")
    else
      match sections[table.info.sh_link]? with
      | none => .error (.error "Invalid index for symbol name section")
      | some name_section =>
        if name_section.info.sh_size ≤ info.st_name then
          .error (.error "Invalid symbol name offset")
        else
          match name_section.buffer with
          | .null _ => .error .crash
          | .file base => .ok {
            info := info
            name := base + info.st_name
            name_section := name_section
            buffer := symbolBuffer sections info }

end Constructors

section Files

variable (mem : ℕ → UInt8)

def collect {α : Type} (make : ℕ → Except Failure α) : List ℕ → Except Failure (List α)
  | [] => .ok []
  | i :: is => do
    let x ← make i
    let xs ← collect make is
    .ok (x :: xs)

def err_64bit : String :=
  "The ELF file being loaded is a 64-bit file, currently not supported " ++
  "by Multi2Sim. If you are compiling your own source code on a 64-bit " ++
  "machine, please use the '-m32' flag in the gcc command-line. If you " ++
  "get compilation errors related with missing '.h' files, check that " ++
  "the 32-bit gcc package associated with your Linux distribution is " ++
  "installed."

def ReadHeader (size : ℕ) : Except Failure Unit :=
  if size < 52 then .error (.error "Invalid ELF file")
  else if (List.range 4).map mem ≠ [127, 69, 76, 70] then .error (.error "Invalid ELF file")
  else if (ehdr mem).e_class = 2 then
    .error (.error ("64-bit ELF files not supported\n\n" ++ err_64bit))
  else .ok ()

def setNames (start : ℕ) (sections : List Section) : List Section :=
  sections.map fun s => { s with name := start + s.info.sh_name }

def ReadSections (file : File) : Except Failure File := do
  let info := ehdr mem
  if info.e_shnum = 0 ∨ info.e_shentsize ≠ 40 then
    .error (.error "Number of sections is 0 or section header size is not 40")
  else
    let sections ← collect (fun i => newSection mem file.size (sectionOffset mem i))
      (List.range info.e_shnum)
    match sections[info.e_shstrndx]? with
    | none => .error (.error "Invalid string table index")
    | some string_table =>
      if string_table.info.sh_type ≠ 3 then .error (.error "Invalid string table type")
      else
        match string_table.buffer with
        | .null _ => .error .crash
        | .file start => .ok { file with
          sections := setNames start sections
          string_table := some string_table }

def ReadProgramHeaders (file : File) : Except Failure File := do
  let info := ehdr mem
  if info.e_phnum = 0 then .ok file
  else if info.e_phentsize ≠ 32 then
    .error (.error ("Program header size " ++ toString info.e_phentsize ++ " (should be 32)"))
  else
    let program_headers ← collect
      (fun i => newProgramHeader mem file.size (programHeaderOffset mem i))
      (List.range info.e_phnum)
    .ok { file with program_headers := program_headers }

def readTable (sections : List Section) (table : Section) : Except Failure (List Symbol) :=
  if table.info.sh_type = 2 ∨ table.info.sh_type = 11 then do
    let symbols ← collect (fun i => newSymbol mem sections table (i * 16))
      (List.range (table.info.sh_size / 16))
    .ok (symbols.filter fun symbol => mem symbol.name ≠ 0)
  else .ok []

def readTables (sections : List Section) : List Section → Except Failure (List Symbol)
  | [] => .ok []
  | table :: tables => do
    let symbols ← readTable mem sections table
    let rest ← readTables sections tables
    .ok (symbols ++ rest)

def ReadSymbols (file : File) : Except Failure File := do
  let symbols ← readTables mem file.sections file.sections
  .ok { file with symbols := symbols }

/-- The constructor of `File` for a buffer -/
def newFile (size : ℕ) (read_content : Bool) : Except Failure File := do
  if size < 52 then .error (.error "Invalid ELF file")
  else
    ReadHeader mem size
    if read_content then
      let file ← ReadSections mem { size := size }
      let file ← ReadProgramHeaders mem file
      ReadSymbols mem file
    else .ok { size := size }

end Files

end OISA.Cpp.ELFReader

/-!
## ELF symbol tables

Model of the sort and the lookup of symbols in `lib/cpp/ELFReader.cc`. `sort` is not stable, so a
table is any list in the order of `Symbol::Compare`; an index outside of the table is `none`.
-/

namespace OISA.Cpp.ELFReader

/-- What a lookup reads of a symbol: two fields of its `info`, and its name. -/
structure TableSymbol where
  st_value : ℕ
  st_info : UInt8
  name : List UInt8
  deriving DecidableEq, Repr

def ELF32_ST_BIND (val : UInt8) : ℕ := (val >>> 4).toNat

/-- `Symbol::Compare`: by value, then by binding, then by name. -/
def Compare (a b : TableSymbol) : Bool :=
  if a.st_value < b.st_value then true
  else if b.st_value < a.st_value then false
  else
    let bind_a := ELF32_ST_BIND a.st_info
    let bind_b := ELF32_ST_BIND b.st_info
    if bind_a < bind_b then true
    else if bind_b < bind_a then false
    else a.name < b.name

structure SymbolTable where
  symbols : List TableSymbol
  sorted : symbols.Pairwise fun a b => Compare b a = false

/-- The binary search of `getSymbolByAddress` between two indices. -/
def search (symbols : List TableSymbol) (address min max : ℕ) : Option ℕ :=
  if min + 1 < max then
    let mid := (max + min) / 2
    match symbols[mid]? with
    | none => none
    | some symbol =>
      if address < symbol.st_value then search symbols address min mid
      else if symbol.st_value < address then search symbols address mid max
      else some mid
  else some min
termination_by max - min

/-- The loop that goes backwards from an index. -/
def backwards (symbols : List TableSymbol) (symbol : TableSymbol) : ℕ → Option TableSymbol
  | 0 => some symbol
  | min + 1 =>
    match symbols[min]? with
    | none => none
    | some prev_symbol =>
      if prev_symbol.st_value ≠ symbol.st_value then some symbol
      -- local, global and weak symbols only
      else if ELF32_ST_BIND prev_symbol.st_info < 3 then backwards symbols prev_symbol min
      else backwards symbols symbol min

/-- The symbol with the offset of the address in it, if there is one. -/
def getSymbolByAddress (table : SymbolTable) (address : ℕ) : Option (Option (TableSymbol × ℕ)) :=
  match table.symbols[0]? with
  | none => some none
  | some first =>
    if address < first.st_value then some none
    else do
      let min ← search table.symbols address 0 table.symbols.length
      let symbol ← table.symbols[min]?
      if symbol.st_value = 0 then return none
      let symbol ← backwards table.symbols symbol min
      return some (symbol, address - symbol.st_value)

end OISA.Cpp.ELFReader
