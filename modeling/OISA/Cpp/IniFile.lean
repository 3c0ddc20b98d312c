import Mathlib.Data.List.DropRight
import Mathlib.Data.UInt

/-!
# INI files

Model of parsing and dumping in `lib/cpp/IniFile.cc`, with what it uses of `lib/cpp/String.cc`.
Strings are their bytes.
-/

namespace OISA.Cpp

def isSpace (c : UInt8) : Bool := c = 32 ∨ c = 9 ∨ c = 10 ∨ c = 13

def StringTrimLeft (s : List UInt8) : List UInt8 := s.dropWhile isSpace

def StringTrimRight (s : List UInt8) : List UInt8 := s.rdropWhile isSpace

def StringTrim (s : List UInt8) : List UInt8 := StringTrimRight (StringTrimLeft s)

def singleSpaces (was_space started : Bool) : List UInt8 → List UInt8
  | [] => []
  | c :: s =>
    if isSpace c then
      if !was_space && started then 32 :: singleSpaces true started s
      else singleSpaces true started s
    else c :: singleSpaces false true s

def StringSingleSpaces (s : List UInt8) : List UInt8 :=
  let dest := singleSpaces false false s
  if dest ≠ [] ∧ s.getLast?.any isSpace then dest.dropLast else dest

def tokenize (sep : UInt8) (token : List UInt8) : List UInt8 → List (List UInt8)
  | [] => if token = [] then [] else [token]
  | c :: s =>
    if c = sep then
      if token = [] then tokenize sep [] s else token :: tokenize sep [] s
    else tokenize sep (token ++ [c]) s

def StringTokenize (s : List UInt8) (sep : UInt8) : List (List UInt8) := tokenize sep [] s

def StringToLower (s : List UInt8) : List UInt8 :=
  s.map fun c => if 65 ≤ c ∧ c ≤ 90 then c + 32 else c

def sameString (a b : List UInt8) : Bool :=
  StringToLower (a.takeWhile (· ≠ 0)) = StringToLower (b.takeWhile (· ≠ 0))

/-- The lines that `getline` reads -/
def getlines : List UInt8 → List (List UInt8)
  | [] => []
  | c :: s =>
    if c = 10 then [] :: getlines s
    else
      match getlines s with
      | [] => [[c]]
      | line :: lines => (c :: line) :: lines

structure IniFile where
  items : List (List UInt8 × List UInt8) := []
  sections : List (List UInt8) := []

namespace IniFile

inductive Error
  | duplicatedSection (line_num : ℕ) («section» : List UInt8)
  | sectionExpected (line_num : ℕ)
  | invalidFormat (line_num : ℕ)
  | duplicatedVariable (line_num : ℕ) (var : List UInt8)
  | invalidSection

def KeyHash (s : List UInt8) : List UInt8 := StringToLower s

def KeyCompare (a b : List UInt8) : Bool := sameString a b

def sameKey (a b : List UInt8) : Bool := KeyHash a = KeyHash b ∧ KeyCompare a b

def find (items : List (List UInt8 × List UInt8)) (item : List UInt8) :
    Option (List UInt8 × List UInt8) :=
  items.find? fun it => sameKey it.1 item

/-- `items[item] = value` -/
def set (items : List (List UInt8 × List UInt8)) (item value : List UInt8) :
    List (List UInt8 × List UInt8) :=
  if (find items item).isSome then
    items.map fun it => if sameKey it.1 item then (it.1, value) else it
  else items ++ [(item, value)]

def ItemToSectionVar (item : List UInt8) : Option (List UInt8 × List UInt8) :=
  match StringTokenize item 124 with
  | [sec] => some (sec, [])
  | [sec, var] => some (sec, var)
  | _ => none

def SectionVarToItem (sec var : List UInt8) : Option (List UInt8) :=
  let sec := StringSingleSpaces sec
  let var := StringTrim var
  if sec = [] then none
  else some (if var ≠ [] then sec ++ 124 :: var else sec)

def getVarValue (s : List UInt8) : Option (List UInt8 × List UInt8) :=
  let var := s.takeWhile (· ≠ 61)
  if 61 ∉ s ∨ var = [] then none
  else some (StringTrim var, StringTrim (s.drop (var.length + 1)))

def InsertSection (file : IniFile) (sec : List UInt8) : IniFile × Bool :=
  let sec := StringSingleSpaces sec
  let found := (find file.items sec).isSome
  ({ items := set file.items sec []
     sections := if found then file.sections else file.sections ++ [sec] }, !found)

def InsertVariable (file : IniFile) (sec var value : List UInt8) : Option (IniFile × Bool) := do
  let item ← SectionVarToItem sec var
  some ({ file with items := set file.items item value }, !(find file.items item).isSome)

def inSection (sec item tmp_section : List UInt8) : Bool :=
  sameString sec tmp_section ∧ sec.length < item.length ∧ item[sec.length]? = some 124

def dumpItem (sec : List UInt8) (it : List UInt8 × List UInt8) : Option (List UInt8) := do
  let (tmp_section, var) ← ItemToSectionVar it.1
  some (if inSection sec it.1 tmp_section then var ++ [32, 61, 32] ++ it.2 ++ [10] else [])

def dumpSection (items : List (List UInt8 × List UInt8)) (sec : List UInt8) :
    Option (List UInt8) := do
  let lines ← items.mapM (dumpItem sec)
  some ([91, 32] ++ sec ++ [32, 93, 10] ++ lines.flatten ++ [10])

def Dump (file : IniFile) (items : List (List UInt8 × List UInt8)) : Option (List UInt8) := do
  let dumped ← file.sections.mapM (dumpSection items)
  some dumped.flatten

inductive Line
  | skip
  | section (name : List UInt8)
  | entry (var_value : Option (List UInt8 × List UInt8))

def readLine (line : List UInt8) : Line :=
  let line := StringTrim line
  if line = [] ∨ line.head? = some 59 ∨ line.head? = some 35 then .skip
  else if line.head? = some 91 ∧ line.getLast? = some 93 then
    .section (StringSingleSpaces ((line.drop 1).take (line.length - 2)))
  else .entry (getVarValue line)

def parseLines (line_num : ℕ) (file : IniFile) (sec : List UInt8) :
    List (List UInt8) → Except Error IniFile
  | [] => .ok file
  | line :: lines =>
    match readLine line with
    | .skip => parseLines (line_num + 1) file sec lines
    | .section name =>
      let (file, ok) := InsertSection file name
      if ok then parseLines (line_num + 1) file name lines
      else .error (.duplicatedSection line_num name)
    | .entry var_value =>
      if sec = [] then .error (.sectionExpected line_num)
      else
        match var_value with
        | none => .error (.invalidFormat line_num)
        | some (var, value) =>
          match InsertVariable file sec var value with
          | none => .error .invalidSection
          | some (file, ok) =>
            if ok then parseLines (line_num + 1) file sec lines
            else .error (.duplicatedVariable line_num var)

/-- `LoadFromString` into a file without items -/
def Parse (text : List UInt8) : Except Error IniFile := parseLines 1 {} [] (getlines text)

def Exists (file : IniFile) (sec var : List UInt8) : Option Bool :=
  (SectionVarToItem sec var).map fun item => (find file.items item).isSome

def ReadString (file : IniFile) (sec var default : List UInt8) : Option (List UInt8) :=
  (SectionVarToItem sec var).map fun item =>
    match find file.items item with
    | none => default
    | some it => it.2

end IniFile

end OISA.Cpp
