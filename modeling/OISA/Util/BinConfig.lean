import OISA.Lib.Bits
import OISA.Util.HashTable

/-!
# Binary configuration files

Model of saving and loading in `lib/util/bin-config.c`. A file is the bytes that are written to it
or read from it, `none` if it cannot be opened.
-/

namespace OISA.Util

open OISA.Lib

inductive bin_config_error_t
  | BIN_CONFIG_ERR_OK
  | BIN_CONFIG_ERR_NOT_FOUND
  | BIN_CONFIG_ERR_PARENT
  | BIN_CONFIG_ERR_DATA
  | BIN_CONFIG_ERR_DUPLICATE
  | BIN_CONFIG_ERR_IO
  | BIN_CONFIG_ERR_FORMAT
  deriving DecidableEq, Repr

open bin_config_error_t

/-- An element with its children, and with the bytes that its data points to if it is not null -/
inductive bin_config_elem_t
  | mk (child_elem_list : Option (hash_table_t bin_config_elem_t)) (data : Option (List UInt8))
      (size : ℕ)

namespace bin_config_elem_t

def child_elem_list : bin_config_elem_t → Option (hash_table_t bin_config_elem_t)
  | mk child_elem_list _ _ => child_elem_list

def data : bin_config_elem_t → Option (List UInt8)
  | mk _ data _ => data

def size : bin_config_elem_t → ℕ
  | mk _ _ size => size

end bin_config_elem_t

structure bin_config_t where
  error_code : bin_config_error_t := .BIN_CONFIG_ERR_OK
  elem_list : Option (hash_table_t bin_config_elem_t) := none

def toInt (n : ℕ) : ℤ := if n < 2 ^ 31 then n else n - 2 ^ 32

def writeInt (n : ℕ) : List UInt8 := leBytes 4 n

def readInt (f : List UInt8) : ℤ × List UInt8 := (toInt (leNat (f.take 4)), f.drop 4)

def writeBytes (bytes : List UInt8) (len : ℕ) : List UInt8 := bytes.take (toInt len).toNat

def writeData (elem : bin_config_elem_t) : List UInt8 :=
  match elem.data with
  | some data => writeBytes data elem.size
  | none => []

def saveElem (elem : hash_table_elem_t bin_config_elem_t) (children : List UInt8) : List UInt8 :=
  let var_len := elem.key.length % 2 ^ 32
  writeInt var_len ++ writeBytes elem.key var_len ++ writeInt elem.data.size ++
    writeData elem.data ++ children

def saveElems (save : Option (hash_table_t bin_config_elem_t) → Option (List UInt8)) :
    List (hash_table_elem_t bin_config_elem_t) → Option (List UInt8)
  | [] => some []
  | elem :: elems => do
    let children ← save elem.data.child_elem_list
    let rest ← saveElems save elems
    some (saveElem elem children ++ rest)

def bin_config_elem_list_save :
    ℕ → Option (hash_table_t bin_config_elem_t) → Option (List UInt8)
  | _, none => some (writeInt 0)
  | 0, some _ => none
  | depth + 1, some elem_list => do
    let elems ← forEach (hash_table_count elem_list + 1) elem_list
    let bytes ← saveElems (bin_config_elem_list_save depth) elems
    some (writeInt (hash_table_count elem_list) ++ bytes)

def bin_config_save (depth : ℕ) (bin_config : bin_config_t) :
    Option (bin_config_t × List UInt8) :=
  (bin_config_elem_list_save depth bin_config.elem_list).map fun f =>
    ({ bin_config with error_code := .BIN_CONFIG_ERR_OK }, f)

/-- The loop of `bin_config_load_elem_list`: an element is inserted with its children. -/
def loadElems (load : List UInt8 → Option (Option (hash_table_t bin_config_elem_t) × List UInt8)) :
    ℕ → hash_table_t bin_config_elem_t → List UInt8 →
      Option (hash_table_t bin_config_elem_t × List UInt8)
  | 0, elem_list, f => some (elem_list, f)
  | num_elem + 1, elem_list, f =>
    let (var_len, f) := readInt f
    if var_len < 0 ∨ 2 ^ 31 ≤ var_len + 1 then none
    else
      let var := (f.take var_len.toNat).takeWhile (· ≠ 0)
      let (size, f) := readInt (f.drop var_len.toNat)
      if size < 0 ∨ f.length < size then none
      else do
        let (child_elem_list, rest) ← load (f.drop size.toNat)
        let elem := .mk child_elem_list (some (f.take size.toNat)) size.toNat
        let (elem_list, _) ← hash_table_insert elem_list var (some elem)
        loadElems load num_elem elem_list rest

def bin_config_load_elem_list :
    ℕ → List UInt8 → Option (Option (hash_table_t bin_config_elem_t) × List UInt8)
  | 0, _ => none
  | depth + 1, f =>
    let (num_elem, f) := readInt f
    if num_elem = 0 then some (none, f)
    else do
      let elem_list := hash_table_create bin_config_elem_t num_elem.toNat false
      let (elem_list, f) ← loadElems (bin_config_load_elem_list depth) num_elem.toNat elem_list f
      some (some elem_list, f)

/-- `bin_config_load`, with the value it returns: the elements of before are freed. -/
def bin_config_load (depth : ℕ) (bin_config : bin_config_t) (f : Option (List UInt8)) :
    Option (bin_config_t × ℕ) :=
  match f with
  | none => some ({ bin_config with error_code := BIN_CONFIG_ERR_IO }, 0)
  | some f => do
    let (elem_list, _) ← bin_config_load_elem_list depth f
    some ({ bin_config with
      elem_list := elem_list
      error_code := .BIN_CONFIG_ERR_OK }, 1)

end OISA.Util
