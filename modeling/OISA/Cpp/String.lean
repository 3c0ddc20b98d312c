import Mathlib.Data.Int.Init
import OISA.Cpp.IniFile

/-!
# Conversion of strings into integers

Model of `StringDigitToInt`, `StringToInt` and `StringToInt64` in `lib/cpp/String.cc`. Strings are
their bytes.
-/

namespace OISA.Cpp

inductive StringError
  | Base
  | Format
  | Range
deriving DecidableEq

def tolower (c : UInt8) : UInt8 := if 65 ≤ c ∧ c ≤ 90 then c + 32 else c

def StringDigitToInt (digit : UInt8) (base : ℕ) : Except StringError ℕ :=
  if base ≠ 2 ∧ base ≠ 8 ∧ base ≠ 10 ∧ base ≠ 16 then .error .Base
  else
    let digit := tolower digit
    if 48 ≤ digit ∧ digit ≤ 57 then
      if digit.toNat - 48 ≥ base then .error .Format else .ok (digit.toNat - 48)
    else if 97 ≤ digit ∧ digit ≤ 102 then
      if digit.toNat - 97 + 10 ≥ base then .error .Format else .ok (digit.toNat - 97 + 10)
    else .error .Format

/-- A signed format by its largest number, with the largest number of the unsigned format that
the tests for overflow use -/
structure IntFormat where
  max : ℕ
  umax : ℕ
  room : max + 16 ≤ umax

namespace IntFormat

/-- `INT_MAX` and `UINT_MAX` -/
def int : IntFormat := ⟨2 ^ 31 - 1, 2 ^ 32 - 1, by decide⟩

/-- `LLONG_MAX` and `ULLONG_MAX` -/
def longLong : IntFormat := ⟨2 ^ 63 - 1, 2 ^ 64 - 1, by decide⟩

variable (fmt : IntFormat)

def min : ℤ := -fmt.max - 1

def Fits (n : ℤ) : Prop := fmt.min ≤ n ∧ n ≤ fmt.max

instance (n : ℤ) : Decidable (fmt.Fits n) := inferInstanceAs (Decidable (_ ∧ _))

end IntFormat

def takeSign : List UInt8 → ℤ × List UInt8
  | [] => (1, [])
  | c :: s => if c = 43 then (1, s) else if c = 45 then (-1, s) else (1, c :: s)

def takeBase : List UInt8 → ℕ × List UInt8
  | c :: d :: s =>
    if c = 48 ∧ d = 120 then (16, s) else if c = 48 then (8, d :: s) else (10, c :: d :: s)
  | s => (10, s)

def suffixFactor (c : UInt8) : Option ℕ :=
  if c = 107 then some 1024
  else if c = 75 then some 1000
  else if c = 109 then some (1024 * 1024)
  else if c = 77 then some (1000 * 1000)
  else if c = 103 then some (1024 * 1024 * 1024)
  else if c = 71 then some (1000 * 1000 * 1000)
  else none

def takeFactor (base : ℕ) (s : List UInt8) : ℕ × List UInt8 :=
  if base = 10 then
    match s.getLast?.bind suffixFactor with
    | some factor => (factor, s.dropLast)
    | none => (1, s)
  else (1, s)

section
variable (fmt : IntFormat) (sign : ℤ)

/-- The first two tests for a range error, and the multiplication behind them.
`(unsigned int) result` keeps 32 bits in both conversions. -/
def scale (m : ℕ) (result : ℤ) : Option (Except StringError ℤ) :=
  if sign < 0 ∧ fmt.min.tdiv m > result then some (.error .Range)
  else if sign > 0 ∧ (fmt.umax / m : ℤ) < result % 2 ^ 32 then some (.error .Range)
  else if fmt.Fits (result * m) then some (.ok (result * m))
  else none

def addDigit (digit : ℕ) (result : ℤ) : Option (Except StringError ℤ) :=
  if sign < 0 ∧ fmt.min + digit > result then some (.error .Range)
  else if sign > 0 ∧ (fmt.umax - digit : ℤ) < result % 2 ^ 32 then some (.error .Range)
  else if fmt.Fits (result + digit * sign) then some (.ok (result + digit * sign))
  else none

/-- The loop over the digits -/
def convertDigits (base : ℕ) : List UInt8 → ℤ → Option (Except StringError ℤ)
  | [], result => some (.ok result)
  | c :: s, result =>
    match StringDigitToInt c base with
    | .error error => some (.error error)
    | .ok digit =>
      match scale fmt sign base result with
      | some (.ok result) =>
        match addDigit fmt sign digit result with
        | some (.ok result) => convertDigits base s result
        | outcome => outcome
      | outcome => outcome

def multiply (factor : ℕ) (result : ℤ) : Option (Except StringError ℤ) :=
  if factor ≠ 1 then scale fmt sign factor result else some (.ok result)

def convert (base factor : ℕ) (s : List UInt8) : Option (Except StringError ℤ) :=
  let s := s.dropWhile (· = 48)
  if s = [] then some (.ok 0)
  else
    match convertDigits fmt sign base s 0 with
    | some (.ok result) => multiply fmt sign factor result
    | outcome => outcome

end

def stringToInt (fmt : IntFormat) (s : List UInt8) : Option (Except StringError ℤ) :=
  let (sign, s) := takeSign (StringTrim s)
  let (base, s) := takeBase s
  if s = [] then some (.error .Format)
  else
    let (factor, s) := takeFactor base s
    convert fmt sign base factor s

def StringToInt (s : List UInt8) : Option (Except StringError ℤ) := stringToInt .int s

def StringToInt64 (s : List UInt8) : Option (Except StringError ℤ) := stringToInt .longLong s

/-! ### Strings in base 62 -/

def alnumDigit (digit : ℕ) : UInt8 :=
  if digit ≤ 9 then .ofNat (48 + digit)
  else if digit ≤ 35 then .ofNat (digit - 10 + 97)
  else .ofNat (digit - 36 + 65)

/-- The loop of `StringIntToAlnum` -/
def alnumDigits (value : ℕ) : List UInt8 :=
  if value = 0 then [] else alnumDigit (value % 62) :: alnumDigits (value / 62)
decreasing_by omega

def StringIntToAlnum (value : BitVec 32) : List UInt8 := (alnumDigits value.toNat).reverse

def alnumToDigit (c : UInt8) : Option ℕ :=
  if 48 ≤ c ∧ c ≤ 57 then some (c.toNat - 48)
  else if 97 ≤ c ∧ c ≤ 122 then some (c.toNat - 97 + 10)
  else if 65 ≤ c ∧ c ≤ 90 then some (c.toNat - 65 + 36)
  else none

/-- The loop of `StringAlnumToInt`, from the end of the string -/
def alnumLoop : List UInt8 → BitVec 32 → BitVec 32 → BitVec 32
  | [], _, result => result
  | c :: s, power, result =>
    match alnumToDigit c with
    | some digit => alnumLoop s (power * 62#32) (result + .ofNat 32 digit * power)
    | none => 0#32

def StringAlnumToInt (s : List UInt8) : BitVec 32 :=
  if s = [] then 0#32 else alnumLoop s.reverse 1#32 0#32

end OISA.Cpp
