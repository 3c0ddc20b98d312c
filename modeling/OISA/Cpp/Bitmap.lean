import Mathlib.Tactic

/-!
# Bitmaps

Model of `lib/cpp/Bitmap.{h,cc}`: a bitmap keeps its bits in blocks of 64 with a mask for the last
block. A failed `assert`, a throwing allocation and an access outside the array are `none`.
-/

namespace OISA.Cpp

def bits_per_block : ℕ := 64

def new_unique_array (size : ℕ) : Option (List (BitVec 64)) :=
  if size % 2 ^ 32 < 2 ^ 31 then some (List.replicate (size % 2 ^ 32) 0) else none

def decrement (i : ℕ) : ℕ := (i + (2 ^ 64 - 1)) % 2 ^ 64

structure Bitmap where
  size : ℕ
  size_in_blocks : ℕ
  mask : BitVec 64
  data : List (BitVec 64)
  deriving DecidableEq, Repr

def lastMask (size : ℕ) : BitVec 64 :=
  let num_bits_in_last_word := decrement size % bits_per_block + 1
  if num_bits_in_last_word = bits_per_block then -1#64
  else (1#64 <<< num_bits_in_last_word) - 1#64

namespace Bitmap

/-- The constructor `Bitmap(size)`. -/
def ofSize (size : ℕ) : Option Bitmap := do
  let size_in_blocks := (size + bits_per_block - 1) % 2 ^ 64 / bits_per_block
  let data ← new_unique_array size_in_blocks
  return { size, size_in_blocks, mask := lastMask size, data }

def copyBlocks (n : ℕ) (source target : List (BitVec 64)) : Option (List (BitVec 64)) :=
  if n ≤ source.length ∧ n ≤ target.length then some (source.take n ++ target.drop n) else none

def ofBitmap (b : Bitmap) : Option Bitmap := do
  let data ← new_unique_array b.size_in_blocks
  let data ← copyBlocks b.size_in_blocks b.data data
  return { b with data }

/-- `operator=`: the size, the number of blocks and the blocks are copied. -/
def assign (b other : Bitmap) : Option Bitmap := do
  let b ←
    if b.size ≠ other.size then do
      let data ← new_unique_array other.size_in_blocks
      pure { b with
        size := other.size
        size_in_blocks := other.size_in_blocks
        data := data }
    else pure b
  let data ← copyBlocks b.size_in_blocks other.data b.data
  return { b with data }

def getBlockBit (b : Bitmap) (at_ : ℕ) : Option (ℕ × ℕ) :=
  if at_ < b.size then some (at_ / bits_per_block, at_ % bits_per_block) else none

/-- A block of the array written. -/
def store (b : Bitmap) (block : ℕ) (word : BitVec 64) : Bitmap :=
  { b with data := b.data.set block word }

def SetAt (b : Bitmap) (at_ : ℕ) (val : Bool) : Option Bitmap := do
  let (block, bit) ← b.getBlockBit at_
  let word ← b.data[block]?
  return b.store block (if val then word ||| 1#64 <<< bit else word &&& ~~~(1#64 <<< bit))

def maskLast (b : Bitmap) : Option Bitmap := do
  let word ← b.data[decrement b.size_in_blocks]?
  return b.store (decrement b.size_in_blocks) (word &&& b.mask)

def mapBlocks (f : BitVec 64 → BitVec 64) (b : Bitmap) : Option Bitmap :=
  if b.size_in_blocks ≤ b.data.length then some { b with data := b.data.map f } else none

def Set (b : Bitmap) : Option Bitmap := (b.mapBlocks fun _ => ~~~0#64).bind maskLast

def Reset (b : Bitmap) : Option Bitmap := b.mapBlocks fun _ => 0#64

def Flip (b : Bitmap) : Option Bitmap := (b.mapBlocks fun word => ~~~word).bind maskLast

def Test (b : Bitmap) (at_ : ℕ) : Option Bool := do
  let (block, bit) ← b.getBlockBit at_
  let word ← b.data[block]?
  return word &&& 1#64 <<< bit ≠ 0#64

def ResetAt (b : Bitmap) (at_ : ℕ) : Option Bitmap := b.SetAt at_ false

def FlipAt (b : Bitmap) (at_ : ℕ) : Option Bitmap := do
  let val ← b.Test at_
  b.SetAt at_ !val

def complement (b : Bitmap) : Option Bitmap := do
  let b ← b.ofBitmap
  b.Flip

def equals (b other : Bitmap) : Option Bool :=
  if b.size = other.size ∧ b.size_in_blocks ≤ b.data.length ∧
      b.size_in_blocks ≤ other.data.length then
    some ((b.data.zip other.data).all fun words => words.1 == words.2)
  else none

def combine (f : BitVec 64 → BitVec 64 → BitVec 64) (b other : Bitmap) : Option Bitmap :=
  if b.size = other.size ∧ b.size_in_blocks ≤ b.data.length ∧
      b.size_in_blocks ≤ other.data.length then
    some { b with data := b.data.zipWith f other.data }
  else none

def andAssign : Bitmap → Bitmap → Option Bitmap := combine fun x y => x &&& y

def orAssign : Bitmap → Bitmap → Option Bitmap := combine fun x y => x ||| y

def xorAssign : Bitmap → Bitmap → Option Bitmap := combine fun x y => x ^^^ y

def subAssign : Bitmap → Bitmap → Option Bitmap := combine fun x y => x &&& ~~~y

def countDown (low : ℕ) (body : ℕ → Bitmap → Option Bitmap) : ℕ → ℕ → Bitmap → Option Bitmap
  | 0, _, _ => none
  | fuel + 1, i, b =>
    if low ≤ i then (body i b).bind (countDown low body fuel (decrement i)) else some b

/-- `operator<<=`, with a bound on the iterations of each loop. -/
def shlAssign (fuel : ℕ) (b : Bitmap) (n : ℕ) : Option Bitmap :=
  if b.size ≤ n then b.Reset
  else do
    let b ← countDown n (fun i b => (b.Test (i - n)).bind (b.SetAt i)) fuel (decrement b.size) b
    countDown 0 (fun i b => b.SetAt i false) fuel (decrement n) b

def shrAssign (b : Bitmap) (n : ℕ) : Option Bitmap :=
  if b.size ≤ n then b.Reset
  else do
    let b ← (List.range (b.size - n)).foldlM (fun b i => (b.Test (i + n)).bind (b.SetAt i)) b
    (List.range' (b.size - n) n).foldlM (fun b i => b.SetAt i false) b

end Bitmap

/-! ### Programs over bitmap variables

A program declares variables, named by their index, and updates them. -/

inductive Expr
  | ofSize (size : ℕ)
  | var (x : ℕ)
  | not (x : ℕ)
  | and (x y : ℕ)
  | or (x y : ℕ)
  | xor (x y : ℕ)
  | sub (x y : ℕ)
  | shl (x n : ℕ)
  | shr (x n : ℕ)

inductive Update
  | assign (y : ℕ)
  | SetAt (at_ : ℕ) (val : Bool)
  | Set
  | ResetAt (at_ : ℕ)
  | Reset
  | FlipAt (at_ : ℕ)
  | Flip
  | andAssign (y : ℕ)
  | orAssign (y : ℕ)
  | xorAssign (y : ℕ)
  | subAssign (y : ℕ)
  | shlAssign (n : ℕ)
  | shrAssign (n : ℕ)

inductive Op
  | declare (e : Expr)
  | update (x : ℕ) (m : Update)

/-- The value of an expression: the operators copy their left operand and apply the compound
assignment to the copy. -/
def Expr.value (fuel : ℕ) (vars : List Bitmap) : Expr → Option Bitmap
  | .ofSize size => Bitmap.ofSize size
  | .var x => do (← vars[x]?).ofBitmap
  | .not x => do (← vars[x]?).complement
  | .and x y => do (← (← vars[x]?).ofBitmap).andAssign (← vars[y]?)
  | .or x y => do (← (← vars[x]?).ofBitmap).orAssign (← vars[y]?)
  | .xor x y => do (← (← vars[x]?).ofBitmap).xorAssign (← vars[y]?)
  | .sub x y => do (← (← vars[x]?).ofBitmap).subAssign (← vars[y]?)
  | .shl x n => do (← (← vars[x]?).ofBitmap).shlAssign fuel n
  | .shr x n => do (← (← vars[x]?).ofBitmap).shrAssign n

/-- A bitmap after a member function. -/
def Update.apply (fuel : ℕ) (vars : List Bitmap) (b : Bitmap) : Update → Option Bitmap
  | .assign y => do b.assign (← vars[y]?)
  | .SetAt at_ val => b.SetAt at_ val
  | .Set => b.Set
  | .ResetAt at_ => b.ResetAt at_
  | .Reset => b.Reset
  | .FlipAt at_ => b.FlipAt at_
  | .Flip => b.Flip
  | .andAssign y => do b.andAssign (← vars[y]?)
  | .orAssign y => do b.orAssign (← vars[y]?)
  | .xorAssign y => do b.xorAssign (← vars[y]?)
  | .subAssign y => do b.subAssign (← vars[y]?)
  | .shlAssign n => b.shlAssign fuel n
  | .shrAssign n => b.shrAssign n

/-- The variables after an operation. -/
def Op.perform (fuel : ℕ) : Op → List Bitmap → Option (List Bitmap)
  | .declare e, vars => do return vars ++ [← e.value fuel vars]
  | .update x m, vars => do return vars.set x (← m.apply fuel vars (← vars[x]?))

end OISA.Cpp
