import OISA.Lib.Traced

/-!
# The bitonic sorting primitives

Model of `bitonic_sort.c`.
-/

namespace OISA.Primitives

open OISA.Lib OISA.Lib.Traced

variable {ι δ : Type} [DecidableEq ι]

inductive Dir where
  | descending
  | ascending
  deriving DecidableEq, Repr

def Dir.ofBool (b : Bool) : Dir := if b then .ascending else .descending

def oswap (arr : ι) (a b : ℕ) (ifSwap : Bool) : Traced ι Unit := do
  let eax ← load arr a
  let ebx ← load arr b
  store arr a (if ifSwap then ebx else eax)
  store arr b (if ifSwap then eax else ebx)

/-- The value on which the `while` loop of `checkPowerOfTwo` stops; on 0 it does not
stop, and 0 stands for that. -/
def oddPart (val : ℕ) : ℕ :=
  if val % 2 = 0 ∧ val ≠ 0 then oddPart (val / 2) else val

def checkPowerOfTwo (val : ℕ) : Bool := oddPart val = 1

/-! ### Compare and swap -/

def swapBlocks (arr : ι) (blockSz i j : ℕ) (ifSwap : Bool) : Traced ι Unit :=
  forUpTo blockSz fun k => oswap arr (i * blockSz + k) (j * blockSz + k) ifSwap

def compAndSwapInt (arr : ι) (dir : Dir) (i j : ℕ) : Traced ι Unit := do
  let x ← load arr i
  let y ← load arr j
  let actDir := Dir.ofBool (x > y)
  oswap arr i j (dir = actDir)

def compAndSwapBlock (arr : ι) (keyIdx blockSz : ℕ) (dir : Dir) (i j : ℕ) :
    Traced ι Unit := do
  let x ← load arr (i * blockSz + keyIdx)
  let y ← load arr (j * blockSz + keyIdx)
  let actDir := Dir.ofBool (x > y)
  swapBlocks arr blockSz i j (dir = actDir)

/-- The two-key test `if_swap`, with one load for each array access of the source. -/
def twoKeyTest (arr : ι) (key1Idx key2Idx blockSz : ℕ) (dir : Dir × Dir) (i j : ℕ) :
    Traced ι Bool := do
  let x ← load arr (i * blockSz + key1Idx)
  let y ← load arr (j * blockSz + key1Idx)
  let dir1Eq : Bool := x = y
  let x ← load arr (i * blockSz + key1Idx)
  let y ← load arr (j * blockSz + key1Idx)
  let actDir1 := Dir.ofBool (x > y)
  let x ← load arr (i * blockSz + key2Idx)
  let y ← load arr (j * blockSz + key2Idx)
  let actDir2 := Dir.ofBool (x > y)
  pure ((!dir1Eq && actDir1 = dir.1) || (dir1Eq && actDir2 = dir.2))

def compAndSwapGeneral (arr : ι) (key1Idx key2Idx blockSz : ℕ) (dir : Dir × Dir)
    (i j : ℕ) : Traced ι Unit := do
  let ifSwap ← twoKeyTest arr key1Idx key2Idx blockSz dir i j
  swapBlocks arr blockSz i j ifSwap

def compAndSwapTwoArray (main aux : ι) (keyIdx blockSzMain blockSzAux : ℕ) (dir : Dir)
    (i j : ℕ) : Traced ι Unit := do
  let x ← load main (i * blockSzMain + keyIdx)
  let y ← load main (j * blockSzMain + keyIdx)
  let actDir := Dir.ofBool (x > y)
  swapBlocks main blockSzMain i j (dir = actDir)
  swapBlocks aux blockSzAux i j (dir = actDir)

def compAndSwapTwoArrayTwoKey (main aux : ι) (key1Idx key2Idx blockSzMain blockSzAux : ℕ)
    (dir : Dir × Dir) (i j : ℕ) : Traced ι Unit := do
  let ifSwap ← twoKeyTest main key1Idx key2Idx blockSzMain dir i j
  swapBlocks main blockSzMain i j ifSwap
  swapBlocks aux blockSzAux i j ifSwap

/-! ### Merge and sort -/

def halfClean (cas : ℕ → ℕ → Traced ι Unit) (low k : ℕ) : Traced ι Unit :=
  forUpTo k fun t => cas (low + t) (low + t + k)

def bitonicMerge (cas : ℕ → ℕ → Traced ι Unit) (low cnt : ℕ) : Traced ι Unit :=
  if 1 < cnt then do
    halfClean cas low (cnt / 2)
    bitonicMerge cas low (cnt / 2)
    bitonicMerge cas (low + cnt / 2) (cnt / 2)
  else pure ()
termination_by cnt
decreasing_by all_goals omega

/-- The body shared by the five `BitonicSubSort` functions. The halves are sorted in the
directions `up` and `down`. -/
def bitonicSubSort (cas : δ → ℕ → ℕ → Traced ι Unit) (up down : δ) (low cnt : ℕ) (dir : δ) :
    Traced ι Unit :=
  if 1 < cnt then do
    bitonicSubSort cas up down low (cnt / 2) up
    bitonicSubSort cas up down (low + cnt / 2) (cnt / 2) down
    bitonicMerge (cas dir) low cnt
  else pure ()
termination_by cnt
decreasing_by all_goals omega

def bitonicMergeInt (arr : ι) (low cnt : ℕ) (dir : Dir) : Traced ι Unit :=
  bitonicMerge (compAndSwapInt arr dir) low cnt

def bitonicMergeBlock (arr : ι) (keyIdx blockSz low cnt : ℕ) (dir : Dir) : Traced ι Unit :=
  bitonicMerge (compAndSwapBlock arr keyIdx blockSz dir) low cnt

def bitonicMergeGeneral (arr : ι) (key1Idx key2Idx blockSz low cnt : ℕ) (dir : Dir × Dir) :
    Traced ι Unit :=
  bitonicMerge (compAndSwapGeneral arr key1Idx key2Idx blockSz dir) low cnt

def bitonicMergeTwoArray (main aux : ι) (keyIdx blockSzMain blockSzAux low cnt : ℕ)
    (dir : Dir) : Traced ι Unit :=
  bitonicMerge (compAndSwapTwoArray main aux keyIdx blockSzMain blockSzAux dir) low cnt

def bitonicMergeTwoArrayTwoKey (main aux : ι)
    (key1Idx key2Idx blockSzMain blockSzAux low cnt : ℕ) (dir : Dir × Dir) : Traced ι Unit :=
  bitonicMerge (compAndSwapTwoArrayTwoKey main aux key1Idx key2Idx blockSzMain blockSzAux dir)
    low cnt

def bitonicSubSortInt (arr : ι) (low cnt : ℕ) (dir : Dir) : Traced ι Unit :=
  bitonicSubSort (compAndSwapInt arr) .ascending .descending low cnt dir

def bitonicSubSortBlock (arr : ι) (keyIdx blockSz low cnt : ℕ) (dir : Dir) :
    Traced ι Unit :=
  bitonicSubSort (compAndSwapBlock arr keyIdx blockSz) .ascending .descending low cnt dir

def bitonicSubSortGeneral (arr : ι) (key1Idx key2Idx blockSz low cnt : ℕ)
    (dir : Dir × Dir) : Traced ι Unit :=
  bitonicSubSort (compAndSwapGeneral arr key1Idx key2Idx blockSz)
    (.ascending, .ascending) (.descending, .descending) low cnt dir

def bitonicSubSortTwoArray (main aux : ι) (keyIdx blockSzMain blockSzAux low cnt : ℕ)
    (dir : Dir) : Traced ι Unit :=
  bitonicSubSort (compAndSwapTwoArray main aux keyIdx blockSzMain blockSzAux)
    .ascending .descending low cnt dir

def bitonicSubSortTwoArrayTwoKey (main aux : ι)
    (key1Idx key2Idx blockSzMain blockSzAux low cnt : ℕ) (dir : Dir × Dir) : Traced ι Unit :=
  bitonicSubSort (compAndSwapTwoArrayTwoKey main aux key1Idx key2Idx blockSzMain blockSzAux)
    (.ascending, .ascending) (.descending, .descending) low cnt dir

/-! ### Callable functions

`none` stands for a call that does not get past `checkPowerOfTwo`. -/

def bitonicSortInt (arr : ι) (N : ℕ) (dir : Dir) : Option (Traced ι Unit) :=
  if checkPowerOfTwo N then some (bitonicSubSortInt arr 0 N dir) else none

def bitonicSortBlock (arr : ι) (N keyIdx : ℕ) (dir : Dir) (blockSz : ℕ) :
    Option (Traced ι Unit) :=
  if checkPowerOfTwo N then some (bitonicSubSortBlock arr keyIdx blockSz 0 N dir) else none

def bitonicSortGeneral (arr : ι) (N blockSz key1Idx : ℕ) (dir1 : Dir) (key2Idx : ℕ)
    (dir2 : Dir) : Option (Traced ι Unit) :=
  if checkPowerOfTwo N then
    some (bitonicSubSortGeneral arr key1Idx key2Idx blockSz 0 N (dir1, dir2))
  else none

def bitonicSortTwoArray (main aux : ι) (N keyIdx : ℕ) (dir : Dir)
    (blockSzMain blockSzAux : ℕ) : Option (Traced ι Unit) :=
  if checkPowerOfTwo N then
    some (bitonicSubSortTwoArray main aux keyIdx blockSzMain blockSzAux 0 N dir)
  else none

def bitonicSortTwoArrayTwoKey (main aux : ι) (N key1Idx : ℕ) (dir1 : Dir) (key2Idx : ℕ)
    (dir2 : Dir) (blockSzMain blockSzAux : ℕ) : Option (Traced ι Unit) :=
  if checkPowerOfTwo N then
    some (bitonicSubSortTwoArrayTwoKey main aux key1Idx key2Idx blockSzMain blockSzAux 0 N
      (dir1, dir2))
  else none

end OISA.Primitives
