import OISA.Primitives.BitonicSort

/-!
# The merge sorting primitives

Model of `merge_sort.c`.
-/

namespace OISA.Primitives

open OISA.Lib OISA.Lib.Traced

variable {ι α : Type} [DecidableEq ι]

omit [DecidableEq ι] in
def loadBlock (arr : ι) (blockSz i : ℕ) : Traced ι (List ℤ) :=
  loop (fun h acc => do
    let v ← load arr (i * blockSz + h)
    pure (acc ++ [v])) blockSz []

def storeBlock (arr : ι) (blockSz k : ℕ) (b : List ℤ) : Traced ι Unit :=
  forUpTo blockSz fun h => store arr (k * blockSz + h) (b.getD h 0)

/-- How the elements of a sorted array are read and written. -/
structure ElementAccess (ι α : Type) where
  read : ℕ → Traced ι α
  write : ℕ → α → Traced ι Unit

def intElement (arr : ι) : ElementAccess ι ℤ where
  read i := load arr i
  write k v := store arr k v

def blockElement (arr : ι) (blockSz : ℕ) : ElementAccess ι (List ℤ) where
  read i := loadBlock arr blockSz i
  write k b := storeBlock arr blockSz k b

def twoArrayElement (main aux : ι) (blockSzMain blockSzAux : ℕ) :
    ElementAccess ι (List ℤ × List ℤ) where
  read i := do
    let b ← loadBlock main blockSzMain i
    let c ← loadBlock aux blockSzAux i
    pure (b, c)
  write k b := do
    storeBlock main blockSzMain k b.1
    storeBlock aux blockSzAux k b.2

def loadRange (el : ElementAccess ι α) (first len : ℕ) : Traced ι (List α) :=
  loop (fun i acc => do
    let x ← el.read (first + i)
    pure (acc ++ [x])) len []

def writeRest (el : ElementAccess ι α) : List α → ℕ → Traced ι Unit
  | [], _ => pure ()
  | x :: xs, k => do
    el.write k x
    writeRest el xs (k + 1)

/-- The three `while` loops of a merge, with the unread parts of `buf_L` and `buf_R`. -/
def mergeLoop (el : ElementAccess ι α) (takeLeft : α → α → Bool) (bufL bufR : List α)
    (k : ℕ) : Traced ι Unit :=
  match bufL, bufR with
  | [], ys => writeRest el ys k
  | xs, [] => writeRest el xs k
  | x :: xs, y :: ys =>
    if takeLeft x y then do
      el.write k x
      mergeLoop el takeLeft xs (y :: ys) (k + 1)
    else do
      el.write k y
      mergeLoop el takeLeft (x :: xs) ys (k + 1)
termination_by bufL.length + bufR.length

def merge (el : ElementAccess ι α) (takeLeft : α → α → Bool) (l m r : ℕ) : Traced ι Unit := do
  let bufL ← loadRange el l (m - l + 1)
  let bufR ← loadRange el (m + 1) (r - m)
  mergeLoop el takeLeft bufL bufR l

/-- The body shared by the five `MergeSubSort` functions. -/
def mergeSubSort (el : ElementAccess ι α) (takeLeft : α → α → Bool) (l r : ℕ) :
    Traced ι Unit :=
  if l < r then do
    mergeSubSort el takeLeft l (l + (r - l) / 2)
    mergeSubSort el takeLeft (l + (r - l) / 2 + 1) r
    merge el takeLeft l (l + (r - l) / 2) r
  else pure ()
termination_by r - l
decreasing_by all_goals omega

def takeLeftKey (dir : Dir) (x y : ℤ) : Bool :=
  (x ≤ y && dir = .ascending) || (x ≥ y && dir = .descending)

def takeLeftTwoKey (dir1 dir2 : Dir) (x1 x2 y1 y2 : ℤ) : Bool :=
  ((x1 < y1 && dir1 = .ascending) || (x1 > y1 && dir1 = .descending)) ||
    (x1 = y1 && ((x2 ≤ y2 && dir2 = .ascending) || (x2 ≥ y2 && dir2 = .descending)))

def mergeSortInt (arr : ι) (N : ℕ) (dir : Dir) : Traced ι Unit :=
  mergeSubSort (intElement arr) (takeLeftKey dir) 0 (N - 1)

def mergeSortBlock (arr : ι) (N keyIdx : ℕ) (dir : Dir) (blockSz : ℕ) : Traced ι Unit :=
  mergeSubSort (blockElement arr blockSz)
    (fun x y => takeLeftKey dir (x.getD keyIdx 0) (y.getD keyIdx 0)) 0 (N - 1)

def mergeSortGeneral (arr : ι) (N blockSz key1Idx : ℕ) (dir1 : Dir) (key2Idx : ℕ)
    (dir2 : Dir) : Traced ι Unit :=
  mergeSubSort (blockElement arr blockSz)
    (fun x y => takeLeftTwoKey dir1 dir2 (x.getD key1Idx 0) (x.getD key2Idx 0)
      (y.getD key1Idx 0) (y.getD key2Idx 0)) 0 (N - 1)

def mergeSortTwoArray (main aux : ι) (N keyIdx : ℕ) (dir : Dir)
    (blockSzMain blockSzAux : ℕ) : Traced ι Unit :=
  mergeSubSort (twoArrayElement main aux blockSzMain blockSzAux)
    (fun x y => takeLeftKey dir (x.1.getD keyIdx 0) (y.1.getD keyIdx 0)) 0 (N - 1)

def mergeSortTwoArrayTwoKey (main aux : ι) (N key1Idx : ℕ) (dir1 : Dir) (key2Idx : ℕ)
    (dir2 : Dir) (blockSzMain blockSzAux : ℕ) : Traced ι Unit :=
  mergeSubSort (twoArrayElement main aux blockSzMain blockSzAux)
    (fun x y => takeLeftTwoKey dir1 dir2 (x.1.getD key1Idx 0) (x.1.getD key2Idx 0)
      (y.1.getD key1Idx 0) (y.1.getD key2Idx 0)) 0 (N - 1)

end OISA.Primitives
