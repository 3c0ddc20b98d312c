import OISA.Lib.Traced

/-!
# Word helpers and oblivious moves

Model of `lib/misc.c`, of the conditional moves of `lib/asm.h` and of the scanning reads and
writes of `scan_oram.c`. `unsigned int` is `BitVec 32`.
-/

namespace OISA.Primitives

open OISA.Lib OISA.Lib.Traced

variable {ι : Type} [DecidableEq ι]

/-- The `while (val >>= 1) result++` of `log_2`. -/
def log2Loop (val : BitVec 32) : ℕ :=
  if val >>> 1 ≠ 0 then log2Loop (val >>> 1) + 1 else 0
termination_by val.toNat
decreasing_by
  rename_i h
  have hne : val.toNat ≠ 0 := by
    intro h0
    apply h
    apply BitVec.eq_of_toNat_eq
    simp [h0]
  simp only [BitVec.toNat_ushiftRight, Nat.shiftRight_eq_div_pow]
  omega

def log2 (val : BitVec 32) : ℕ := log2Loop ((val <<< 1) - 1)

def reverseLoop (val : BitVec 32) : ℕ → BitVec 32 × BitVec 32
  | 0 => (0, val)
  | L + 1 =>
    let s := reverseLoop val L
    ((s.1 <<< 1) + s.2 % 2, s.2 / 2)

def bitwiseReverse (val : BitVec 32) (L : ℕ) : BitVec 32 := (reverseLoop val L).1

def roundExpt (val : ℕ) : ℕ := if val / 2 ≠ 0 then roundExpt (val / 2) + 1 else 1
termination_by val
decreasing_by omega

def roundToPowerOf2 (val : ℕ) : ℕ := 2 ^ roundExpt val

/-! ### Conditional moves -/

def cmovTo (cond : Bool) (src : ℤ) (a : ι) (i : ℕ) : Traced ι Unit := do
  let dst ← load a i
  store a i (if cond then src else dst)

omit [DecidableEq ι] in
def cmovFrom (cond : Bool) (a : ι) (i : ℕ) (dst : ℤ) : Traced ι ℤ := do
  let src ← load a i
  pure (if cond then src else dst)

def cmov (cond : Bool) (a : ι) (i : ℕ) (b : ι) (j : ℕ) : Traced ι Unit := do
  let dst ← load b j
  let src ← load a i
  store b j (if cond then src else dst)

def cmovn (cond : Bool) (a : ι) (i : ℕ) (b : ι) (j sz : ℕ) : Traced ι Unit :=
  forUpTo sz fun k => cmov cond a (i + k) b (j + k)

/-! ### Scanning accesses -/

omit [DecidableEq ι] in
/-- `ScanORAM_Read` into a local buffer of one word, the only way the tree ORAM uses it.
The index may be out of range, in which case nothing is moved. -/
def scanOramRead (base : ι) (N : ℕ) (data : ℤ) (idx : ℤ) : Traced ι ℤ :=
  loop (fun i d => cmovFrom ((i : ℤ) = idx) base i d) N data

def scanOramWrite (base : ι) (N : ℕ) (data : ℤ) (idx : ℤ) : Traced ι Unit :=
  forUpTo N fun i => cmovTo ((i : ℤ) = idx) data base i

end OISA.Primitives
