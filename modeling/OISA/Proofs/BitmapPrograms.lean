import OISA.Lib.Runs
import OISA.Proofs.BitmapVectors

/-!
# Programs over bitmaps

A program declares bitmap variables and updates them, and the same program over bit vectors is its
specification.
-/

namespace OISA.Cpp

open OISA.Lib

def Expr.vector (vars : List BitVector) : Expr → Option BitVector
  | .ofSize size => some (BitVector.zeros size)
  | .var x => vars[x]?
  | .not x => do return (← vars[x]?).complement
  | .and x y => do return (← vars[x]?).zip (← vars[y]?) fun p q => p && q
  | .or x y => do return (← vars[x]?).zip (← vars[y]?) fun p q => p || q
  | .xor x y => do return (← vars[x]?).zip (← vars[y]?) fun p q => p ^^ q
  | .sub x y => do return (← vars[x]?).zip (← vars[y]?) fun p q => p && !q
  | .shl x n => do return (← vars[x]?).up n
  | .shr x n => do return (← vars[x]?).down n

/-- The vector after a member function. -/
def Update.vector (vars : List BitVector) (v : BitVector) : Update → Option BitVector
  | .assign y => vars[y]?
  | .SetAt at_ val => some (v.put at_ val)
  | .Set => some (BitVector.ones v.size)
  | .ResetAt at_ => some (v.put at_ false)
  | .Reset => some (BitVector.zeros v.size)
  | .FlipAt at_ => some (v.put at_ !v.bit at_)
  | .Flip => some v.complement
  | .andAssign y => do return v.zip (← vars[y]?) fun p q => p && q
  | .orAssign y => do return v.zip (← vars[y]?) fun p q => p || q
  | .xorAssign y => do return v.zip (← vars[y]?) fun p q => p ^^ q
  | .subAssign y => do return v.zip (← vars[y]?) fun p q => p && !q
  | .shlAssign n => some (v.up n)
  | .shrAssign n => some (v.down n)

/-- The vectors after an operation. -/
def Op.specify : Op → List BitVector → Option (List BitVector)
  | .declare e, vars => do return vars ++ [← e.vector vars]
  | .update x m, vars => do return vars.set x (← m.vector vars (← vars[x]?))

def SameSize (vars : List Bitmap) (x y : ℕ) : Prop :=
  x < vars.length ∧ y < vars.length ∧
    ∀ b ∈ vars[x]?, ∀ c ∈ vars[y]?, b.size = c.size

/-- What the code asks of an expression: declared variables, a size of at least one, equal
sizes of the operands. -/
def Expr.Defined (vars : List Bitmap) : Expr → Prop
  | .ofSize size => 1 ≤ size ∧ size < 2 ^ 64
  | .var x | .not x | .shl x _ | .shr x _ => x < vars.length
  | .and x y | .or x y | .xor x y | .sub x y => SameSize vars x y

/-- What the code asks of a member function: an index below the size, equal sizes. -/
def Update.Defined (vars : List Bitmap) (x : ℕ) : Update → Prop
  | .assign y => y < vars.length
  | .SetAt at_ _ | .ResetAt at_ | .FlipAt at_ => ∀ b ∈ vars[x]?, at_ < b.size
  | .Set | .Reset | .Flip | .shlAssign _ | .shrAssign _ => True
  | .andAssign y | .orAssign y | .xorAssign y | .subAssign y => SameSize vars x y

def Op.Defined : Op → List Bitmap → Prop
  | .declare e, vars => e.Defined vars
  | .update x m, vars => x < vars.length ∧ m.Defined vars x

def OwnMask (vars : List Bitmap) (x : ℕ) : Prop :=
  ∀ b ∈ vars[x]?, b.mask = lastMask b.size

def Clears (vars : List Bitmap) (x n : ℕ) : Prop := ∀ b ∈ vars[x]?, b.size ≤ n

/-- The expression meets none of the slips: an array longer than an `int`, a mask of another
size, the loops of a left shift. -/
def Expr.Sound (vars : List Bitmap) : Expr → Prop
  | .ofSize size => size ≤ 2 ^ 37 - 64
  | .not x => OwnMask vars x
  | .shl x n => Clears vars x n
  | _ => True

/-- The member function meets none of the slips. -/
def Update.Sound (vars : List Bitmap) (x : ℕ) : Update → Prop
  | .Set | .Flip => OwnMask vars x
  | .shlAssign n => Clears vars x n
  | _ => True

def Op.Sound : Op → List Bitmap → Prop
  | .declare e, vars => e.Sound vars
  | .update x m, vars => m.Sound vars x

instance (vars : List Bitmap) (x y : ℕ) : Decidable (SameSize vars x y) :=
  inferInstanceAs (Decidable (_ ∧ _ ∧ _))

instance (vars : List Bitmap) : (e : Expr) → Decidable (e.Defined vars)
  | .ofSize _ => inferInstanceAs (Decidable (_ ∧ _))
  | .var _ | .not _ | .shl _ _ | .shr _ _ => inferInstanceAs (Decidable (_ < _))
  | .and x y | .or x y | .xor x y | .sub x y => inferInstanceAs (Decidable (SameSize vars x y))

instance (vars : List Bitmap) (x : ℕ) : (m : Update) → Decidable (m.Defined vars x)
  | .assign _ => inferInstanceAs (Decidable (_ < _))
  | .SetAt at_ _ | .ResetAt at_ | .FlipAt at_ =>
    inferInstanceAs (Decidable (∀ b ∈ vars[x]?, at_ < Bitmap.size b))
  | .Set | .Reset | .Flip | .shlAssign _ | .shrAssign _ => inferInstanceAs (Decidable True)
  | .andAssign y | .orAssign y | .xorAssign y | .subAssign y =>
    inferInstanceAs (Decidable (SameSize vars x y))

instance : (op : Op) → (vars : List Bitmap) → Decidable (op.Defined vars)
  | .declare e, vars => inferInstanceAs (Decidable (e.Defined vars))
  | .update x m, vars => inferInstanceAs (Decidable (x < vars.length ∧ m.Defined vars x))

instance (vars : List Bitmap) (x : ℕ) : Decidable (OwnMask vars x) :=
  inferInstanceAs (Decidable (∀ b ∈ vars[x]?, Bitmap.mask b = lastMask b.size))

instance (vars : List Bitmap) (x n : ℕ) : Decidable (Clears vars x n) :=
  inferInstanceAs (Decidable (∀ b ∈ vars[x]?, Bitmap.size b ≤ n))

instance (vars : List Bitmap) : (e : Expr) → Decidable (e.Sound vars)
  | .ofSize _ => inferInstanceAs (Decidable (_ ≤ _))
  | .not x => inferInstanceAs (Decidable (OwnMask vars x))
  | .shl x n => inferInstanceAs (Decidable (Clears vars x n))
  | .var _ | .shr _ _ | .and _ _ | .or _ _ | .xor _ _ | .sub _ _ =>
    inferInstanceAs (Decidable True)

instance (vars : List Bitmap) (x : ℕ) : (m : Update) → Decidable (m.Sound vars x)
  | .Set | .Flip => inferInstanceAs (Decidable (OwnMask vars x))
  | .shlAssign n => inferInstanceAs (Decidable (Clears vars x n))
  | .assign _ | .SetAt _ _ | .ResetAt _ | .Reset | .FlipAt _ | .andAssign _ | .orAssign _
  | .xorAssign _ | .subAssign _ | .shrAssign _ => inferInstanceAs (Decidable True)

instance : (op : Op) → (vars : List Bitmap) → Decidable (op.Sound vars)
  | .declare e, vars => inferInstanceAs (Decidable (e.Sound vars))
  | .update x m, vars => inferInstanceAs (Decidable (m.Sound vars x))

structure Holds (vars : List Bitmap) (vs : List BitVector) : Prop where
  length : vars.length = vs.length
  represents : ∀ {x : ℕ} {b : Bitmap} {v : BitVector}, vars[x]? = some b →
    vs[x]? = some v → b.Represents v

namespace Holds

variable {vars : List Bitmap} {vs : List BitVector}

lemma nil : Holds [] [] where
  length := rfl
  represents h := by
    rw [List.getElem?_nil] at h
    exact absurd h nofun

lemma get (h : Holds vars vs) {x : ℕ} (hx : x < vars.length) :
    ∃ b v, vars[x]? = some b ∧ vs[x]? = some v ∧ b.Represents v :=
  have hb := List.getElem?_eq_getElem hx
  have hv := List.getElem?_eq_getElem (h.length ▸ hx)
  ⟨_, _, hb, hv, h.represents hb hv⟩

lemma push (h : Holds vars vs) {b : Bitmap} {v : BitVector} (hb : b.Represents v) :
    Holds (vars ++ [b]) (vs ++ [v]) where
  length := by rw [List.length_append, List.length_append, h.length]; rfl
  represents {x c w} hc hw := by
    by_cases hx : x < vars.length
    · rw [List.getElem?_append_left hx] at hc
      rw [List.getElem?_append_left (h.length ▸ hx)] at hw
      exact h.represents hc hw
    · rw [List.getElem?_append_right (not_lt.mp hx)] at hc
      rw [List.getElem?_append_right (h.length ▸ not_lt.mp hx), ← h.length] at hw
      rw [List.getElem?_singleton] at hc hw
      by_cases hzero : x - vars.length = 0
      · rw [if_pos hzero, Option.some.injEq] at hc hw
        exact hc ▸ hw ▸ hb
      · rw [if_neg hzero] at hc
        exact absurd hc nofun

lemma set (h : Holds vars vs) {b : Bitmap} {v : BitVector} (hb : b.Represents v) (x : ℕ) :
    Holds (vars.set x b) (vs.set x v) where
  length := by rw [List.length_set, List.length_set, h.length]
  represents {y c w} hc hw := by
    by_cases hxy : x = y
    · subst hxy
      rw [List.getElem?_set_self'] at hc hw
      obtain ⟨_, _, rfl⟩ := Option.map_eq_some_iff.mp hc
      obtain ⟨_, _, rfl⟩ := Option.map_eq_some_iff.mp hw
      exact hb
    · rw [List.getElem?_set_ne hxy] at hc hw
      exact h.represents hc hw

end Holds

section Steps

variable {vars : List Bitmap} {vs : List BitVector} {x y : ℕ}

lemma and_bits (p q : BitVec 64) (j : ℕ) (_ : j < 64) :
    (p &&& q).getLsbD j = (p.getLsbD j && q.getLsbD j) := BitVec.getLsbD_and

lemma or_bits (p q : BitVec 64) (j : ℕ) (_ : j < 64) :
    (p ||| q).getLsbD j = (p.getLsbD j || q.getLsbD j) := BitVec.getLsbD_or

lemma xor_bits (p q : BitVec 64) (j : ℕ) (_ : j < 64) :
    (p ^^^ q).getLsbD j = (p.getLsbD j ^^ q.getLsbD j) := BitVec.getLsbD_xor

lemma sub_bits (p q : BitVec 64) (j : ℕ) (hj : j < 64) :
    (p &&& ~~~q).getLsbD j = (p.getLsbD j && !q.getLsbD j) := by
  rw [BitVec.getLsbD_and, BitVec.getLsbD_not, decide_eq_true hj, Bool.true_and]

lemma Holds.combine (h : Holds vars vs) {b : Bitmap} {v : BitVector} (hx : vars[x]? = some b)
    (hb : b.Represents v) (hxy : SameSize vars x y)
    {f : BitVec 64 → BitVec 64 → BitVec 64} {g : Bool → Bool → Bool} (hg : g false false = false)
    (hfg : ∀ p q : BitVec 64, ∀ j < 64, (f p q).getLsbD j = g (p.getLsbD j) (q.getLsbD j)) :
    ∃ b' v', (vars[y]?).bind (b.combine f) = some b' ∧
      (vs[y]?).bind (fun w => some (v.zip w g)) = some v' ∧ b'.Represents v' := by
  obtain ⟨_, hy, hsize⟩ := hxy
  obtain ⟨c, w, hc, hw, hrep⟩ := h.get hy
  obtain ⟨b', hrun, h'⟩ := hb.combine hrep (hsize b hx c hc) hg hfg
  exact ⟨b', v.zip w g, by rw [hc]; exact hrun, by rw [hw]; rfl, h'⟩

lemma Holds.binary (h : Holds vars vs) (hxy : SameSize vars x y)
    {f : BitVec 64 → BitVec 64 → BitVec 64} {g : Bool → Bool → Bool} (hg : g false false = false)
    (hfg : ∀ p q : BitVec 64, ∀ j < 64, (f p q).getLsbD j = g (p.getLsbD j) (q.getLsbD j)) :
    ∃ b' v', (vars[x]?).bind (fun b => b.ofBitmap.bind fun b => (vars[y]?).bind (b.combine f)) =
        some b' ∧
      (vs[x]?).bind (fun v => (vs[y]?).bind fun w => some (v.zip w g)) = some v' ∧
      b'.Represents v' := by
  obtain ⟨b, v, hb, hv, hrep⟩ := h.get hxy.1
  obtain ⟨b', v', hrun, hspec, h'⟩ := h.combine hb hrep hxy hg hfg
  exact ⟨b', v', by rw [hb, Option.bind_some, hrep.ofBitmap]; exact hrun,
    by rw [hv]; exact hspec, h'⟩

lemma Expr.represents (h : Holds vars vs) (fuel : ℕ) {e : Expr} (hdef : e.Defined vars)
    (hsound : e.Sound vars) :
    ∃ b v, e.value fuel vars = some b ∧ e.vector vs = some v ∧ b.Represents v := by
  cases e with
  | ofSize size =>
    obtain ⟨b, hrun, hb⟩ := Bitmap.ofSize_represents hdef.1 hsound
    exact ⟨b, _, hrun, rfl, hb⟩
  | var x =>
    obtain ⟨b, v, hb, hv, hrep⟩ := h.get hdef
    refine ⟨b, v, ?_, hv, hrep⟩
    simp only [Expr.value, hb, Option.bind_eq_bind, Option.bind_some, hrep.ofBitmap]
  | not x =>
    obtain ⟨b, v, hb, hv, hrep⟩ := h.get hdef
    obtain ⟨b', hrun, h'⟩ := hrep.Flip (hsound b hb)
    refine ⟨b', v.complement, ?_, ?_, h'⟩
    · simp only [Expr.value, Bitmap.complement, hb, Option.bind_eq_bind, Option.bind_some,
        hrep.ofBitmap, hrun]
    · simp only [Expr.vector, hv]
      rfl
  | and x y => exact h.binary hdef rfl and_bits
  | or x y => exact h.binary hdef rfl or_bits
  | xor x y => exact h.binary hdef rfl xor_bits
  | sub x y => exact h.binary hdef rfl sub_bits
  | shl x n =>
    obtain ⟨b, v, hb, hv, hrep⟩ := h.get hdef
    obtain ⟨b', hrun, h'⟩ := hrep.shlAssign fuel (hsound b hb)
    refine ⟨b', v.up n, ?_, ?_, h'⟩
    · simp only [Expr.value, hb, Option.bind_eq_bind, Option.bind_some, hrep.ofBitmap, hrun]
    · simp only [Expr.vector, hv]
      rfl
  | shr x n =>
    obtain ⟨b, v, hb, hv, hrep⟩ := h.get hdef
    obtain ⟨b', hrun, h'⟩ := hrep.shrAssign n
    refine ⟨b', v.down n, ?_, ?_, h'⟩
    · simp only [Expr.value, hb, Option.bind_eq_bind, Option.bind_some, hrep.ofBitmap, hrun]
    · simp only [Expr.vector, hv]
      rfl

lemma Update.represents (h : Holds vars vs) (fuel : ℕ) {m : Update} {b : Bitmap} {v : BitVector}
    (hx : vars[x]? = some b) (hb : b.Represents v) (hdef : m.Defined vars x)
    (hsound : m.Sound vars x) :
    ∃ b' v', m.apply fuel vars b = some b' ∧ m.vector vs v = some v' ∧ b'.Represents v' := by
  cases m with
  | assign y =>
    obtain ⟨c, w, hc, hw, hrep⟩ := h.get hdef
    refine ⟨{ c with mask := b.mask }, w, ?_, hw, hrep.congr rfl rfl rfl⟩
    simp only [Update.apply, hc, Option.bind_eq_bind, Option.bind_some, hb.assign hrep]
  | SetAt at_ val =>
    obtain ⟨b', hrun, _, h'⟩ := hb.SetAt (hdef b hx) val
    exact ⟨b', _, hrun, rfl, h'⟩
  | Set =>
    obtain ⟨b', hrun, h'⟩ := hb.Set (hsound b hx)
    exact ⟨b', _, hrun, rfl, h'⟩
  | ResetAt at_ =>
    obtain ⟨b', hrun, _, h'⟩ := hb.SetAt (hdef b hx) false
    exact ⟨b', _, hrun, rfl, h'⟩
  | Reset =>
    obtain ⟨b', hrun, h'⟩ := hb.Reset
    exact ⟨b', _, hrun, rfl, h'⟩
  | FlipAt at_ =>
    obtain ⟨b', hrun, _, h'⟩ := hb.SetAt (hdef b hx) !v.bit at_
    refine ⟨b', _, ?_, rfl, h'⟩
    simp only [Update.apply, Bitmap.FlipAt, hb.Test (hdef b hx), Option.bind_eq_bind,
      Option.bind_some, hrun]
  | Flip =>
    obtain ⟨b', hrun, h'⟩ := hb.Flip (hsound b hx)
    exact ⟨b', _, hrun, rfl, h'⟩
  | andAssign y => exact h.combine hx hb hdef rfl and_bits
  | orAssign y => exact h.combine hx hb hdef rfl or_bits
  | xorAssign y => exact h.combine hx hb hdef rfl xor_bits
  | subAssign y => exact h.combine hx hb hdef rfl sub_bits
  | shlAssign n =>
    obtain ⟨b', hrun, h'⟩ := hb.shlAssign fuel (hsound b hx)
    exact ⟨b', _, hrun, rfl, h'⟩
  | shrAssign n =>
    obtain ⟨b', hrun, h'⟩ := hb.shrAssign n
    exact ⟨b', _, hrun, rfl, h'⟩

lemma Op.represents (h : Holds vars vs) (fuel : ℕ) {op : Op} (hdef : op.Defined vars)
    (hsound : op.Sound vars) :
    ∃ vars' vs', op.perform fuel vars = some vars' ∧ op.specify vs = some vs' ∧
      Holds vars' vs' := by
  cases op with
  | declare e =>
    obtain ⟨b, v, hrun, hspec, hrep⟩ := Expr.represents h fuel hdef hsound
    refine ⟨vars ++ [b], vs ++ [v], ?_, ?_, h.push hrep⟩
    · simp only [Op.perform, hrun]
      rfl
    · simp only [Op.specify, hspec]
      rfl
  | update x m =>
    obtain ⟨b, v, hb, hv, hrep⟩ := h.get hdef.1
    obtain ⟨b', v', hrun, hspec, h'⟩ := Update.represents h fuel hb hrep hdef.2 hsound
    refine ⟨vars.set x b', vs.set x v', ?_, ?_, h.set h' x⟩
    · simp only [Op.perform, hb, Option.bind_eq_bind, Option.bind_some, hrun]
      rfl
    · simp only [Op.specify, hv, Option.bind_eq_bind, Option.bind_some, hspec]
      rfl

end Steps

/-- The operation is one the code allows, and meets none of the slips. -/
def Op.Allowed (op : Op) (vars : List Bitmap) : Prop := op.Defined vars ∧ op.Sound vars

instance (op : Op) (vars : List Bitmap) : Decidable (op.Allowed vars) :=
  inferInstanceAs (Decidable (_ ∧ _))

/-- The variables are extensional bit vectors: each has the size and the bits of its vector,
with stored zeros from its size on, and `==` of two of one size says whether all bits agree. -/
structure Extensional (vars : List Bitmap) (vs : List BitVector) : Prop where
  length : vars.length = vs.length
  bits : ∀ (x : ℕ) (b : Bitmap) (v : BitVector), vars[x]? = some b → vs[x]? = some v →
    b.size = v.size ∧ (∀ i < b.size, b.Test i = some (v.bit i)) ∧
      ∀ i, b.size ≤ i → b.bit i = false
  equals : ∀ (x y : ℕ) (b c : Bitmap), vars[x]? = some b → vars[y]? = some c →
    b.size = c.size →
      ∃ r, b.equals c = some r ∧ (r = true ↔ ∀ i < b.size, b.Test i = c.Test i)

lemma Holds.extensional {vars : List Bitmap} {vs : List BitVector} (h : Holds vars vs) :
    Extensional vars vs where
  length := h.length
  bits x b v hb hv := by
    have hrep := h.represents hb hv
    refine ⟨hrep.size, fun i hi => hrep.Test hi, fun i hi => ?_⟩
    rw [hrep.bits, v.zero i (hrep.size ▸ hi)]
  equals x y b c hb hc hsize := by
    obtain ⟨hx, _⟩ := List.getElem?_eq_some_iff.mp hb
    obtain ⟨hy, _⟩ := List.getElem?_eq_some_iff.mp hc
    obtain ⟨_, v, hb', _, hrep⟩ := h.get hx
    obtain ⟨_, w, hc', _, hrep'⟩ := h.get hy
    obtain rfl := Option.some.inj (hb.symm.trans hb')
    obtain rfl := Option.some.inj (hc.symm.trans hc')
    exact hrep.equals hrep' hsize

/-- **Bitmaps are extensional bit vectors**: a program whose operations keep off the slips runs
to its end, and its variables are the bit vectors of the specification. -/
theorem bitmaps_extensional (fuel : ℕ) (ops : List Op)
    (h : Along (Op.perform fuel) Op.Allowed ops []) :
    ∃ vars vs, run (Op.perform fuel) ops [] = some vars ∧ run Op.specify ops [] = some vs ∧
      Extensional vars vs := by
  have hstep : ∀ op vars vs, Holds vars vs → op.Allowed vars →
      Option.Rel Holds (Op.perform fuel op vars) (op.specify vs) := by
    intro op vars vs hholds hallowed
    obtain ⟨vars', vs', hrun, hspec, h'⟩ := Op.represents hholds fuel hallowed.1 hallowed.2
    rw [hrun, hspec]
    exact .some h'
  have htotal : ∀ op vars, (∃ vs, Holds vars vs) → op.Allowed vars →
      ∃ vars', Op.perform fuel op vars = some vars' ∧ ∃ vs, Holds vars' vs := by
    intro op vars ⟨vs, hholds⟩ hallowed
    obtain ⟨vars', vs', hrun, _, h'⟩ := Op.represents hholds fuel hallowed.1 hallowed.2
    exact ⟨vars', hrun, vs', h'⟩
  obtain ⟨vars, hrun, _⟩ := run_total htotal ⟨[], Holds.nil⟩ h
  have hmatch := run_simulates hstep Holds.nil h
  rw [hrun] at hmatch
  cases hspec : run Op.specify ops [] with
  | none =>
    rw [hspec] at hmatch
    cases hmatch
  | some vs =>
    rw [hspec] at hmatch
    cases hmatch with
    | some hholds => exact ⟨vars, vs, hrun, rfl, hholds.extensional⟩

/-- A program within the condition: two assigned sizes, single bits, a complement and shifts. -/
theorem bitmaps_extensional_program :
    ∃ vars vs, run (Op.perform 0) [.declare (.ofSize 70), .declare (.ofSize 3),
        .update 1 (.SetAt 1 true), .declare (.not 1), .update 0 (.assign 2),
        .declare (.shr 0 1), .update 3 (.xorAssign 1)] [] = some vars ∧
      run Op.specify [.declare (.ofSize 70), .declare (.ofSize 3),
        .update 1 (.SetAt 1 true), .declare (.not 1), .update 0 (.assign 2),
        .declare (.shr 0 1), .update 3 (.xorAssign 1)] [] = some vs ∧
      Extensional vars vs :=
  bitmaps_extensional 0 _ (by decide +kernel)

/-- After `a = b` from size 1 to size 2, `a.Set()` leaves bit 1 clear; and `a <<= 1` on a
bitmap of size 2 never gives a result. -/
theorem Set_after_assign_and_shl :
    (∃ vars vs b v, run (Op.perform 0) [.declare (.ofSize 1), .declare (.ofSize 2),
        .update 0 (.assign 1), .update 0 .Set] [] = some vars ∧
      run Op.specify [.declare (.ofSize 1), .declare (.ofSize 2), .update 0 (.assign 1),
        .update 0 .Set] [] = some vs ∧
      Along (Op.perform 0) Op.Defined [.declare (.ofSize 1), .declare (.ofSize 2),
        .update 0 (.assign 1), .update 0 .Set] [] ∧
      vars[0]? = some b ∧ vs[0]? = some v ∧ b.Test 1 = some false ∧ v.bit 1 = true) ∧
    ∀ fuel, Along (Op.perform fuel) Op.Defined [.declare (.ofSize 2), .update 0 (.shlAssign 1)]
        [] ∧
      run (Op.perform fuel) [.declare (.ofSize 2), .update 0 (.shlAssign 1)] [] = none := by
  refine ⟨⟨[⟨2, 1, 1, [1]⟩, ⟨2, 1, 3, [0]⟩], [BitVector.ones 2, BitVector.zeros 2], _, _,
    by decide +kernel, rfl, by decide +kernel, rfl, rfl, by decide +kernel, rfl⟩,
    fun fuel => ?_⟩
  have hnew : Bitmap.ofSize 2 = some ⟨2, 1, 3, [0]⟩ := by decide +kernel
  have hdeclare : Op.perform fuel (.declare (.ofSize 2)) [] = some [⟨2, 1, 3, [0]⟩] := by
    simp only [Op.perform, Expr.value, hnew]
    rfl
  have hshift : Op.perform fuel (.update 0 (.shlAssign 1)) [⟨2, 1, 3, [0]⟩] = none := by
    have hnone := Bitmap.shlAssign_lt_size fuel ⟨2, 1, 3, [0]⟩ (show 1 < 2 by decide)
    simp only [Op.perform, Update.apply, List.getElem?_cons_zero, Option.bind_eq_bind,
      Option.bind_some, hnone, Option.bind_none]
  constructor
  · refine ⟨by decide, ?_⟩
    rw [hdeclare, Option.elim_some]
    refine ⟨by decide, ?_⟩
    rw [hshift]
    trivial
  · rw [run_cons, hdeclare, Option.bind_some, run_cons, hshift]
    rfl

end OISA.Cpp
