import Mathlib.Tactic

/-!
# Bits and bytes

Words, numbers and vectors of any size by their bits, and numbers by their bytes and digits.
-/

/-!
## Bits of a word

`1 <<< n` has the bit `n` alone and tests it.
-/

namespace OISA.Lib.Bits

variable {w : ℕ}

lemma getLsbD_one_shiftLeft {n j : ℕ} (h : n < w ∨ j < w) :
    (1#w <<< n).getLsbD j = decide (j = n) := by
  rw [← BitVec.twoPow_eq, BitVec.getLsbD_twoPow, ← Bool.decide_and]
  apply decide_eq_decide.mpr
  omega

lemma and_one_shiftLeft_ne_zero_iff (x : BitVec w) (n : ℕ) :
    x &&& 1#w <<< n ≠ 0#w ↔ x.getLsbD n = true := by
  rw [← BitVec.twoPow_eq, BitVec.and_twoPow]
  cases hbit : x.getLsbD n with
  | false => simp
  | true =>
    have hn : n < w := BitVec.lt_of_getLsbD hbit
    rw [if_pos rfl]
    refine iff_of_true ?_ rfl
    intro hzero
    have hget := congrArg (BitVec.getLsbD · n) hzero
    simp [hn] at hget

def IsLowest (x : BitVec w) (i : ℕ) : Prop :=
  x.getLsbD i = true ∧ ∀ j < i, x.getLsbD j = false

lemma exists_isLowest {x : BitVec w} (hx : x ≠ 0) : ∃ i < w, IsLowest x i := by
  have hbit : ∃ i, x.getLsbD i = true := by
    by_contra hno
    push Not at hno
    apply hx
    apply BitVec.eq_of_getLsbD_eq
    intro i _
    simpa using hno i
  refine ⟨Nat.find hbit, ?_, Nat.find_spec hbit, fun j hj => ?_⟩
  · by_contra hge
    have hspec := Nat.find_spec hbit
    rw [BitVec.getLsbD_of_ge _ _ (not_lt.mp hge)] at hspec
    exact absurd hspec (by decide)
  · exact Bool.eq_false_of_not_eq_true (Nat.find_min hbit hj)

lemma getLsbD_and_neg (x : BitVec w) (i : ℕ) :
    (x &&& -x).getLsbD i = true ↔ IsLowest x i := by
  rw [BitVec.getLsbD_and, BitVec.getLsbD_neg, IsLowest]
  by_cases hi : i < w
  · by_cases hex : ∃ j < i, x.getLsbD j = true
    · obtain ⟨j, hj, hxj⟩ := hex
      have hno : ¬∀ j < i, x.getLsbD j = false := fun hall => by
        rw [hall j hj] at hxj
        exact absurd hxj (by decide)
      have hdec : decide (∃ j < i, x.getLsbD j = true) = true := decide_eq_true ⟨j, hj, hxj⟩
      rw [hdec]
      simp only [hi, decide_true, Bool.and_true, hno, and_false, iff_false]
      cases x.getLsbD i <;> simp
    · have hall : ∀ j < i, x.getLsbD j = false := fun j hj =>
        Bool.eq_false_of_not_eq_true fun hxj => hex ⟨j, hj, hxj⟩
      have hdec : decide (∃ j < i, x.getLsbD j = true) = false := decide_eq_false hex
      rw [hdec]
      simp only [Bool.and_false, Bool.xor_false, Bool.and_self]
      exact ⟨fun h => ⟨h, hall⟩, fun h => h.1⟩
  · rw [BitVec.getLsbD_of_ge _ _ (not_lt.mp hi)]
    simp

lemma IsLowest.le {x : BitVec w} {i j : ℕ} (h : IsLowest x i) (hj : x.getLsbD j = true) :
    i ≤ j := by
  by_contra hlt
  rw [h.2 j (by omega)] at hj
  exact absurd hj (by decide)

lemma IsLowest.getLsbD_and_neg {x : BitVec w} {l : ℕ} (h : IsLowest x l) (i : ℕ) :
    (x &&& -x).getLsbD i = decide (i = l) := by
  rw [Bool.eq_iff_iff, Bits.getLsbD_and_neg, decide_eq_true_iff]
  constructor
  · intro h'
    exact le_antisymm (h'.le h.1) (h.le h'.1)
  · rintro rfl
    exact h

lemma IsLowest.lt_iff {x : BitVec w} {l : ℕ} (h : IsLowest x l) (i : ℕ) :
    i < l ↔ ∀ j ≤ i, x.getLsbD j = false := by
  constructor
  · intro hi j hj
    exact h.2 j (by omega)
  · intro hall
    by_contra hle
    have hset := h.1
    rw [hall l (by omega)] at hset
    exact absurd hset (by decide)

lemma getLsbD_and_neg_sub_one (x : BitVec w) (i : ℕ) :
    ((x &&& -x) - 1).getLsbD i = true ↔ i < w ∧ ∀ j ≤ i, x.getLsbD j = false := by
  have hsub : (x &&& -x) - 1 = ~~~(-(x &&& -x)) := (BitVec.not_neg _).symm
  by_cases hi : i < w
  · rw [hsub, BitVec.getLsbD_not, BitVec.getLsbD_neg]
    by_cases hx : x = 0
    · subst hx
      simp [hi]
    · obtain ⟨l, -, hl⟩ := exists_isLowest hx
      rw [← hl.lt_iff]
      simp only [hl.getLsbD_and_neg, hi, decide_true, Bool.true_and, true_and,
        decide_eq_true_eq, exists_eq_right]
      by_cases h1 : i = l
      · subst h1
        simp
      · by_cases h2 : l < i
        · simp [h1, h2]; omega
        · simp [h1, h2]; omega
  · rw [BitVec.getLsbD_of_ge _ _ (not_lt.mp hi)]
    simp [hi]

lemma getLsbD_mask {n j : ℕ} (hn : n ≤ w) (hj : j < w) :
    ((1#w <<< n) - 1#w).getLsbD j = decide (j < n) := by
  have hone : 1 % 2 ^ w = 1 := Nat.mod_eq_of_lt (Nat.one_lt_two_pow (by omega))
  have hnat : ((1#w <<< n) - 1#w).toNat = 2 ^ n - 1 := by
    rw [BitVec.toNat_sub, BitVec.toNat_shiftLeft, BitVec.toNat_ofNat, hone, Nat.shiftLeft_eq,
      one_mul]
    have hw : 1 < 2 ^ w := Nat.one_lt_two_pow (by omega)
    rcases hn.eq_or_lt with rfl | hlt
    · rw [Nat.mod_self, Nat.add_zero, Nat.mod_eq_of_lt (by omega)]
    · have hpow : 2 ^ n < 2 ^ w := Nat.pow_lt_pow_right (by norm_num) hlt
      have hpos : 0 < 2 ^ n := Nat.two_pow_pos n
      have hsum : 2 ^ w - 1 + 2 ^ n = 2 ^ n - 1 + 2 ^ w := by omega
      rw [Nat.mod_eq_of_lt hpow, hsum, Nat.add_mod_right, Nat.mod_eq_of_lt (by omega)]
  rw [BitVec.getLsbD, hnat, Nat.testBit_two_pow_sub_one]

lemma getLsbD_mask_shiftLeft {n o j : ℕ} (hn : n + o ≤ w) (hj : j < w) :
    (((1#w <<< n) - 1#w) <<< o).getLsbD j = decide (o ≤ j ∧ j < o + n) := by
  rw [BitVec.getLsbD_shiftLeft]
  by_cases hle : j < o
  · rw [decide_eq_true hle, decide_eq_false (p := o ≤ j ∧ j < o + n) (by omega)]
    simp
  · rw [getLsbD_mask (by omega) (by omega), decide_eq_true hj, decide_eq_false hle, Bool.not_false,
      Bool.and_true, Bool.true_and]
    exact decide_eq_decide.mpr (by omega)

lemma getLsbD_insert (x v : BitVec w) {n o j : ℕ} (hn : n + o ≤ w) (hj : j < w) :
    (x &&& ~~~(((1#w <<< n) - 1#w) <<< o) |||
      ((v <<< o) &&& (((1#w <<< n) - 1#w) <<< o))).getLsbD j =
      if o ≤ j ∧ j < o + n then v.getLsbD (j - o) else x.getLsbD j := by
  rw [BitVec.getLsbD_or, BitVec.getLsbD_and, BitVec.getLsbD_and, BitVec.getLsbD_not,
    getLsbD_mask_shiftLeft hn hj, decide_eq_true hj, BitVec.getLsbD_shiftLeft]
  by_cases hin : o ≤ j ∧ j < o + n
  · rw [if_pos hin, decide_eq_true hin, decide_eq_true hj, decide_eq_false (by omega : ¬j < o)]
    simp
  · rw [if_neg hin, decide_eq_false hin]
    simp

lemma getLsbD_extract (x : BitVec w) {n o : ℕ} (j : ℕ) (hn : n + o ≤ w) :
    ((x &&& (((1#w <<< n) - 1#w) <<< o)) >>> o).getLsbD j =
      (decide (j < n) && x.getLsbD (o + j)) := by
  rw [BitVec.getLsbD_ushiftRight, BitVec.getLsbD_and]
  by_cases hlt : j < n
  · rw [getLsbD_mask_shiftLeft hn (by omega), decide_eq_true hlt,
      decide_eq_true (p := o ≤ o + j ∧ o + j < o + n) (by omega), Bool.and_true, Bool.true_and]
  · rw [decide_eq_false hlt, Bool.false_and]
    by_cases hw : o + j < w
    · rw [getLsbD_mask_shiftLeft hn hw,
        decide_eq_false (p := o ≤ o + j ∧ o + j < o + n) (by omega), Bool.and_false]
    · rw [BitVec.getLsbD_of_ge _ _ (by omega), Bool.false_and]

end OISA.Lib.Bits

/-!
## Bit fields of a number

`fields ws n` cuts a number into fields of the widths `ws`, the lowest first.
-/

namespace OISA.Lib

def fields : List ℕ → ℕ → List ℕ
  | [], _ => []
  | w :: ws, n => n % 2 ^ w :: fields ws (n / 2 ^ w)

lemma fields_cons (w : ℕ) (ws : List ℕ) (n : ℕ) :
    fields (w :: ws) n = n % 2 ^ w :: fields ws (n / 2 ^ w) := rfl

lemma fields_add_mul (ws : List ℕ) (n p : ℕ) : fields ws (n + 2 ^ ws.sum * p) = fields ws n := by
  induction ws generalizing n with
  | nil => rfl
  | cons w ws ih =>
    have hpow : 2 ^ (w :: ws).sum * p = 2 ^ w * (2 ^ ws.sum * p) := by
      rw [List.sum_cons, pow_add, mul_assoc]
    rw [fields_cons, fields_cons, hpow, Nat.add_mul_mod_self_left,
      Nat.add_mul_div_left _ _ (Nat.two_pow_pos w), ih]

/-- Numbers in range are determined by their fields. -/
theorem fields_injective {ws : List ℕ} {n m : ℕ} (hn : n < 2 ^ ws.sum) (hm : m < 2 ^ ws.sum)
    (h : fields ws n = fields ws m) : n = m := by
  induction ws generalizing n m with
  | nil =>
    rw [List.sum_nil, pow_zero, Nat.lt_one_iff] at hn hm
    rw [hn, hm]
  | cons w ws ih =>
    rw [List.sum_cons, pow_add] at hn hm
    rw [fields_cons, fields_cons, List.cons.injEq] at h
    have hdiv := ih (Nat.div_lt_of_lt_mul hn) (Nat.div_lt_of_lt_mul hm) h.2
    rw [← Nat.div_add_mod n (2 ^ w), ← Nat.div_add_mod m (2 ^ w), h.1, hdiv]

def Within : List ℕ → List ℕ → ℕ → Prop
  | w :: ws, l :: ls, m => (2 ^ w ≤ l ∨ m < l) ∧ Within ws ls (m / 2 ^ w)
  | _, _, _ => True

def Below : List ℕ → List ℕ → Prop
  | f :: fs, l :: ls => f < l ∧ Below fs ls
  | _, _ => True

/-- **Limits of fields**: the fields of all numbers up to `m` stay below the limits. -/
theorem below_fields_iff (ws ls : List ℕ) (m : ℕ) :
    (∀ n ≤ m, Below (fields ws n) ls) ↔ Within ws ls m := by
  induction ws generalizing ls m with
  | nil => exact ⟨fun _ => trivial, fun _ _ _ => trivial⟩
  | cons w ws ih =>
    cases ls with
    | nil => exact ⟨fun _ => trivial, fun _ _ _ => trivial⟩
    | cons l ls =>
      rw [Within, ← ih]
      constructor
      · intro h
        refine ⟨?_, fun k hk => ?_⟩
        · by_contra hno
          rw [not_or, not_le, not_lt] at hno
          have hlow := (h l hno.2).1
          rw [Nat.mod_eq_of_lt hno.1] at hlow
          exact lt_irrefl l hlow
        · -- the number with the low field zero reaches the quotient `k`
          have hle : 2 ^ w * k ≤ m := (Nat.mul_le_mul_left _ hk).trans (Nat.mul_div_le m _)
          have hbelow := (h (2 ^ w * k) hle).2
          rwa [Nat.mul_div_cancel_left _ (Nat.two_pow_pos w)] at hbelow
      · rintro ⟨hlow, hrest⟩ n hn
        refine ⟨?_, hrest _ (Nat.div_le_div_right hn)⟩
        rcases hlow with hwide | hsmall
        · exact (Nat.mod_lt _ (Nat.two_pow_pos w)).trans_le hwide
        · exact (Nat.mod_le _ _).trans_lt (hn.trans_lt hsmall)

instance Within.decidable : (ws ls : List ℕ) → (m : ℕ) → Decidable (Within ws ls m)
  | w :: ws, l :: ls, m =>
    have := Within.decidable ws ls (m / 2 ^ w)
    inferInstanceAs (Decidable ((2 ^ w ≤ l ∨ m < l) ∧ Within ws ls (m / 2 ^ w)))
  | [], _, _ => inferInstanceAs (Decidable True)
  | _ :: _, [], _ => inferInstanceAs (Decidable True)

end OISA.Lib

/-!
## Bit vectors of any size

A `BitVector` is a size and a bit for each position, false from the size on, so that two vectors
are equal when their sizes are and their bits agree below the size.
-/

namespace OISA.Lib

structure BitVector where
  size : ℕ
  bit : ℕ → Bool
  zero : ∀ i, size ≤ i → bit i = false

namespace BitVector

/-- Extensionality: the bits below the size decide. -/
theorem ext_iff_of_size {v w : BitVector} (hsize : v.size = w.size) :
    v = w ↔ ∀ i < v.size, v.bit i = w.bit i := by
  constructor
  · rintro rfl i _
    rfl
  · intro h
    obtain ⟨n, f, hf⟩ := v
    obtain ⟨m, g, hg⟩ := w
    obtain rfl : n = m := hsize
    obtain rfl : f = g := by
      funext i
      by_cases hi : i < n
      · exact h i hi
      · rw [hf i (not_lt.mp hi), hg i (not_lt.mp hi)]
    rfl

lemma ext_of_lt {v w : BitVector} (hsize : v.size = w.size)
    (h : ∀ i < v.size, v.bit i = w.bit i) : v = w := (ext_iff_of_size hsize).mpr h

def ofFn (n : ℕ) (f : ℕ → Bool) : BitVector :=
  ⟨n, fun i => decide (i < n) && f i, fun i hi => by
    rw [decide_eq_false (not_lt.mpr hi), Bool.false_and]⟩

@[simp] lemma size_ofFn (n : ℕ) (f : ℕ → Bool) : (ofFn n f).size = n := rfl

@[simp] lemma bit_ofFn (n : ℕ) (f : ℕ → Bool) (i : ℕ) :
    (ofFn n f).bit i = (decide (i < n) && f i) := rfl

/-- All bits zero. -/
def zeros (n : ℕ) : BitVector := ofFn n fun _ => false

def ones (n : ℕ) : BitVector := ofFn n fun _ => true

variable (v w : BitVector)

def put (at_ : ℕ) (val : Bool) : BitVector := ofFn v.size (Function.update v.bit at_ val)

def complement : BitVector := ofFn v.size fun i => !v.bit i

def zip (f : Bool → Bool → Bool) : BitVector := ofFn v.size fun i => f (v.bit i) (w.bit i)

def up (n : ℕ) : BitVector := ofFn v.size fun i => decide (n ≤ i) && v.bit (i - n)

def down (n : ℕ) : BitVector := ofFn v.size fun i => v.bit (i + n)

lemma bit_put {v : BitVector} {n : ℕ} (h : n < v.size) (val : Bool) (i : ℕ) :
    (v.put n val).bit i = if i = n then val else v.bit i := by
  rw [put, bit_ofFn]
  by_cases hi : i = n
  · subst hi
    rw [Function.update_self, if_pos rfl, decide_eq_true h, Bool.true_and]
  · rw [Function.update_of_ne hi, if_neg hi]
    by_cases hlt : i < v.size
    · rw [decide_eq_true hlt, Bool.true_and]
    · rw [v.zero i (not_lt.mp hlt), Bool.and_false]

lemma bit_zip {v w : BitVector} {f : Bool → Bool → Bool} (hf : f false false = false)
    (hsize : v.size = w.size) (i : ℕ) : (v.zip w f).bit i = f (v.bit i) (w.bit i) := by
  rw [zip, bit_ofFn]
  by_cases hlt : i < v.size
  · rw [decide_eq_true hlt, Bool.true_and]
  · rw [v.zero i (not_lt.mp hlt), w.zero i (by omega), hf, Bool.and_false]

lemma up_of_le {n : ℕ} (h : v.size ≤ n) : v.up n = zeros v.size := by
  refine ext_of_lt rfl fun i hi => ?_
  have hlt : ¬n ≤ i := not_le.mpr (lt_of_lt_of_le hi h)
  simp [up, zeros, hlt]

lemma down_of_le {n : ℕ} (h : v.size ≤ n) : v.down n = zeros v.size := by
  refine ext_of_lt rfl fun i _ => ?_
  simp [down, zeros, v.zero (i + n) (by omega)]

end BitVector

end OISA.Lib

/-!
## Numbers in bytes

The lowest byte is the first one. A number that does not fit is cut.
-/

namespace OISA.Lib

lemma digits_inj {m a b a' b' : ℕ} (hb : b < m) (hb' : b' < m) (h : a * m + b = a' * m + b') :
    a = a' ∧ b = b' := by
  have hm : 0 < m := Nat.zero_lt_of_lt hb
  obtain ⟨hdiv, hmod⟩ := (Nat.div_mod_unique hm).mpr ⟨(by ring : b + m * a = a * m + b), hb⟩
  obtain ⟨hdiv', hmod'⟩ := (Nat.div_mod_unique hm).mpr ⟨(by ring : b' + m * a' = a' * m + b'), hb'⟩
  rw [h] at hdiv hmod
  exact ⟨hdiv.symm.trans hdiv', hmod.symm.trans hmod'⟩

def leBytes : ℕ → ℕ → List UInt8
  | 0, _ => []
  | width + 1, n => UInt8.ofNat n :: leBytes width (n / 256)

def leNat : List UInt8 → ℕ
  | [] => 0
  | byte :: bytes => byte.toNat + 256 * leNat bytes

@[simp] lemma length_leBytes (width n : ℕ) : (leBytes width n).length = width := by
  induction width generalizing n with
  | zero => rfl
  | succ width ih => rw [leBytes, List.length_cons, ih]

lemma leNat_leBytes (width n : ℕ) : leNat (leBytes width n) = n % 256 ^ width := by
  induction width generalizing n with
  | zero => rw [leBytes, leNat, pow_zero, Nat.mod_one]
  | succ width ih =>
    have hmod : n % 256 ^ (width + 1) = n % 256 + 256 * (n / 256 % 256 ^ width) := by
      rw [pow_succ', Nat.mod_mul]
    rw [leBytes, leNat, ih, UInt8.toNat_ofNat', hmod]

lemma leNat_leBytes_of_lt {width n : ℕ} (h : n < 256 ^ width) : leNat (leBytes width n) = n := by
  rw [leNat_leBytes, Nat.mod_eq_of_lt h]

end OISA.Lib

/-!
## Lanes of a word

A word as a sequence of lanes of the same width, the lowest one first.
-/

namespace OISA.Lib

variable {n w : ℕ}

def lane (w : ℕ) (x : BitVec n) (i : ℕ) : BitVec w := x.extractLsb' (w * i) w

def ofLanes (n : ℕ) {w : ℕ} (lanes : ℕ → BitVec w) : BitVec n :=
  (BitVec.ofBoolListLE ((List.range n).map fun j => (lanes (j / w)).getLsbD (j % w))).setWidth n

def setLane (x : BitVec n) (i : ℕ) (value : BitVec w) : BitVec n :=
  ofLanes n (Function.update (lane w x) i value)

lemma getLsbD_lane (x : BitVec n) (i j : ℕ) :
    (lane w x i).getLsbD j = (decide (j < w) && x.getLsbD (w * i + j)) :=
  BitVec.getLsbD_extractLsb' ..

lemma lane_zero (i : ℕ) : lane w (0 : BitVec n) i = 0 := by
  apply BitVec.eq_of_getLsbD_eq
  intro j _
  simp [getLsbD_lane]

lemma getLsbD_eq_lane (hw : 0 < w) (x : BitVec n) (j : ℕ) :
    x.getLsbD j = (lane w x (j / w)).getLsbD (j % w) := by
  rw [getLsbD_lane, decide_eq_true (Nat.mod_lt _ hw), Bool.true_and, Nat.div_add_mod]

lemma getLsbD_ofLanes (lanes : ℕ → BitVec w) {j : ℕ} (hj : j < n) :
    (ofLanes n lanes).getLsbD j = (lanes (j / w)).getLsbD (j % w) := by
  rw [ofLanes, BitVec.getLsbD_setWidth, decide_eq_true hj, Bool.true_and,
    BitVec.getLsbD_ofBoolListLE, List.getD_eq_getElem?_getD, List.getElem?_map,
    List.getElem?_range hj]
  rfl

lemma lane_ofLanes (lanes : ℕ → BitVec w) {i : ℕ} (hi : w * (i + 1) ≤ n) :
    lane w (ofLanes n lanes) i = lanes i := by
  apply BitVec.eq_of_getLsbD_eq
  intro j hj
  have hw : 0 < w := by omega
  have hlt : w * i + j < n := by
    rw [Nat.mul_add] at hi
    omega
  rw [getLsbD_lane, decide_eq_true hj, Bool.true_and, getLsbD_ofLanes lanes hlt,
    Nat.mul_add_div hw, Nat.div_eq_of_lt hj, Nat.add_zero, Nat.mul_add_mod, Nat.mod_eq_of_lt hj]

lemma lane_ext (hw : 0 < w) {count : ℕ} (hn : n ≤ w * count) {x y : BitVec n}
    (h : ∀ i < count, lane w x i = lane w y i) : x = y := by
  apply BitVec.eq_of_getLsbD_eq
  intro j hj
  rw [getLsbD_eq_lane hw x, getLsbD_eq_lane hw y, h (j / w) (Nat.div_lt_of_lt_mul (by omega))]

lemma lane_setLane (x : BitVec n) (k : ℕ) (value : BitVec w) {i : ℕ} (hi : w * (i + 1) ≤ n) :
    lane w (setLane x k value) i = if i = k then value else lane w x i := by
  rw [setLane, lane_ofLanes _ hi, Function.update_apply]

end OISA.Lib
