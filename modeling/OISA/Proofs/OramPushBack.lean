import OISA.Proofs.OramRuns

/-!
# The level of a block

`PushBack` chooses the deepest level at which the walks to the two leaves visit the same
bucket and that bucket is not full.
-/

namespace OISA.Primitives

open OISA.Lib OISA.Lib.Traced OISA.Lib.Bits

variable {p : OramParams}

lemma pushBackDiff_root {leaf leaf' : ℕ} (hleaf : leaf < p.numLeaves)
    (hleaf' : leaf' < p.numLeaves) : (pushBackDiff p leaf leaf').getLsbD 0 = false := by
  have hD := p.depth_le_fifteen
  have hpos := p.depth_pos
  rw [p.numLeaves_eq] at hleaf hleaf'
  rw [pushBackDiff, BitVec.getLsbD_xor, getLsbD_bitwiseReverse _ _ (by omega),
    getLsbD_bitwiseReverse _ _ (by omega), decide_eq_true (by omega), Bool.true_and,
    Bool.true_and, BitVec.ofInt_natCast, BitVec.getLsbD_ofNat, BitVec.getLsbD_ofNat,
    Nat.sub_zero, Nat.testBit_lt_two_pow hleaf, Nat.testBit_lt_two_pow hleaf']
  simp

lemma diff_of_walkBucket_eq {leaf leaf' l : ℕ} (hleaf : leaf < p.numLeaves)
    (hleaf' : leaf' < p.numLeaves) (hl : l < p.depth)
    (h : walkBucket p leaf l = walkBucket p leaf' l) :
    ∀ j ≤ l, (pushBackDiff p leaf leaf').getLsbD j = false := by
  have hD := p.depth_le_fifteen
  intro j hj
  rcases Nat.eq_zero_or_pos j with rfl | hj0
  · exact pushBackDiff_root hleaf hleaf'
  have habove := walkBucket_eq_above hleaf hleaf' hl hj h
  rw [walkBucket_eq hleaf (by omega), walkBucket_eq hleaf' (by omega)] at habove
  rw [p.numLeaves_eq] at habove hleaf hleaf'
  have hbit : leaf.testBit (p.depth - 1 - j) = leaf'.testBit (p.depth - 1 - j) := by
    have hb := congrArg (fun x => Nat.testBit x 0) habove
    simp only [Nat.testBit_div_two_pow, Nat.zero_add] at hb
    rwa [Nat.testBit_two_pow_add_gt (by omega), Nat.testBit_two_pow_add_gt (by omega)] at hb
  rw [pushBackDiff, BitVec.getLsbD_xor, getLsbD_bitwiseReverse _ _ (by omega),
    getLsbD_bitwiseReverse _ _ (by omega), decide_eq_true (by omega), Bool.true_and,
    Bool.true_and, BitVec.ofInt_natCast, BitVec.getLsbD_ofNat, BitVec.getLsbD_ofNat, hbit]
  simp

structure Fit (p : OramParams) (leaf leaf' : ℕ) (m : Mem OramArr) (l : ℕ) : Prop where
  lt : l < p.depth
  shared : walkBucket p leaf l = walkBucket p leaf' l
  free : m.get .occupied l < p.bucketSize

lemma fit_iff {leaf leaf' : ℕ} {m : Mem OramArr} (hleaf : leaf < p.numLeaves)
    (hleaf' : leaf' < p.numLeaves) (hocc : ∀ l < p.depth, m.get .occupied l ≤ p.bucketSize)
    (l : ℕ) (hl : l < p.depth) :
    (((pushBackDiff p leaf leaf' &&& -pushBackDiff p leaf leaf') - 1) &&&
      ~~~(fullMask p p.depth).val m).getLsbD l = true ↔ Fit p leaf leaf' m l := by
  have hD := p.depth_le_fifteen
  have hle := hocc l hl
  rw [BitVec.getLsbD_and, Bool.and_eq_true, getLsbD_and_neg_sub_one, BitVec.getLsbD_not,
    getLsbD_fullMask p p.depth (by omega)]
  constructor
  · rintro ⟨⟨-, hcommon⟩, hfree⟩
    refine ⟨hl, walkBucket_eq_of_diff hleaf hleaf' hl (.inr hcommon), ?_⟩
    have hne : m.get .occupied l ≠ p.bucketSize := fun h => by simp [hl, h] at hfree
    omega
  · rintro ⟨-, hshared, hfree⟩
    refine ⟨⟨by omega, diff_of_walkBucket_eq hleaf hleaf' hl hshared⟩, ?_⟩
    have hne : m.get .occupied l ≠ p.bucketSize := by omega
    have hl32 : l < 32 := by omega
    simp [hl32, hne]

/-- `PushBack` gives the deepest level that fits, and -1 if there is none. -/
theorem pushBack_deepest {leaf leaf' : ℕ} {m : Mem OramArr} (hleaf : leaf < p.numLeaves)
    (hleaf' : leaf' < p.numLeaves) (hocc : ∀ l < p.depth, m.get .occupied l ≤ p.bucketSize) :
    ((pushBack p leaf leaf' p.depth).val m = -1 ∧ ∀ l : ℕ, ¬ Fit p leaf leaf' m l) ∨
      ∃ l : ℕ, (pushBack p leaf leaf' p.depth).val m = (l : ℤ) ∧ Fit p leaf leaf' m l ∧
        ∀ l' : ℕ, Fit p leaf leaf' m l' → l' ≤ l := by
  have hD := p.depth_le_fifteen
  have hpos := p.depth_pos
  have hfit := fit_iff hleaf hleaf' hocc
  have hmask : (pushBackDiff p leaf leaf' &&& -pushBackDiff p leaf leaf') - 1 ≠ 0 := by
    intro h0
    have hbit := (getLsbD_and_neg_sub_one (pushBackDiff p leaf leaf') 0).mpr
      ⟨by omega, fun j hj => by rw [Nat.le_zero.mp hj]; exact pushBackDiff_root hleaf hleaf'⟩
    rw [h0] at hbit
    simp at hbit
  rw [val_pushBack_eq, if_neg fun h => hmask h.1, pushBackTop]
  generalize hw : ((pushBackDiff p leaf leaf' &&& -pushBackDiff p leaf leaf') - 1) &&&
    ~~~(fullMask p p.depth).val m = w at hfit ⊢
  set t5 := bitwiseReverse w p.depth with ht5
  have hrev : ∀ q, t5.getLsbD q = (decide (q < p.depth) && w.getLsbD (p.depth - 1 - q)) :=
    fun q => getLsbD_bitwiseReverse _ _ (by omega) q
  by_cases h5 : t5 = 0
  · left
    have hzero : bitwiseReverse (t5 &&& -t5) p.depth = 0 := by
      apply BitVec.eq_of_getLsbD_eq
      intro i _
      rw [getLsbD_bitwiseReverse _ _ (by omega), h5]
      simp
    refine ⟨if_pos hzero, fun l hl => ?_⟩
    have hbit := (hfit l hl.lt).mpr hl
    have hq := hrev (p.depth - 1 - l)
    have hlt := hl.lt
    rw [h5, decide_eq_true (by omega), Bool.true_and, (by omega : p.depth - 1 -
      (p.depth - 1 - l) = l), hbit] at hq
    simp at hq
  · right
    obtain ⟨q, -, hlow⟩ := exists_isLowest h5
    have hqbit := hlow.1
    rw [hrev, Bool.and_eq_true, decide_eq_true_eq] at hqbit
    obtain ⟨hqD, hbit⟩ := hqbit
    have hsingle : ∀ i < 32, (bitwiseReverse (t5 &&& -t5) p.depth).getLsbD i =
        decide (i = p.depth - 1 - q) := by
      intro i _
      rw [getLsbD_bitwiseReverse _ _ (by omega), hlow.getLsbD_and_neg]
      by_cases hi : i < p.depth
      · rw [decide_eq_true hi, Bool.true_and]
        exact decide_eq_decide.mpr (by omega)
      · rw [decide_eq_false hi, Bool.false_and, decide_eq_false (by omega)]
    have hne : bitwiseReverse (t5 &&& -t5) p.depth ≠ 0 := by
      intro h0
      have hself := hsingle (p.depth - 1 - q) (by omega)
      rw [h0] at hself
      simp at hself
    refine ⟨p.depth - 1 - q, ?_, (hfit _ (by omega)).mp hbit, fun l' hl' => ?_⟩
    · rw [if_neg hne, log2_of_single (by omega) hsingle]
    · have hlt := hl'.lt
      have hset : t5.getLsbD (p.depth - 1 - l') = true := by
        rw [hrev, decide_eq_true (by omega), Bool.true_and,
          (by omega : p.depth - 1 - (p.depth - 1 - l') = l')]
        exact (hfit l' hlt).mpr hl'
      have hle := hlow.le hset
      omega

theorem pushBack_deepest_zeroMem :
    ((pushBack smallOram 0 1 smallOram.depth).val zeroMem = -1 ∧
        ∀ l : ℕ, ¬ Fit smallOram 0 1 zeroMem l) ∨
      ∃ l : ℕ, (pushBack smallOram 0 1 smallOram.depth).val zeroMem = (l : ℤ) ∧
        Fit smallOram 0 1 zeroMem l ∧ ∀ l' : ℕ, Fit smallOram 0 1 zeroMem l' → l' ≤ l :=
  pushBack_deepest (by decide +kernel) (by decide +kernel) (by decide +kernel)

end OISA.Primitives
