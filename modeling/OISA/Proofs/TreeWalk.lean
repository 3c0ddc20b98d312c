import OISA.Lib.Bits
import OISA.Primitives.PathOram

/-!
# The walks of the tree ORAM

Both walks visit, at level `i`, the bucket numbered by a leading one and the first `i` bits of the
leaf.
-/

namespace OISA.Primitives

open OISA.Lib OISA.Lib.Traced OISA.Lib.Bits

lemma mod_two_congr {a b : ℕ} (h : a % 2 = 1 ↔ b % 2 = 1) : a % 2 = b % 2 := by
  omega

lemma reverseLoop_snd (v : BitVec 32) (L : ℕ) : (reverseLoop v L).2 = v >>> L := by
  induction L with
  | zero => simp [reverseLoop]
  | succ L ih =>
    rw [reverseLoop, ih]
    apply BitVec.eq_of_toNat_eq
    simp [Nat.shiftRight_eq_div_pow, pow_succ, Nat.div_div_eq_div_mul]

lemma getLsbD_mod_two (x : BitVec 32) (i : ℕ) :
    (x % 2).getLsbD i = (decide (i = 0) && x.getLsbD 0) := by
  have hmod : (x % 2).toNat = x.toNat % 2 := by simp
  rw [← BitVec.testBit_toNat, hmod, ← Nat.pow_one 2, Nat.testBit_mod_two_pow,
    BitVec.testBit_toNat]
  by_cases hi : i = 0
  · subst hi; simp
  · simp [hi]

lemma getLsbD_bitwiseReverse (v : BitVec 32) (L : ℕ) (hL : L ≤ 32) (i : ℕ) :
    (bitwiseReverse v L).getLsbD i = (decide (i < L) && v.getLsbD (L - 1 - i)) := by
  unfold bitwiseReverse
  induction L generalizing i with
  | zero => simp [reverseLoop]
  | succ L ih =>
    have hdisj : (reverseLoop v L).1 <<< 1 &&& (v >>> L) % 2 = 0#32 := by
      apply BitVec.eq_of_getLsbD_eq
      intro j _
      rw [BitVec.getLsbD_and, BitVec.getLsbD_shiftLeft, getLsbD_mod_two]
      by_cases hj : j = 0
      · simp [hj]
      · simp [hj]
    rw [reverseLoop, reverseLoop_snd, BitVec.add_eq_or_of_and_eq_zero _ _ hdisj,
      BitVec.getLsbD_or, BitVec.getLsbD_shiftLeft, getLsbD_mod_two, BitVec.getLsbD_ushiftRight]
    by_cases hi : i = 0
    · subst hi
      simp
    · rw [ih (by omega)]
      have h1 : i - 1 < L ↔ i < L + 1 := by omega
      have h2 : L - 1 - (i - 1) = L + 1 - 1 - i := by omega
      by_cases h32 : i < 32
      · simp [hi, h1, h2, h32]
      · have h3 : ¬ i < L + 1 := by omega
        simp [hi, h32, h3]

lemma log2Loop_eq (v : BitVec 32) : log2Loop v = Nat.log2 v.toNat := by
  induction hn : v.toNat using Nat.strong_induction_on generalizing v with
  | h n ih =>
    rw [log2Loop]
    have hshift : (v >>> 1).toNat = v.toNat / 2 := by simp [Nat.shiftRight_eq_div_pow]
    have hzero : v >>> 1 ≠ 0 ↔ v.toNat / 2 ≠ 0 := by
      rw [← hshift, Ne, Ne, BitVec.toNat_eq]
      simp
    rw [Nat.log2_def]
    by_cases h2 : v.toNat / 2 = 0
    · rw [if_neg (by rw [hzero]; omega), if_neg (by omega)]
    · rw [if_pos (hzero.mpr h2), ih (n / 2) (by omega) (v >>> 1) (by rw [hshift, hn]),
        if_pos (by omega)]

lemma log2_of_single {v : BitVec 32} {l : ℕ} (hl : l < 31)
    (hv : ∀ i < 32, v.getLsbD i = decide (i = l)) : log2 v = l := by
  have hnat : v.toNat = 2 ^ l := by
    apply Nat.eq_of_testBit_eq
    intro i
    rw [BitVec.testBit_toNat, Nat.testBit_two_pow]
    by_cases hi : i < 32
    · rw [hv i hi]
      exact decide_eq_decide.mpr eq_comm
    · rw [BitVec.getLsbD_of_ge _ _ (not_lt.mp hi), decide_eq_false (by omega)]
  have hlt : 2 ^ l < 2 ^ 31 := Nat.pow_lt_pow_right (by omega) hl
  have hpos := Nat.two_pow_pos l
  have hshift : ((v <<< 1) - 1).toNat = 2 ^ (l + 1) - 1 := by
    have hpow : 2 ^ (l + 1) = 2 ^ l * 2 := pow_succ 2 l
    have hone : (1 : BitVec 32).toNat = 1 := rfl
    simp only [BitVec.toNat_sub, BitVec.toNat_shiftLeft, hnat, Nat.shiftLeft_eq, hone]
    omega
  rw [log2, log2Loop_eq, hshift]
  rw [Nat.log2_eq_iff (by rw [pow_succ]; omega)]
  rw [pow_succ]
  omega

section Walk

variable (p : OramParams)

lemma OramParams.depth_pos : 1 ≤ p.depth := by
  by_contra hzero
  have hlog : log2 (BitVec.ofNat 32 p.numRealBlocks) = 0 := by
    have := Nat.lt_one_iff.mp (not_le.mp hzero)
    exact this
  have hN := p.two_le_numRealBlocks
  have hN' := p.numRealBlocks_int
  rw [log2, log2Loop_eq] at hlog
  have hshift : ((BitVec.ofNat 32 p.numRealBlocks <<< 1) - 1).toNat =
      2 * p.numRealBlocks - 1 := by
    have hone : (1 : BitVec 32).toNat = 1 := rfl
    simp only [BitVec.toNat_sub, BitVec.toNat_shiftLeft, BitVec.toNat_ofNat, Nat.shiftLeft_eq,
      hone]
    omega
  rw [hshift] at hlog
  have hlt := Nat.lt_log2_self (n := 2 * p.numRealBlocks - 1)
  rw [hlog] at hlt
  omega

lemma OramParams.depth_le_fifteen : p.depth ≤ 15 := p.depth_le

lemma OramParams.numLeaves_eq : p.numLeaves = 2 ^ (p.depth - 1) := by
  rw [OramParams.numLeaves, Nat.shiftLeft_eq, Nat.one_mul]

lemma OramParams.numLeaves_pos : 0 < p.numLeaves := by
  rw [p.numLeaves_eq]
  exact Nat.two_pow_pos _

lemma OramParams.numLeaves_le : p.numLeaves ≤ 2 ^ 14 := by
  rw [p.numLeaves_eq]
  have := p.depth_le_fifteen
  exact Nat.pow_le_pow_right (by omega) (by omega)

lemma genRandLeaf_lt (r : ℕ) : genRandLeaf p r < p.numLeaves :=
  Nat.mod_lt _ p.numLeaves_pos

def walkBucket (leaf i : ℕ) : ℕ := (walkStep^[i] (walkStart p leaf)).1

@[simp] lemma walkBucket_zero (leaf : ℕ) : walkBucket p leaf 0 = 1 := rfl

lemma walkStep_iterate_snd (leaf i : ℕ) :
    (walkStep^[i] (walkStart p leaf)).2 = (walkStart p leaf).2 >>> i := by
  induction i with
  | zero => rfl
  | succ i ih => rw [Function.iterate_succ_apply', walkStep, ih, Nat.shiftRight_succ]

variable {p}

lemma walkBucket_eq {leaf i : ℕ} (hleaf : leaf < p.numLeaves) (hi : i < p.depth) :
    walkBucket p leaf i = (p.numLeaves + leaf) / 2 ^ (p.depth - 1 - i) := by
  have hD := p.depth_le_fifteen
  rw [p.numLeaves_eq] at hleaf ⊢
  induction i with
  | zero =>
    rw [walkBucket_zero, Nat.sub_zero, Nat.add_div_left _ (Nat.two_pow_pos _),
      Nat.div_eq_of_lt hleaf]
  | succ i ih =>
    have hdir : (walkStep^[i] (walkStart p leaf)).2 % 2 =
        leaf / 2 ^ (p.depth - 1 - (i + 1)) % 2 := by
      have hrev := getLsbD_bitwiseReverse (BitVec.ofNat 32 leaf) (p.depth - 1) (by omega) i
      have hidx : p.depth - 1 - 1 - i = p.depth - 1 - (i + 1) := by omega
      rw [hidx, BitVec.getLsbD_ofNat, decide_eq_true (by omega : i < p.depth - 1),
        decide_eq_true (by omega : p.depth - 1 - (i + 1) < 32), Bool.true_and, Bool.true_and,
        ← BitVec.testBit_toNat, Nat.testBit_eq_decide_div_mod_eq,
        Nat.testBit_eq_decide_div_mod_eq] at hrev
      rw [walkStep_iterate_snd, walkStart, Nat.shiftRight_eq_div_pow]
      exact mod_two_congr (decide_eq_decide.mp hrev)
    have hsplit : p.depth - 1 - i = p.depth - 1 - (i + 1) + 1 := by omega
    have hbig : (2 ^ (p.depth - 1) + leaf) / 2 ^ (p.depth - 1 - (i + 1)) % 2 =
        leaf / 2 ^ (p.depth - 1 - (i + 1)) % 2 := by
      have hpow : 2 ^ (p.depth - 1) = 2 ^ (p.depth - 1 - (i + 1)) * (2 * 2 ^ i) := by
        rw [← pow_succ', ← pow_add]
        congr 1
        omega
      rw [hpow, Nat.mul_add_div (Nat.two_pow_pos _), Nat.mul_add_mod]
    have hprev := ih (by omega)
    rw [hsplit, pow_succ, ← Nat.div_div_eq_div_mul] at hprev
    have hstep : walkBucket p leaf (i + 1) = walkBucket p leaf i * 2 +
        (walkStep^[i] (walkStart p leaf)).2 % 2 := by
      rw [walkBucket, Function.iterate_succ_apply']
      rfl
    rw [hstep, hprev, hdir, ← hbig]
    omega

lemma walkBucket_bounds {leaf i : ℕ} (hleaf : leaf < p.numLeaves) (hi : i < p.depth) :
    2 ^ i ≤ walkBucket p leaf i ∧ walkBucket p leaf i < 2 ^ (i + 1) := by
  rw [walkBucket_eq hleaf hi]
  rw [p.numLeaves_eq] at hleaf ⊢
  have hpow : 2 ^ (p.depth - 1) = 2 ^ i * 2 ^ (p.depth - 1 - i) := by
    rw [← pow_add]
    congr 1
    omega
  constructor
  · rw [Nat.le_div_iff_mul_le (Nat.two_pow_pos _), ← hpow]
    omega
  · rw [Nat.div_lt_iff_lt_mul (Nat.two_pow_pos _), pow_succ, Nat.mul_right_comm, ← hpow]
    omega

lemma walkBucket_level {leaf leaf' i j : ℕ} (hleaf : leaf < p.numLeaves)
    (hleaf' : leaf' < p.numLeaves) (hi : i < p.depth) (hj : j < p.depth)
    (h : walkBucket p leaf i = walkBucket p leaf' j) : i = j := by
  obtain ⟨h1, h2⟩ := walkBucket_bounds hleaf hi
  obtain ⟨h3, h4⟩ := walkBucket_bounds hleaf' hj
  have hij : i < j + 1 := (Nat.pow_lt_pow_iff_right (by omega : 1 < 2)).mp (by omega)
  have hji : j < i + 1 := (Nat.pow_lt_pow_iff_right (by omega : 1 < 2)).mp (by omega)
  omega

lemma walkBucket_eq_above {leaf leaf' i l : ℕ} (hleaf : leaf < p.numLeaves)
    (hleaf' : leaf' < p.numLeaves) (hl : l < p.depth) (hi : i ≤ l)
    (h : walkBucket p leaf l = walkBucket p leaf' l) :
    walkBucket p leaf i = walkBucket p leaf' i := by
  have habove : ∀ x, x / 2 ^ (p.depth - 1 - i) = x / 2 ^ (p.depth - 1 - l) / 2 ^ (l - i) := by
    intro x
    rw [Nat.div_div_eq_div_mul, ← pow_add]
    congr 2
    omega
  rw [walkBucket_eq hleaf hl, walkBucket_eq hleaf' hl] at h
  rw [walkBucket_eq hleaf (by omega), walkBucket_eq hleaf' (by omega), habove, habove, h]

end Walk

section PushBack

variable (p : OramParams)

/-- The word `t1` of `PushBack`: bit `i` is set when the labels part between the levels
`i - 1` and `i`. -/
def pushBackDiff (accessedLeaf : ℕ) (stashLeaf : ℤ) : BitVec 32 :=
  bitwiseReverse (BitVec.ofNat 32 accessedLeaf) p.depth ^^^
    bitwiseReverse (BitVec.ofInt 32 stashLeaf) p.depth

lemma exec_fullMask (L : ℕ) (m : Mem OramArr) : (fullMask p L).exec m = m := by
  have hinv := loop_invariant (fun _ (_ : BitVec 32) m' => m' = m)
    (fun i full => do
      let o ← load .occupied i
      pure (if o = p.bucketSize then full + 1#32 <<< i else full)) L 0 m rfl
    (fun i _ b m' h => by simpa using h)
  exact hinv

lemma exec_pushBack (accessedLeaf : ℕ) (stashLeaf : ℤ) (L : ℕ) (m : Mem OramArr) :
    (pushBack p accessedLeaf stashLeaf L).exec m = m := by
  simp only [pushBack, exec_bind, exec_fullMask]
  split <;> rfl

lemma getLsbD_fullMask (L : ℕ) (hL : L ≤ 32) (m : Mem OramArr) (i : ℕ) :
    ((fullMask p L).val m).getLsbD i =
      decide (i < L ∧ m.get .occupied i = p.bucketSize) := by
  have hinv := loop_invariant
    (fun n (full : BitVec 32) m' => m' = m ∧ ∀ i, full.getLsbD i =
      decide (i < n ∧ m.get .occupied i = p.bucketSize))
    (fun i full => do
      let o ← load .occupied i
      pure (if o = p.bucketSize then full + 1#32 <<< i else full)) L 0 m
    ⟨rfl, by simp⟩
    (fun n hn full m' ⟨hm, hbits⟩ => by
      subst hm
      refine ⟨rfl, fun i => ?_⟩
      have hone : 1#32 <<< n = BitVec.twoPow 32 n := rfl
      change (if m'.get .occupied n = p.bucketSize then full + 1#32 <<< n else full).getLsbD i = _
      by_cases hfull : m'.get .occupied n = p.bucketSize
      · have hdisj : full &&& BitVec.twoPow 32 n = 0#32 := by
          apply BitVec.eq_of_getLsbD_eq
          intro j _
          rw [BitVec.getLsbD_and, hbits, BitVec.getLsbD_twoPow]
          by_cases hj : n = j
          · subst hj; simp
          · simp [hj]
        rw [if_pos hfull, hone, BitVec.add_eq_or_of_and_eq_zero _ _ hdisj, BitVec.getLsbD_or,
          hbits, BitVec.getLsbD_twoPow]
        by_cases hi : n = i
        · subst hi
          simp [hfull, (by omega : n < 32)]
        · have hiff : i < n + 1 ↔ i < n := by omega
          simp [hi, hiff]
      · rw [if_neg hfull, hbits]
        by_cases hi : n = i
        · subst hi
          simp [hfull]
        · have hiff : i < n + 1 ↔ i < n := by omega
          simp [hiff])
  exact hinv.2 i

def pushBackTop (diff full : BitVec 32) : BitVec 32 :=
  let t5 := bitwiseReverse (((diff &&& -diff) - 1) &&& ~~~full) p.depth
  bitwiseReverse (t5 &&& -t5) p.depth

lemma val_pushBack_eq (accessedLeaf : ℕ) (stashLeaf : ℤ) (m : Mem OramArr) :
    (pushBack p accessedLeaf stashLeaf p.depth).val m =
      if (pushBackDiff p accessedLeaf stashLeaf &&& -pushBackDiff p accessedLeaf stashLeaf) - 1 = 0
          ∧ m.get .occupied 0 < p.bucketSize then 0
      else if pushBackTop p (pushBackDiff p accessedLeaf stashLeaf)
          ((fullMask p p.depth).val m) = 0 then -1
      else (log2 (pushBackTop p (pushBackDiff p accessedLeaf stashLeaf)
        ((fullMask p p.depth).val m)) : ℤ) := by
  unfold pushBack pushBackTop pushBackDiff
  simp only [val_bind, exec_fullMask]
  generalize bitwiseReverse (BitVec.ofNat 32 accessedLeaf) p.depth ^^^
    bitwiseReverse (BitVec.ofInt 32 stashLeaf) p.depth = t1
  generalize (t1 &&& -t1) - 1 = t3
  by_cases hroot : t3 = 0
  · rw [if_pos hroot]
    by_cases hocc : m.get .occupied 0 < p.bucketSize
    · simp only [val_bind, val_load, exec_load, val_pure, exec_pure, hocc, decide_true, if_true,
        hroot, and_self]
    · simp only [val_bind, val_load, exec_load, val_pure, exec_pure, hocc, decide_false,
        Bool.false_eq_true, if_false, and_false]
  · rw [if_neg hroot]
    simp only [val_bind, val_pure, exec_pure, Bool.false_eq_true, if_false, hroot, false_and]

/-- The level is -1, or the root, or a level at or above which the labels do not part; in
the last two cases its bucket is not full. -/
lemma val_pushBack (accessedLeaf : ℕ) (stashLeaf : ℤ) (m : Mem OramArr) :
    (pushBack p accessedLeaf stashLeaf p.depth).val m = -1 ∨
      ∃ l < p.depth, (pushBack p accessedLeaf stashLeaf p.depth).val m = l ∧
        m.get .occupied l ≠ p.bucketSize ∧
        (l = 0 ∨ ∀ j ≤ l, (pushBackDiff p accessedLeaf stashLeaf).getLsbD j = false) := by
  have hD := p.depth_le_fifteen
  have hD' := p.depth_pos
  rw [val_pushBack_eq]
  set t1 := pushBackDiff p accessedLeaf stashLeaf
  set full := (fullMask p p.depth).val m with hfull
  set t7 := pushBackTop p t1 full with ht7
  by_cases hroot : (t1 &&& -t1) - 1 = 0 ∧ m.get .occupied 0 < p.bucketSize
  · rw [if_pos hroot]
    exact .inr ⟨0, by omega, rfl, by omega, .inl rfl⟩
  rw [if_neg hroot]
  by_cases hzero : t7 = 0
  · rw [if_pos hzero]
    exact .inl rfl
  rw [if_neg hzero]
  -- the lowest set bit of `t5` is the highest one of `t4`
  set t4 := ((t1 &&& -t1) - 1) &&& ~~~full with ht4
  set t5 := bitwiseReverse t4 p.depth with ht5
  have ht7' : t7 = bitwiseReverse (t5 &&& -t5) p.depth := rfl
  have hne : t5 ≠ 0 := by
    intro h5
    apply hzero
    rw [ht7', h5]
    apply BitVec.eq_of_getLsbD_eq
    intro i _
    rw [getLsbD_bitwiseReverse _ _ (by omega)]
    simp
  obtain ⟨q, hq, hlow⟩ := exists_isLowest hne
  have hqbit := hlow.1
  rw [ht5, getLsbD_bitwiseReverse _ _ (by omega), Bool.and_eq_true, decide_eq_true_eq] at hqbit
  obtain ⟨hqD, hbit⟩ := hqbit
  set l := p.depth - 1 - q with hl
  have hsingle : ∀ i < 32, t7.getLsbD i = decide (i = l) := by
    intro i _
    rw [ht7', getLsbD_bitwiseReverse _ _ (by omega), hlow.getLsbD_and_neg]
    by_cases hi : i < p.depth
    · rw [decide_eq_true hi, Bool.true_and]
      exact decide_eq_decide.mpr (by omega)
    · rw [decide_eq_false hi, Bool.false_and, decide_eq_false (by omega)]
  rw [log2_of_single (by omega) hsingle]
  rw [ht4, BitVec.getLsbD_and, Bool.and_eq_true, getLsbD_and_neg_sub_one, BitVec.getLsbD_not,
    hfull, getLsbD_fullMask p p.depth (by omega)] at hbit
  obtain ⟨⟨-, hcommon⟩, hnot⟩ := hbit
  refine .inr ⟨l, by omega, rfl, fun hocc => ?_, .inr hcommon⟩
  have hlD : l < p.depth := by omega
  simp [hlD, hocc] at hnot

variable {p}

lemma walkBucket_eq_of_diff {leaf leaf' l : ℕ} (hleaf : leaf < p.numLeaves)
    (hleaf' : leaf' < p.numLeaves) (hl : l < p.depth)
    (h : l = 0 ∨ ∀ j ≤ l, (pushBackDiff p leaf leaf').getLsbD j = false) :
    walkBucket p leaf l = walkBucket p leaf' l := by
  have hD := p.depth_le_fifteen
  rcases h with rfl | h
  · rw [walkBucket_zero, walkBucket_zero]
  rw [walkBucket_eq hleaf hl, walkBucket_eq hleaf' hl]
  rw [p.numLeaves_eq] at hleaf hleaf' ⊢
  -- bit `k` of both numbers, for `k` from `depth - 1 - l` on
  have hbit : ∀ k, p.depth - 1 - l ≤ k → (2 ^ (p.depth - 1) + leaf).testBit k =
      (2 ^ (p.depth - 1) + leaf').testBit k := by
    intro k hk
    by_cases hlt : k < p.depth - 1
    · rw [Nat.testBit_two_pow_add_gt hlt, Nat.testBit_two_pow_add_gt hlt]
      have hdiff := h (p.depth - 1 - k) (by omega)
      rw [pushBackDiff, BitVec.getLsbD_xor, getLsbD_bitwiseReverse _ _ (by omega),
        getLsbD_bitwiseReverse _ _ (by omega), decide_eq_true (by omega), Bool.true_and,
        Bool.true_and, BitVec.ofInt_natCast, BitVec.getLsbD_ofNat, BitVec.getLsbD_ofNat,
        decide_eq_true (by omega), Bool.true_and, Bool.true_and,
        (by omega : p.depth - 1 - (p.depth - 1 - k) = k)] at hdiff
      simpa using hdiff
    · rcases Nat.lt_or_eq_of_le (not_lt.mp hlt) with hgt | rfl
      · have hpow : 2 ^ (p.depth - 1) + 2 ^ (p.depth - 1) ≤ 2 ^ k := by
          rw [← Nat.two_mul, ← pow_succ']
          exact Nat.pow_le_pow_right (by omega) (by omega)
        rw [Nat.testBit_lt_two_pow (by omega), Nat.testBit_lt_two_pow (by omega)]
      · rw [Nat.testBit_two_pow_add_eq, Nat.testBit_two_pow_add_eq,
          Nat.testBit_lt_two_pow hleaf, Nat.testBit_lt_two_pow hleaf']
  apply Nat.eq_of_testBit_eq
  intro i
  rw [Nat.testBit_div_two_pow, Nat.testBit_div_two_pow]
  exact hbit _ (by omega)

end PushBack

end OISA.Primitives
