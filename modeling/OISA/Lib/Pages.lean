import Mathlib.Tactic

/-!
# Pages of an address space

An address of `w` bits splits into a page tag and an offset below `2 ^ k`.
-/

namespace OISA.Lib

variable {w : ℕ} (k : ℕ)

def offsetMask (w k : ℕ) : BitVec w := (1#w <<< k) - 1#w

def pageTag (a : BitVec w) : BitVec w := a &&& ~~~ offsetMask w k

def pageOffset (a : BitVec w) : BitVec w := a &&& offsetMask w k

section Masks

variable {k} {a b : BitVec w}

lemma toNat_offsetMask (hk : k < w) : (offsetMask w k).toNat = 2 ^ k - 1 := by
  have hpow : 2 ^ k < 2 ^ w := Nat.pow_lt_pow_right (by norm_num) hk
  have hone : 1 < 2 ^ w := Nat.one_lt_two_pow (by omega)
  have hpos : 0 < 2 ^ k := by positivity
  unfold offsetMask
  rw [BitVec.toNat_sub, BitVec.toNat_shiftLeft, BitVec.toNat_one (by omega), Nat.shiftLeft_eq,
    one_mul, Nat.mod_eq_of_lt hpow, show 2 ^ w - 1 + 2 ^ k = 2 ^ w + (2 ^ k - 1) by omega,
    Nat.add_mod_left, Nat.mod_eq_of_lt (by omega)]

lemma toNat_pageOffset (hk : k < w) : (pageOffset k a).toNat = a.toNat % 2 ^ k := by
  unfold pageOffset
  rw [BitVec.toNat_and, toNat_offsetMask hk, Nat.and_two_pow_sub_one_eq_mod]

lemma pageOffset_lt (hk : k < w) : (pageOffset k a).toNat < 2 ^ k := by
  rw [toNat_pageOffset hk]
  exact Nat.mod_lt _ (by positivity)

@[simp] lemma pageTag_add_pageOffset : pageTag k a + pageOffset k a = a := by
  unfold pageTag pageOffset
  rw [BitVec.add_eq_or_of_and_eq_zero]
  · ext i
    simp only [BitVec.getElem_or, BitVec.getElem_and, BitVec.getElem_not]
    cases a[i] <;> cases (offsetMask w k)[i] <;> rfl
  · ext i
    simp only [BitVec.getElem_and, BitVec.getElem_not, BitVec.getElem_zero]
    cases a[i] <;> cases (offsetMask w k)[i] <;> rfl

lemma pageTag_eq_sub : pageTag k a = a - pageOffset k a := by
  have h := pageTag_add_pageOffset (k := k) (a := a)
  rw [BitVec.eq_sub_iff_add_eq, h]

lemma toNat_pageTag (hk : k < w) : (pageTag k a).toNat = a.toNat / 2 ^ k * 2 ^ k := by
  have hle : (pageOffset k a).toNat ≤ a.toNat := by
    rw [toNat_pageOffset hk]
    exact Nat.mod_le _ _
  have hdiv := Nat.div_add_mod' a.toNat (2 ^ k)
  rw [pageTag_eq_sub, BitVec.toNat_sub_of_le hle, toNat_pageOffset hk]
  omega

lemma pageTag_eq_iff (hk : k < w) :
    pageTag k a = pageTag k b ↔ a.toNat / 2 ^ k = b.toNat / 2 ^ k := by
  rw [← BitVec.toNat_inj, toNat_pageTag hk, toNat_pageTag hk]
  exact Nat.mul_left_inj (by positivity)

@[simp] lemma pageTag_pageTag : pageTag k (pageTag k a) = pageTag k a := by
  unfold pageTag
  rw [BitVec.and_assoc, BitVec.and_self]

@[simp] lemma pageOffset_pageTag : pageOffset k (pageTag k a) = 0#w := by
  unfold pageTag pageOffset
  ext i
  simp only [BitVec.getElem_and, BitVec.getElem_not, BitVec.getElem_zero]
  cases a[i] <;> cases (offsetMask w k)[i] <;> rfl

lemma eq_of_tag_offset (htag : pageTag k a = pageTag k b)
    (hoffset : pageOffset k a = pageOffset k b) : a = b := by
  rw [← pageTag_add_pageOffset (k := k) (a := a), htag, hoffset, pageTag_add_pageOffset]

lemma toNat_add_of_aligned (hk : k < w) (ha : pageOffset k a = 0#w) (hb : b.toNat < 2 ^ k) :
    (a + b).toNat = a.toNat + b.toNat := by
  have hmod : a.toNat % 2 ^ k = 0 := by
    rw [← toNat_pageOffset hk, ha]
    rfl
  obtain ⟨c, hc⟩ := Nat.pow_dvd_pow 2 hk.le
  obtain ⟨q, hq⟩ := Nat.dvd_of_mod_eq_zero hmod
  have hlt : 2 ^ k * q < 2 ^ k * c := by
    rw [← hq, ← hc]
    exact a.isLt
  have hqc : q + 1 ≤ c := Nat.lt_of_mul_lt_mul_left hlt
  have hle : 2 ^ k * (q + 1) ≤ 2 ^ k * c := Nat.mul_le_mul_left _ hqc
  rw [BitVec.toNat_add, Nat.mod_eq_of_lt]
  rw [hc, hq]
  rw [Nat.mul_add] at hle
  omega

lemma pageTag_add_of_aligned (hk : k < w) (ha : pageOffset k a = 0#w) (hb : b.toNat < 2 ^ k) :
    pageTag k (a + b) = a := by
  have hmod : a.toNat % 2 ^ k = 0 := by
    rw [← toNat_pageOffset hk, ha]
    rfl
  apply BitVec.eq_of_toNat_eq
  rw [toNat_pageTag hk, toNat_add_of_aligned hk ha hb]
  obtain ⟨q, hq⟩ := Nat.dvd_of_mod_eq_zero hmod
  rw [hq, Nat.mul_add_div (by positivity), Nat.div_eq_of_lt hb, Nat.add_zero, Nat.mul_comm]

lemma pageOffset_add_of_aligned (hk : k < w) (ha : pageOffset k a = 0#w)
    (hb : b.toNat < 2 ^ k) : pageOffset k (a + b) = b := by
  have h := pageTag_add_pageOffset (k := k) (a := a + b)
  rw [pageTag_add_of_aligned hk ha hb] at h
  exact (BitVec.add_right_inj a).mp h

lemma pageOffset_succ (hk : k < w) (h : (pageOffset k a).toNat + 1 < 2 ^ k) :
    pageOffset k (a + 1#w) = pageOffset k a + 1#w := by
  have hone : (1#w).toNat = 1 := BitVec.toNat_one (by omega)
  have hpow : 2 ^ k < 2 ^ w := Nat.pow_lt_pow_right (by norm_num) hk
  apply BitVec.eq_of_toNat_eq
  rw [BitVec.toNat_add, hone, Nat.mod_eq_of_lt (h.trans hpow)]
  rw [toNat_pageOffset hk] at h ⊢
  rw [toNat_pageOffset hk, BitVec.toNat_add, hone, Nat.mod_mod_of_dvd _ (Nat.pow_dvd_pow 2 hk.le),
    ← Nat.mod_add_mod, Nat.mod_eq_of_lt h]

lemma toNat_pageOffset_succ (hk : k < w) (h : (pageOffset k a).toNat + 1 < 2 ^ k) :
    (pageOffset k (a + 1#w)).toNat = (pageOffset k a).toNat + 1 := by
  have hone : (1#w).toNat = 1 := BitVec.toNat_one (by omega)
  have hpow : 2 ^ k < 2 ^ w := Nat.pow_lt_pow_right (by norm_num) hk
  rw [pageOffset_succ hk h, BitVec.toNat_add, hone, Nat.mod_eq_of_lt (h.trans hpow)]

lemma pageTag_succ (hk : k < w) (h : (pageOffset k a).toNat + 1 < 2 ^ k) :
    pageTag k (a + 1#w) = pageTag k a := by
  rw [pageTag_eq_sub, pageTag_eq_sub, pageOffset_succ hk h, BitVec.add_comm (pageOffset k a),
    ← BitVec.sub_sub, BitVec.add_sub_cancel]

lemma pageTag_add_ofNat (hk : k < w) {n : ℕ} (h : (pageOffset k a).toNat + n < 2 ^ k) :
    pageTag k (a + BitVec.ofNat w n) = pageTag k a := by
  have hpow : 2 ^ k < 2 ^ w := Nat.pow_lt_pow_right (by norm_num) hk
  have hnat : (BitVec.ofNat w n).toNat = n := by
    rw [BitVec.toNat_ofNat, Nat.mod_eq_of_lt (by omega)]
  have hsum : (pageOffset k a + BitVec.ofNat w n).toNat < 2 ^ k := by
    rw [BitVec.toNat_add, hnat, Nat.mod_eq_of_lt (by omega)]
    exact h
  have hsplit : a + BitVec.ofNat w n = pageTag k a + (pageOffset k a + BitVec.ofNat w n) := by
    rw [← BitVec.add_assoc, pageTag_add_pageOffset]
  rw [hsplit, pageTag_add_of_aligned hk pageOffset_pageTag hsum]

end Masks

end OISA.Lib
