import OISA.Lib.Bitonic
import OISA.Lib.Bits
import OISA.Primitives.MergeSort

/-!
# The contents of a sorted array

The sorting primitives move words, blocks, or pairs of blocks of two arrays.
-/

namespace OISA.Primitives

open OISA.Lib OISA.Lib.Traced OISA.Lib.Bitonic

variable {ι α δ : Type}

def readWord (arr : ι) (m : Mem ι) (i : ℕ) : ℤ := m.get arr i

/-- The words of the block `i`. -/
def readBlock (arr : ι) (sz : ℕ) (m : Mem ι) (i : ℕ) : List ℤ :=
  (List.range sz).map fun h => m.get arr (i * sz + h)

/-- The blocks `i` of two parallel arrays. -/
def readPair (main aux : ι) (szMain szAux : ℕ) (m : Mem ι) (i : ℕ) : List ℤ × List ℤ :=
  (readBlock main szMain m i, readBlock aux szAux m i)

@[simp] lemma length_readBlock (arr : ι) (sz : ℕ) (m : Mem ι) (i : ℕ) :
    (readBlock arr sz m i).length = sz := by
  simp [readBlock]

lemma getD_readBlock (arr : ι) {sz k : ℕ} (hk : k < sz) (m : Mem ι) (i : ℕ) :
    (readBlock arr sz m i).getD k 0 = m.get arr (i * sz + k) := by
  simp [readBlock, List.getD, hk]

lemma readBlock_congr {arr : ι} {m m' : Mem ι} (h : m'.get arr = m.get arr) (sz : ℕ) :
    readBlock arr sz m' = readBlock arr sz m := by
  funext i
  simp only [readBlock, h]

section Exchange

variable [DecidableEq ι]

lemma oswap_get (arr : ι) {a b : ℕ} (hab : a ≠ b) (s : Bool) (m : Mem ι) (c : ℕ) :
    ((oswap arr a b s).exec m).get arr c =
      m.get arr (if s then Equiv.swap a b c else c) := by
  simp only [oswap, exec_bind, exec_load, val_load, exec_store, Mem.get_set, true_and]
  by_cases hb : c = b
  · cases s <;> simp [hb]
  · by_cases ha : c = a
    · cases s <;> simp [ha, hab]
    · cases s <;> simp [ha, hb, Equiv.swap_apply_of_ne_of_ne]

lemma keeps_oswap {arr x : ι} (hx : x ≠ arr) (a b : ℕ) (s : Bool) :
    Keeps (oswap arr a b s) x :=
  (keeps_load arr a x).bind fun _ => (keeps_load arr b x).bind fun _ =>
    (keeps_store hx a _).bind fun _ => keeps_store hx b _

lemma keeps_swapBlocks {arr x : ι} (hx : x ≠ arr) (sz i j : ℕ) (s : Bool) :
    Keeps (swapBlocks arr sz i j s) x :=
  keeps_forUpTo (fun _ => keeps_oswap hx _ _ s) sz

lemma swapBlocks_get (arr : ι) (sz : ℕ) {i j : ℕ} (hij : i ≠ j) (s : Bool) (m : Mem ι)
    (t h : ℕ) (hh : h < sz) :
    ((swapBlocks arr sz i j s).exec m).get arr (t * sz + h) =
      m.get arr ((if s then Equiv.swap i j t else t) * sz + h) := by
  have hinv := forUpTo_invariant
    (fun n m' => n ≤ sz ∧ ∀ t h, h < sz → m'.get arr (t * sz + h) =
      m.get arr ((if s ∧ h < n then Equiv.swap i j t else t) * sz + h))
    (fun k => oswap arr (i * sz + k) (j * sz + k) s) sz m ⟨by omega, by simp⟩
    (fun n hn m' ⟨_, hm'⟩ => ⟨hn, fun t h hh => by
      have hne : i * sz + n ≠ j * sz + n := fun heq => hij (digits_inj hn hn heq).1
      rw [oswap_get arr hne]
      by_cases hhn : h = n
      · subst hhn
        cases s with
        | false => simp [hm' t h hh]
        | true =>
          by_cases hti : t = i
          · subst hti
            simp [hm' j h hh]
          · by_cases htj : t = j
            · subst htj
              simp [hm' i h hh]
            · have h1 : t * sz + h ≠ i * sz + h := fun heq => hti (digits_inj hh hh heq).1
              have h2 : t * sz + h ≠ j * sz + h := fun heq => htj (digits_inj hh hh heq).1
              simp [Equiv.swap_apply_of_ne_of_ne h1 h2, hm' t h hh,
                Equiv.swap_apply_of_ne_of_ne hti htj]
      · have h1 : t * sz + h ≠ i * sz + n := fun heq => hhn (digits_inj hh hn heq).2
        have h2 : t * sz + h ≠ j * sz + n := fun heq => hhn (digits_inj hh hn heq).2
        have hlt : h < n + 1 ↔ h < n := by omega
        simp only [Equiv.swap_apply_of_ne_of_ne h1 h2, ite_self, hlt]
        exact hm' t h hh⟩)
  rw [swapBlocks, hinv.2 t h hh]
  simp [hh]

lemma readBlock_swapBlocks (arr : ι) (sz : ℕ) {i j : ℕ} (hij : i ≠ j) (s : Bool) (m : Mem ι)
    (t : ℕ) :
    readBlock arr sz ((swapBlocks arr sz i j s).exec m) t =
      readBlock arr sz m (if s then Equiv.swap i j t else t) := by
  apply List.map_congr_left
  intro h hh
  exact swapBlocks_get arr sz hij s m t h (List.mem_range.mp hh)

end Exchange

def Implements (view : Mem ι → ℕ → α) (swap : α → α → Bool)
    (cas : ℕ → ℕ → Traced ι Unit) : Prop :=
  ∀ i j m, i ≠ j → view ((cas i j).exec m) = compSwap swap i j (view m)

section Network

variable {view : Mem ι → ℕ → α} {swap : α → α → Bool} {cas : ℕ → ℕ → Traced ι Unit}

lemma halfClean_view (h : Implements view swap cas) (low k n : ℕ) (hk : 0 < k) (m : Mem ι) :
    view ((forUpTo n fun t => cas (low + t) (low + t + k)).exec m) =
      clean swap low k n (view m) := by
  induction n with
  | zero => rfl
  | succ n ih => rw [forUpTo_succ, exec_bind, h _ _ _ (by omega), ih, clean]

lemma bitonicMerge_view (h : Implements view swap cas) (e low : ℕ) (m : Mem ι) :
    view ((bitonicMerge cas low (2 ^ e)).exec m) = mergeNet swap e low (view m) := by
  induction e generalizing low m with
  | zero => rw [bitonicMerge]; rfl
  | succ e ih =>
    have hhalf : 2 ^ (e + 1) / 2 = 2 ^ e := by rw [pow_succ, Nat.mul_div_cancel _ two_pos]
    rw [bitonicMerge, if_pos (Nat.one_lt_two_pow (by omega)), hhalf]
    simp only [exec_bind]
    rw [ih, ih, halfClean, halfClean_view h _ _ _ (Nat.two_pow_pos e), mergeNet]

/-- The sort implements the sorting network. -/
theorem bitonicSubSort_view {swap : δ → α → α → Bool} {cas : δ → ℕ → ℕ → Traced ι Unit}
    (h : ∀ d, Implements view (swap d) (cas d)) (up down : δ) (e low : ℕ) (d : δ)
    (m : Mem ι) :
    view ((bitonicSubSort cas up down low (2 ^ e) d).exec m) =
      sortNet swap up down e low d (view m) := by
  induction e generalizing low d m with
  | zero => rw [bitonicSubSort]; rfl
  | succ e ih =>
    have hhalf : 2 ^ (e + 1) / 2 = 2 ^ e := by rw [pow_succ, Nat.mul_div_cancel _ two_pos]
    rw [bitonicSubSort, if_pos (Nat.one_lt_two_pow (by omega)), hhalf]
    simp only [exec_bind]
    rw [bitonicMerge_view (h d), ih, ih, sortNet]

lemma keeps_bitonicMerge {x : ι} (h : ∀ i j, Keeps (cas i j) x) (low cnt : ℕ) :
    Keeps (bitonicMerge cas low cnt) x := by
  induction cnt using Nat.strong_induction_on generalizing low with
  | h cnt ih =>
    rw [bitonicMerge]
    split
    · exact (keeps_forUpTo (fun _ => h _ _) _).bind fun _ => (ih _ (by omega) low).bind
        fun _ => ih _ (by omega) _
    · exact keeps_pure () x

lemma keeps_bitonicSubSort {cas : δ → ℕ → ℕ → Traced ι Unit} {x : ι}
    (h : ∀ d i j, Keeps (cas d i j) x) (up down : δ) (low cnt : ℕ) (d : δ) :
    Keeps (bitonicSubSort cas up down low cnt d) x := by
  induction cnt using Nat.strong_induction_on generalizing low d with
  | h cnt ih =>
    rw [bitonicSubSort]
    split
    · exact (ih _ (by omega) low up).bind fun _ => (ih _ (by omega) _ down).bind
        fun _ => keeps_bitonicMerge (h d) _ _
    · exact keeps_pure () x

end Network

def swapWord (dir : Dir) (x y : ℤ) : Bool := dir = Dir.ofBool (x > y)

def swapKey (keyIdx : ℕ) (dir : Dir) (x y : List ℤ) : Bool :=
  swapWord dir (x.getD keyIdx 0) (y.getD keyIdx 0)

def swapTwoKey (key1Idx key2Idx : ℕ) (dir : Dir × Dir) (x y : List ℤ) : Bool :=
  let dir1Eq : Bool := x.getD key1Idx 0 = y.getD key1Idx 0
  (!dir1Eq && swapKey key1Idx dir.1 x y) || (dir1Eq && swapKey key2Idx dir.2 x y)

lemma eq_dir_comm (b : Bool) (dir : Dir) :
    decide (Dir.ofBool b = dir) = decide (dir = Dir.ofBool b) :=
  decide_eq_decide.mpr eq_comm

lemma val_twoKeyTest (arr : ι) {key1Idx key2Idx sz : ℕ} (h1 : key1Idx < sz) (h2 : key2Idx < sz)
    (dir : Dir × Dir) (i j : ℕ) (m : Mem ι) :
    (twoKeyTest arr key1Idx key2Idx sz dir i j).val m =
      swapTwoKey key1Idx key2Idx dir (readBlock arr sz m i) (readBlock arr sz m j) := by
  simp only [twoKeyTest, val_bind, val_load, exec_load, val_pure, swapTwoKey, swapKey, swapWord,
    getD_readBlock arr h1, getD_readBlock arr h2, eq_dir_comm]
  rfl

lemma exec_twoKeyTest (arr : ι) (key1Idx key2Idx sz : ℕ) (dir : Dir × Dir) (i j : ℕ)
    (m : Mem ι) : (twoKeyTest arr key1Idx key2Idx sz dir i j).exec m = m := rfl

lemma keeps_twoKeyTest (arr : ι) (key1Idx key2Idx sz : ℕ) (dir : Dir × Dir) (i j : ℕ) (x : ι) :
    Keeps (twoKeyTest arr key1Idx key2Idx sz dir i j) x := fun m => by
  rw [exec_twoKeyTest]

section Implementation

variable [DecidableEq ι]

lemma compAndSwapInt_implements (arr : ι) (dir : Dir) :
    Implements (readWord arr) (swapWord dir) (compAndSwapInt arr dir) := by
  intro i j m hij
  funext t
  rw [compSwap_apply]
  exact oswap_get arr hij _ m t

lemma compAndSwapBlock_implements (arr : ι) {keyIdx sz : ℕ} (hk : keyIdx < sz) (dir : Dir) :
    Implements (readBlock arr sz) (swapKey keyIdx dir)
      (compAndSwapBlock arr keyIdx sz dir) := by
  intro i j m hij
  funext t
  rw [compSwap_apply, swapKey, getD_readBlock arr hk, getD_readBlock arr hk]
  exact readBlock_swapBlocks arr sz hij _ m t

lemma compAndSwapGeneral_implements (arr : ι) {key1Idx key2Idx sz : ℕ} (h1 : key1Idx < sz)
    (h2 : key2Idx < sz) (dir : Dir × Dir) :
    Implements (readBlock arr sz) (swapTwoKey key1Idx key2Idx dir)
      (compAndSwapGeneral arr key1Idx key2Idx sz dir) := by
  intro i j m hij
  funext t
  rw [compSwap_apply, ← val_twoKeyTest arr h1 h2]
  exact readBlock_swapBlocks arr sz hij _ m t

lemma readPair_swapBlocks {main aux : ι} (hne : main ≠ aux) (szMain szAux : ℕ) {i j : ℕ}
    (hij : i ≠ j) (s : Bool) (m : Mem ι) (t : ℕ) :
    readPair main aux szMain szAux ((swapBlocks aux szAux i j s).exec
        ((swapBlocks main szMain i j s).exec m)) t =
      readPair main aux szMain szAux m (if s then Equiv.swap i j t else t) := by
  unfold readPair
  rw [readBlock_congr (keeps_swapBlocks hne szAux i j s _), readBlock_swapBlocks main szMain hij,
    readBlock_swapBlocks aux szAux hij,
    readBlock_congr (keeps_swapBlocks hne.symm szMain i j s m)]

lemma compAndSwapTwoArray_implements {main aux : ι} (hne : main ≠ aux)
    {keyIdx szMain szAux : ℕ} (hk : keyIdx < szMain) (dir : Dir) :
    Implements (readPair main aux szMain szAux) (fun x y => swapKey keyIdx dir x.1 y.1)
      (compAndSwapTwoArray main aux keyIdx szMain szAux dir) := by
  intro i j m hij
  funext t
  rw [compSwap_apply]
  simp only [readPair, swapKey, getD_readBlock main hk]
  exact readPair_swapBlocks hne szMain szAux hij _ m t

lemma compAndSwapTwoArrayTwoKey_implements {main aux : ι} (hne : main ≠ aux)
    (szAux : ℕ) {key1Idx key2Idx szMain : ℕ} (h1 : key1Idx < szMain) (h2 : key2Idx < szMain)
    (dir : Dir × Dir) :
    Implements (readPair main aux szMain szAux)
      (fun x y => swapTwoKey key1Idx key2Idx dir x.1 y.1)
      (compAndSwapTwoArrayTwoKey main aux key1Idx key2Idx szMain szAux dir) := by
  intro i j m hij
  funext t
  rw [compSwap_apply]
  simp only [readPair, ← val_twoKeyTest main h1 h2]
  exact readPair_swapBlocks hne szMain szAux hij _ m t

lemma keeps_compAndSwapTwoArrayTwoKey {main aux x : ι} (hm : x ≠ main) (ha : x ≠ aux)
    (key1Idx key2Idx szMain szAux : ℕ) (dir : Dir × Dir) (i j : ℕ) :
    Keeps (compAndSwapTwoArrayTwoKey main aux key1Idx key2Idx szMain szAux dir i j) x :=
  (keeps_twoKeyTest main key1Idx key2Idx szMain dir i j x).bind fun s =>
    (keeps_swapBlocks hm szMain i j s).bind fun _ => keeps_swapBlocks ha szAux i j s

end Implementation

end OISA.Primitives
