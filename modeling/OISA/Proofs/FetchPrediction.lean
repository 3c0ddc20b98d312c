import OISA.Lib.Pages
import OISA.Proofs.Btb

/-!
# What the fetch from the trace cache asks the predictor

`getNextBranch` looks for the next branch of the block in the BTB, and `LookupMultiple` predicts
it and the branches behind it.
-/

namespace OISA.X86.BranchPredictor

open OISA.Lib OISA.Lib.Lru

section NextBranch

variable (p : BranchPredictor) (eip block_size : BitVec 32)

def blockEnd : ℕ := eip.toNat / block_size.toNat * block_size.toNat + block_size.toNat

def InBlock (a : BitVec 32) : Prop := eip ≤ a ∧ a.toNat < blockEnd eip block_size

/-- The set of the address holds a branch at this address. Entries not in use have source 0. -/
def Stored (a : BitVec 32) : Prop :=
  a ≠ 0 ∧ ∃ way < p.config.btb_num_ways,
    (p.btb (p.btbIndex (index a p.config.btb_num_sets) way)).source = a

/-- Address of the next branch of the block, and zero if there is none -/
structure NextBranch (r : BitVec 32) : Prop where
  zero_iff : r = 0 ↔ ∀ a, InBlock eip block_size a → ¬p.Stored a
  least : r ≠ 0 → InBlock eip block_size r ∧ p.Stored r ∧
    ∀ a, InBlock eip block_size a → p.Stored a → r ≤ a

/-- No two branches of the block are left, and none if the address space ends with the block. -/
structure AtMostOneBranch : Prop where
  unique : ∀ a b, InBlock eip block_size a → p.Stored a → InBlock eip block_size b →
    p.Stored b → a = b
  last_block : blockEnd eip block_size = 2 ^ 32 → ∀ a, InBlock eip block_size a → ¬p.Stored a

variable {p eip block_size}

lemma stored_iff {a : BitVec 32} :
    p.Stored a ↔ a ≠ 0 ∧ (p.findBtb (index a p.config.btb_num_sets) a).isSome = true := by
  unfold Stored findBtb
  simp only [List.find?_isSome, List.mem_range, decide_eq_true_eq]

def found (p : BranchPredictor) (a : BitVec 32) : Bool :=
  (p.findBtb (index a p.config.btb_num_sets) a).isSome

lemma nextBranchLoop_spec (hsets : 0 < p.config.btb_num_sets) (n : ℕ) (ret_addr : BitVec 32) :
    ∃ r, p.nextBranchLoop n eip ret_addr = some r ∧
      ((r = ret_addr ∧ ∀ i < n, p.found (eip + BitVec.ofNat 32 i) = false) ∨
        ∃ i < n, r = eip + BitVec.ofNat 32 i ∧ p.found (eip + BitVec.ofNat 32 i) = true ∧
          ∀ j < n, i < j → p.found (eip + BitVec.ofNat 32 j) = false) := by
  induction n generalizing eip ret_addr with
  | zero => exact ⟨ret_addr, rfl, Or.inl ⟨rfl, fun i hi => absurd hi (by omega)⟩⟩
  | succ n ih =>
    have hshift : ∀ i, eip + 1 + BitVec.ofNat 32 i = eip + BitVec.ofNat 32 (i + 1) := by
      intro i
      rw [BitVec.ofNat_add, BitVec.add_assoc, BitVec.add_comm 1]
      rfl
    obtain ⟨r, hr, hcases⟩ := @ih (eip + 1) (if p.found eip then eip else ret_addr)
    simp only [hshift] at hcases
    refine ⟨r, ?_, ?_⟩
    · unfold nextBranchLoop
      dsimp only
      rw [if_pos (index_lt eip hsets)]
      exact hr
    · cases hcases with
      | inl hnone =>
        cases hfound : p.found eip with
        | false =>
          left
          refine ⟨by simpa [hfound] using hnone.1, ?_⟩
          intro i hi
          cases i with
          | zero => simpa using hfound
          | succ i => exact hnone.2 i (by omega)
        | true =>
          right
          refine ⟨0, by omega, by simpa [hfound] using hnone.1, by simpa using hfound, ?_⟩
          intro j hj hpos
          obtain ⟨j, rfl⟩ := Nat.exists_eq_succ_of_ne_zero (by omega : j ≠ 0)
          exact hnone.2 j (by omega)
      | inr hsome =>
        obtain ⟨i, hi, hri, hfound, hlast⟩ := hsome
        right
        refine ⟨i + 1, by omega, hri, hfound, ?_⟩
        intro j hj hlt
        obtain ⟨j, rfl⟩ := Nat.exists_eq_succ_of_ne_zero (by omega : j ≠ 0)
        exact hlast j (by omega) (by omega)

lemma blockSize_cases (hsize : block_size &&& (block_size - 1) = 0) :
    block_size = 0 ∨ ∃ k < 32, block_size = 1#32 <<< k ∧ block_size.toNat = 2 ^ k := by
  by_cases hzero : block_size = 0
  · exact Or.inl hzero
  · right
    have hne : block_size.toNat ≠ 0 := fun h => hzero (BitVec.eq_of_toNat_eq h)
    have hlt := block_size.isLt
    have hand : block_size.toNat &&& (block_size.toNat - 1) = 0 := by
      have h := congrArg BitVec.toNat hsize
      rwa [BitVec.toNat_and, BitVec.toNat_sub_of_le (by rw [BitVec.le_def]; change 1 ≤ _; omega)]
        at h
    obtain ⟨k, hk⟩ := (Nat.and_sub_one_eq_zero_iff_isPowerOfTwo hne).mp hand
    have hk32 : k < 32 := by
      rw [hk] at hlt
      exact (Nat.pow_lt_pow_iff_right (by norm_num)).mp hlt
    refine ⟨k, hk32, ?_, hk⟩
    apply BitVec.eq_of_toNat_eq
    rw [hk, BitVec.toNat_shiftLeft, Nat.shiftLeft_eq, BitVec.toNat_one (by norm_num), one_mul,
      Nat.mod_eq_of_lt (Nat.pow_lt_pow_right (by norm_num) hk32)]

lemma blockEnd_le (eip : BitVec 32) (hsize : block_size &&& (block_size - 1) = 0) :
    blockEnd eip block_size ≤ 2 ^ 32 := by
  unfold blockEnd
  cases blockSize_cases hsize with
  | inl hzero =>
    rw [hzero]
    simp
  | inr hpow =>
    obtain ⟨k, hk, _, hnat⟩ := hpow
    obtain ⟨m, hm⟩ : 2 ^ k ∣ 2 ^ 32 := pow_dvd_pow 2 hk.le
    have hq : eip.toNat / 2 ^ k < m := by
      rw [Nat.div_lt_iff_lt_mul (by positivity), mul_comm, ← hm]
      exact eip.isLt
    rw [hnat, hm, ← Nat.succ_mul, mul_comm (2 ^ k)]
    exact Nat.mul_le_mul_right _ hq

lemma limit_sub (hsize : block_size &&& (block_size - 1) = 0) :
    ((eip + block_size) &&& ~~~(block_size - 1)).toNat - eip.toNat =
      if blockEnd eip block_size = 2 ^ 32 then 0 else blockEnd eip block_size - eip.toNat := by
  have hend := blockEnd_le eip hsize
  unfold blockEnd at hend ⊢
  cases blockSize_cases hsize with
  | inl hzero =>
    rw [hzero]
    simp
  | inr hpow =>
    obtain ⟨k, hk, rfl, hnat⟩ := hpow
    have hpos : 0 < 2 ^ k := by positivity
    change (pageTag k (eip + 1#32 <<< k)).toNat - _ = _
    rw [hnat] at hend ⊢
    rw [toNat_pageTag hk, BitVec.toNat_add, hnat]
    have heip := eip.isLt
    obtain ⟨m, hm⟩ : 2 ^ k ∣ 2 ^ 32 := pow_dvd_pow 2 hk.le
    have hdiv := Nat.div_add_mod' eip.toNat (2 ^ k)
    have hmod := Nat.mod_lt eip.toNat hpos
    generalize eip.toNat / 2 ^ k = q at *
    by_cases hlast : q * 2 ^ k + 2 ^ k = 2 ^ 32
    · rw [if_pos hlast, Nat.mod_eq_sub_mod (by omega), Nat.mod_eq_of_lt (by omega),
        Nat.div_eq_of_lt (by omega)]
      omega
    · -- the block behind is one too
      have hle : q + 2 ≤ m := by
        have hmul : (q + 1) * 2 ^ k < m * 2 ^ k := by
          rw [mul_comm m, ← hm, Nat.succ_mul]
          omega
        exact Nat.lt_of_mul_lt_mul_right hmul
      have hbound : (q + 2) * 2 ^ k ≤ 2 ^ 32 := by
        rw [hm, mul_comm (2 ^ k)]
        exact Nat.mul_le_mul_right _ hle
      have hquot : (eip.toNat + 2 ^ k) / 2 ^ k = q + 1 := by
        rw [Nat.add_div_right _ hpos]
        congr 1
        exact Nat.div_eq_of_lt_le (by omega) (by rw [Nat.succ_mul]; omega)
      rw [if_neg hlast, Nat.mod_eq_of_lt (by linarith), hquot, Nat.succ_mul]

lemma inBlock_iff {a : BitVec 32} (hsize : block_size &&& (block_size - 1) = 0) :
    InBlock eip block_size a ↔
      ∃ i < blockEnd eip block_size - eip.toNat, a = eip + BitVec.ofNat 32 i := by
  unfold InBlock
  have hend := blockEnd_le eip hsize
  have ha := a.isLt
  constructor
  · intro h
    have hle := h.1
    rw [BitVec.le_def] at hle
    refine ⟨a.toNat - eip.toNat, by omega, ?_⟩
    apply BitVec.eq_of_toNat_eq
    rw [BitVec.toNat_add, BitVec.toNat_ofNat]
    omega
  · intro h
    obtain ⟨i, hi, rfl⟩ := h
    have hnat : (eip + BitVec.ofNat 32 i).toNat = eip.toNat + i := by
      rw [BitVec.toNat_add, BitVec.toNat_ofNat]
      omega
    rw [BitVec.le_def, hnat]
    omega

lemma add_ofNat_le_iff {n i j : ℕ} (hi : i < n) (hj : j < n) (hn : eip.toNat + n ≤ 2 ^ 32) :
    eip + BitVec.ofNat 32 i ≤ eip + BitVec.ofNat 32 j ↔ i ≤ j := by
  rw [BitVec.le_def, BitVec.toNat_add, BitVec.toNat_add, BitVec.toNat_ofNat, BitVec.toNat_ofNat]
  omega

/-- The function returns the last branch of the block, and zero in the last block. -/
lemma getNextBranch_last (hsets : 0 < p.config.btb_num_sets)
    (hsize : block_size &&& (block_size - 1) = 0) :
    ∃ r, p.getNextBranch eip block_size = some r ∧
      (blockEnd eip block_size = 2 ^ 32 → r = 0) ∧
      (r ≠ 0 → InBlock eip block_size r ∧ p.Stored r) ∧
      (blockEnd eip block_size ≠ 2 ^ 32 →
        ∀ a, InBlock eip block_size a → p.Stored a → a ≤ r) := by
  have hend := blockEnd_le eip hsize
  obtain ⟨r, hr, hcases⟩ := nextBranchLoop_spec (p := p) hsets
    (((eip + block_size) &&& ~~~(block_size - 1)).toNat - eip.toNat) 0
  refine ⟨r, ?_, ?_⟩
  · unfold getNextBranch
    rw [if_neg (not_not.mpr hsize)]
    exact hr
  · rw [limit_sub hsize] at hcases
    by_cases hlast : blockEnd eip block_size = 2 ^ 32
    · rw [if_pos hlast] at hcases
      have hzero : r = 0 := by
        cases hcases with
        | inl hnone => exact hnone.1
        | inr hsome =>
          obtain ⟨i, hi, _⟩ := hsome
          exact absurd hi (by omega)
      exact ⟨fun _ => hzero, fun h => absurd hzero h, fun h => absurd hlast h⟩
    · rw [if_neg hlast] at hcases
      refine ⟨fun h => absurd h hlast, ?_, ?_⟩
      · intro hne
        cases hcases with
        | inl hnone => exact absurd hnone.1 hne
        | inr hsome =>
          obtain ⟨i, hi, hri, hfound, _⟩ := hsome
          rw [← hri] at hfound
          exact ⟨(inBlock_iff hsize).mpr ⟨i, hi, hri⟩, stored_iff.mpr ⟨hne, hfound⟩⟩
      · intro _ a hblock hstored
        obtain ⟨j, hj, rfl⟩ := (inBlock_iff hsize).mp hblock
        have hfound : p.found (eip + BitVec.ofNat 32 j) = true := (stored_iff.mp hstored).2
        cases hcases with
        | inl hnone =>
          rw [hnone.2 j hj] at hfound
          cases hfound
        | inr hsome =>
          obtain ⟨i, hi, rfl, _, hbehind⟩ := hsome
          rw [add_ofNat_le_iff hj hi (by omega)]
          by_contra hlt
          rw [hbehind j hj (by omega)] at hfound
          cases hfound

/-- `getNextBranch` returns the next branch of the block if and only if the block has at most one
branch left, and none if it is the last block. -/
theorem getNextBranch_next_iff (p : BranchPredictor) (hsets : 0 < p.config.btb_num_sets)
    (eip block_size : BitVec 32) (hsize : block_size &&& (block_size - 1) = 0) :
    ∃ r, p.getNextBranch eip block_size = some r ∧
      (p.NextBranch eip block_size r ↔ p.AtMostOneBranch eip block_size) := by
  obtain ⟨r, hr, hlast, hmem, hle⟩ := getNextBranch_last (p := p) hsets hsize
  refine ⟨r, hr, ?_, ?_⟩
  · intro hnext
    refine ⟨?_, fun hend => hnext.zero_iff.mp (hlast hend)⟩
    by_cases hzero : r = 0
    · intro a _ ha hsa
      exact absurd hsa (hnext.zero_iff.mp hzero a ha)
    · -- the returned branch is the first one and the last one
      have hend : blockEnd eip block_size ≠ 2 ^ 32 := fun h => hzero (hlast h)
      have heq : ∀ a, InBlock eip block_size a → p.Stored a → a = r := by
        intro a ha hsa
        exact BitVec.le_antisymm (hle hend a ha hsa) ((hnext.least hzero).2.2 a ha hsa)
      intro a b ha hsa hb hsb
      rw [heq a ha hsa, heq b hb hsb]
  · intro hone
    refine ⟨?_, ?_⟩
    · constructor
      · intro hzero a ha hsa
        by_cases hend : blockEnd eip block_size = 2 ^ 32
        · exact hone.last_block hend a ha hsa
        · have ha0 := hle hend a ha hsa
          rw [hzero] at ha0
          exact hsa.1 (BitVec.le_antisymm ha0 (BitVec.le_def.mpr (Nat.zero_le _)))
      · intro hnone
        by_contra hne
        exact hnone r (hmem hne).1 (hmem hne).2
    · intro hne
      obtain ⟨hblock, hstored⟩ := hmem hne
      refine ⟨hblock, hstored, ?_⟩
      intro a ha hsa
      rw [hone.unique a r ha hsa hblock hstored]
      exact BitVec.le_refl r

/-- The entries of a set of the BTB are those of addresses of the set. -/
def Placed (set : ℕ) (p : BranchPredictor) : Prop :=
  ∀ way < p.config.btb_num_ways, (p.lines set way).key ≠ 0 →
    set = index (p.lines set way).key p.config.btb_num_sets

lemma Placed.step {config : Config} {set : ℕ} {op : Op} {q q' : BranchPredictor}
    (hsound : Sound config q) (h : Placed set q) (hstep : q.step op = some q') :
    Placed set q' := by
  have hconfig := step_config hstep
  unfold Placed
  rw [hconfig]
  intro way hway
  cases hop : q.config.trains op with
  | none =>
    rw [lines_eq hconfig (step_btb hstep hop)]
    exact h way hway
  | some uop =>
    obtain ⟨rfl, hkind⟩ := eq_updateBtb hop
    by_cases hsame : set = index uop.eip q.config.btb_num_sets
    · have htrained := lines_trained hstep hkind (by omega)
        (hsound.sets (index uop.eip q.config.btb_num_sets)).ages
      rw [← hsame] at htrained
      obtain ⟨k, _, huse, _⟩ := htrained
      rw [huse way hway]
      simp only [use]
      split_ifs with hk
      · exact fun _ => hsame
      · exact h way hway
    · rw [lines_of_ne hstep hway hsame]
      exact h way hway

/-- In every run each entry of the BTB is in the set of its address. -/
theorem placed_run {config : Config} {ops : List Op} (hrun : run step ops (new config) = some p)
    {set way : ℕ} (hway : way < p.config.btb_num_ways)
    (hsource : (p.btb (p.btbIndex set way)).source ≠ 0) :
    set = index (p.btb (p.btbIndex set way)).source p.config.btb_num_sets := by
  have hall : Sound config p ∧ Placed set p := by
    refine run_invariant (P := fun _ _ => True) (Q := fun q => Sound config q ∧ Placed set q)
      ?_ ⟨sound_new config, fun way _ h => absurd rfl h⟩
      (along_of_forall (fun _ _ => trivial) ops _) hrun
    intro op q q' hq _ hstep
    have hstepped : run step [op] q = some q' := by rw [run_cons, hstep]; rfl
    exact ⟨hq.1.run hstepped, hq.2.step hq.1 hstep⟩
  exact hall.2 way hway hsource

def trainBranches : List Op :=
  [.UpdateBtb { opcode := .Jump, mop_size := 1, eip := 0x1001, neip := 0x2000 },
    .UpdateBtb { opcode := .Jump, mop_size := 1, eip := 0x1002, neip := 0x3000 }]

theorem placed_run_trainBranches :
    ∃ p ∈ run step trainBranches (new { btb_num_sets := 4, btb_num_ways := 1 }),
      1 = index (p.btb (p.btbIndex 1 0)).source p.config.btb_num_sets := by
  have hrun : ∃ p ∈ run step trainBranches (new { btb_num_sets := 4, btb_num_ways := 1 }),
      0 < p.config.btb_num_ways ∧ (p.btb (p.btbIndex 1 0)).source ≠ 0 := by
    decide +kernel
  obtain ⟨p, hp, hway, hsource⟩ := hrun
  exact ⟨p, hp, placed_run hp hway hsource⟩

theorem getNextBranch_next_fourSets :
    ∃ r, (new { btb_num_sets := 4, btb_num_ways := 1 }).getNextBranch 0x1000 4 = some r ∧
      ((new { btb_num_sets := 4, btb_num_ways := 1 }).NextBranch 0x1000 4 r ↔
        (new { btb_num_sets := 4, btb_num_ways := 1 }).AtMostOneBranch 0x1000 4) :=
  getNextBranch_next_iff _ (by decide) 0x1000 4 (by decide)

/-- The branch at 0x1002 is returned, and the one at 0x1001 is the next branch. -/
theorem getNextBranch_not_next :
    ¬∀ config ops p eip block_size r, run step ops (new config) = some p →
      p.getNextBranch eip block_size = some r → p.NextBranch eip block_size r := by
  intro h
  obtain ⟨p, hp⟩ := Option.isSome_iff_exists.mp (by decide +kernel :
    (run step trainBranches (new { btb_num_sets := 4, btb_num_ways := 1 })).isSome = true)
  have hr : (run step trainBranches (new { btb_num_sets := 4, btb_num_ways := 1 })).bind
      (·.getNextBranch 0x1000 4) = some 0x1002 := by decide +kernel
  have hsource : (run step trainBranches (new { btb_num_sets := 4, btb_num_ways := 1 })).map
      (fun p => (p.config.btb_num_ways, (p.btb (p.btbIndex 1 0)).source,
        index 0x1001 p.config.btb_num_sets)) = some (1, 0x1001, 1) := by decide +kernel
  rw [hp] at hr hsource
  simp only [Option.bind_some, Option.map_some, Option.some.injEq, Prod.mk.injEq] at hr hsource
  obtain ⟨hways, hsource, hset⟩ := hsource
  have hnext := h _ _ p _ _ _ hp hr
  have hstored : p.Stored 0x1001 :=
    ⟨by decide, 0, by rw [hways]; decide, by rw [hset]; exact hsource⟩
  have hle := (hnext.least (by decide)).2.2 0x1001 ⟨by decide, by decide⟩ hstored
  exact absurd hle (by decide)

end NextBranch

section Multiple

variable (p : BranchPredictor) (uop : Uop)

def setHistory (eip : BitVec 32) (row : ℕ) : BranchPredictor :=
  { p with
    two_level_bht :=
      Function.update p.two_level_bht (index eip p.config.two_level_l1_size) row }

def shiftHistory (eip : BitVec 32) (d : Prediction) : BranchPredictor :=
  p.setHistory eip
    (((p.two_level_bht (index eip p.config.two_level_l1_size) <<< 1) ||| value d) &&&
      (p.config.two_level_l2_height - 1))

/-- The predictor after `i` lookups, each of which shifts its prediction into the history. -/
def predicted : ℕ → Option BranchPredictor
  | 0 => some p
  | i + 1 => (predicted i).bind fun q =>
      (q.Lookup uop).map fun u => q.shiftHistory uop.eip u.prediction

variable {p uop}

lemma shiftHistory_setHistory (eip : BitVec 32) (row : ℕ) (d : Prediction) :
    (p.setHistory eip row).shiftHistory eip d =
      p.setHistory eip (((row <<< 1) ||| value d) &&& (p.config.two_level_l2_height - 1)) := by
  unfold shiftHistory setHistory
  simp only [Function.update_self, Function.update_idem]

lemma Lookup_twoLevel (hkind : p.config.kind = .TwoLevel) (hop : uop.opcode = .Branch) :
    p.Lookup uop = p.LookupTwoLevel uop := by
  unfold Lookup
  rw [hop, hkind]
  rfl

lemma getLsbD_value (d : Prediction) {i j : ℕ} (hj : j < 32) :
    (BitVec.ofNat 32 (value d) <<< i).getLsbD j = decide (j = i ∧ d = .Taken) := by
  rw [BitVec.getLsbD_shiftLeft, BitVec.getLsbD_ofNat]
  cases d with
  | NotTaken => simp [value]
  | Taken =>
    simp only [value]
    apply Bool.eq_iff_iff.mpr
    simp only [Bool.and_eq_true, Nat.testBit_one_eq_true_iff_self_eq_zero, decide_eq_true_eq,
      Bool.not_eq_true', decide_eq_false_iff_not, and_true]
    omega

section Histories

variable (p) (pht_col row : ℕ)

def directionAt (row : ℕ) : Prediction :=
  direction (p.two_level_pht (row * p.config.two_level_l2_size + pht_col))

/-- The history behind `i` predictions from the history `row` on -/
def history : ℕ → ℕ
  | 0 => row
  | i + 1 => ((history i <<< 1) ||| value (p.directionAt pht_col (history i))) &&&
      (p.config.two_level_l2_height - 1)

variable {p pht_col row}

lemma history_lt (hrow : row < p.config.two_level_l2_height) (i : ℕ) :
    p.history pht_col row i < p.config.two_level_l2_height := by
  cases i with
  | zero => exact hrow
  | succ i =>
    have hle : p.history pht_col row (i + 1) ≤ p.config.two_level_l2_height - 1 :=
      Nat.and_le_right
    omega

lemma getLsbD_predictRest (pht_col row n i j : ℕ) (prediction : BitVec 32) (hj : j < 32) :
    (p.predictRest pht_col n (i + 1) (p.history pht_col row i)
        (p.directionAt pht_col (p.history pht_col row i)) prediction).getLsbD j =
      (prediction.getLsbD j || decide (i < j ∧ j ≤ i + n ∧
        p.directionAt pht_col (p.history pht_col row j) = .Taken)) := by
  induction n generalizing i prediction with
  | zero =>
    unfold predictRest
    simp
    omega
  | succ n ih =>
    unfold predictRest
    dsimp only
    change (p.predictRest pht_col n (i + 1 + 1) (p.history pht_col row (i + 1))
      (p.directionAt pht_col (p.history pht_col row (i + 1))) _).getLsbD j = _
    rw [ih (i + 1), BitVec.getLsbD_or]
    change (_ || (BitVec.ofNat 32 (value (p.directionAt pht_col
      (p.history pht_col row (i + 1)))) <<< (i + 1)).getLsbD j || _) = _
    rw [getLsbD_value _ hj, Bool.or_assoc]
    congr 1
    rw [← Bool.decide_or]
    apply decide_eq_decide.mpr
    constructor
    · intro h
      cases h with
      | inl hthis => exact ⟨by omega, by omega, by rw [hthis.1]; exact hthis.2⟩
      | inr hrest => exact ⟨by omega, by omega, hrest.2.2⟩
    · intro h
      by_cases hthis : j = i + 1
      · exact Or.inl ⟨hthis, by rw [← hthis]; exact h.2.2⟩
      · exact Or.inr ⟨by omega, by omega, h.2.2⟩

lemma getLsbD_predictions (pht_col row : ℕ) {count i : ℕ} (hi : i < count) (hlt : i < 32) :
    (p.predictRest pht_col (count - 1) 1 row (p.directionAt pht_col row)
        (BitVec.ofNat 32 (value (p.directionAt pht_col row)))).getLsbD i =
      decide (p.directionAt pht_col (p.history pht_col row i) = .Taken) := by
  have hrest := getLsbD_predictRest (p := p) pht_col row (count - 1) 0 i
    (BitVec.ofNat 32 (value (p.directionAt pht_col row))) hlt
  have hfirst := getLsbD_value (p.directionAt pht_col row) (i := 0) hlt
  rw [BitVec.shiftLeft_zero] at hfirst
  rw [hfirst, ← Bool.decide_or] at hrest
  apply hrest.trans
  apply decide_eq_decide.mpr
  cases i with
  | zero => simp [history]
  | succ i =>
    constructor
    · intro h
      cases h with
      | inl hzero => exact absurd hzero.1 (by omega)
      | inr hloop => exact hloop.2.2
    · exact fun h => Or.inr ⟨by omega, by omega, h⟩

end Histories

section Guards

variable {row : ℕ}

lemma LookupTwoLevel_eq
    (hbht : index uop.eip p.config.two_level_l1_size < p.config.two_level_l1_size)
    (hrow : p.two_level_bht (index uop.eip p.config.two_level_l1_size) = row)
    (hlt : row < p.config.two_level_l2_height)
    (hcol : index uop.eip p.config.two_level_l2_size < p.config.two_level_l2_size) :
    (p.LookupTwoLevel uop).map (·.prediction) =
      some (p.directionAt (index uop.eip p.config.two_level_l2_size) row) := by
  unfold LookupTwoLevel
  dsimp only
  rw [if_pos hbht, hrow, if_pos ⟨hlt, hcol⟩]
  rfl

lemma predicted_eq (hkind : p.config.kind = .TwoLevel) (hop : uop.opcode = .Branch)
    (hbht : index uop.eip p.config.two_level_l1_size < p.config.two_level_l1_size)
    (hrow : p.two_level_bht (index uop.eip p.config.two_level_l1_size) = row)
    (hlt : row < p.config.two_level_l2_height)
    (hcol : index uop.eip p.config.two_level_l2_size < p.config.two_level_l2_size) (i : ℕ) :
    p.predicted uop i = some (p.setHistory uop.eip
      (p.history (index uop.eip p.config.two_level_l2_size) row i)) := by
  induction i with
  | zero =>
    unfold predicted history setHistory
    rw [← hrow, Function.update_eq_self]
  | succ i ih =>
    unfold predicted
    rw [ih, Option.bind_some, Lookup_twoLevel (p := p.setHistory _ _) hkind hop]
    have hlookup := LookupTwoLevel_eq (p := p.setHistory uop.eip
      (p.history (index uop.eip p.config.two_level_l2_size) row i)) hbht
      (Function.update_self ..) (history_lt hlt i) hcol
    obtain ⟨u, hu, hd⟩ := Option.map_eq_some_iff.mp hlookup
    rw [hu, Option.map_some, hd, shiftHistory_setHistory]
    rfl

end Guards

lemma predicted_none (hkind : p.config.kind = .TwoLevel) (hop : uop.opcode = .Branch)
    (hnone : p.LookupTwoLevel uop = none) (i : ℕ) :
    (p.predicted uop i).bind (·.Lookup uop) = none := by
  induction i with
  | zero =>
    unfold predicted
    rw [Option.bind_some, Lookup_twoLevel hkind hop, hnone]
  | succ i ih =>
    have hi : p.predicted uop (i + 1) = none := by
      unfold predicted
      cases hq : p.predicted uop i with
      | none => rfl
      | some q =>
        rw [hq, Option.bind_some] at ih
        rw [Option.bind_some, ih, Option.map_none]
    rw [hi, Option.bind_none]

/-- Bit `i` of the multiple prediction is what a lookup predicts after the history was shifted by
the predictions of the bits before it. -/
theorem getLsbD_LookupMultiple (p : BranchPredictor) (uop : Uop) (count i : ℕ)
    (hkind : p.config.kind = .TwoLevel) (hop : uop.opcode = .Branch)
    (hsize : p.config.two_level_history_size ≤ 30)
    (hcount : count ≤ p.config.two_level_history_size)
    (hi : i < count) :
    (p.LookupMultiple uop.eip count).map
        (fun prediction => if prediction.getLsbD i then Prediction.Taken else .NotTaken) =
      ((p.predicted uop i).bind (·.Lookup uop)).map (·.prediction) := by
  unfold LookupMultiple
  rw [if_neg (not_not.mpr hkind)]
  dsimp only
  by_cases hbht : index uop.eip p.config.two_level_l1_size < p.config.two_level_l1_size
  · rw [if_pos hbht]
    generalize hrow : p.two_level_bht (index uop.eip p.config.two_level_l1_size) = row
    by_cases hguard : row < p.config.two_level_l2_height ∧
        index uop.eip p.config.two_level_l2_size < p.config.two_level_l2_size
    · rw [if_pos hguard, predicted_eq hkind hop hbht hrow hguard.1 hguard.2, Option.bind_some,
        Lookup_twoLevel (p := p.setHistory _ _) hkind hop,
        LookupTwoLevel_eq (p := p.setHistory _ _) hbht (Function.update_self ..)
          (history_lt hguard.1 i) hguard.2,
        Option.map_some]
      have hbit := getLsbD_predictions (p := p) (index uop.eip p.config.two_level_l2_size) row
        hi (by omega)
      change some (if (p.predictRest _ _ 1 row (p.directionAt _ row) (BitVec.ofNat 32
        (value (p.directionAt _ row)))).getLsbD i = true then Prediction.Taken else .NotTaken) =
          some (p.directionAt (index uop.eip p.config.two_level_l2_size)
            (p.history (index uop.eip p.config.two_level_l2_size) row i))
      rw [hbit]
      cases p.directionAt (index uop.eip p.config.two_level_l2_size)
        (p.history (index uop.eip p.config.two_level_l2_size) row i) <;> rfl
    · rw [if_neg hguard, predicted_none hkind hop _ i]
      · rfl
      · unfold LookupTwoLevel
        dsimp only
        rw [if_pos hbht, hrow, if_neg hguard]
  · rw [if_neg hbht, predicted_none hkind hop _ i]
    · rfl
    · unfold LookupTwoLevel
      dsimp only
      rw [if_neg hbht]

/-- Three predictions with a history of three branches -/
theorem getLsbD_LookupMultiple_three :
    ((new { two_level_l2_size := 4, two_level_history_size := 3 }).LookupMultiple 0x1000 3).map
        (fun prediction => if prediction.getLsbD 2 then Prediction.Taken else .NotTaken) =
      (((new { two_level_l2_size := 4, two_level_history_size := 3 }).predicted
        { opcode := .Branch, mop_size := 2, eip := 0x1000, neip := 0x1002 } 2).bind
        (·.Lookup { opcode := .Branch, mop_size := 2, eip := 0x1000, neip := 0x1002 })).map
        (·.prediction) :=
  getLsbD_LookupMultiple _ { opcode := .Branch, mop_size := 2, eip := 0x1000, neip := 0x1002 } 3 2
    rfl rfl (by decide) (by decide) (by decide)

end Multiple

end OISA.X86.BranchPredictor
