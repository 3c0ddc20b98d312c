import OISA.X86.BranchPredictor
import OISA.Lib.Lru
import OISA.Lib.Runs

/-!
# Branch target buffer

A set of the BTB is a set of lines replaced in order of their last use, and `UpdateBtb` trains the
address of a branch with its target.
-/

namespace OISA.X86.BranchPredictor

open OISA.Lib OISA.Lib.Lru

def lines (p : BranchPredictor) (set way : ℕ) : Line (BitVec 32) (BitVec 32) where
  key := (p.btb (p.btbIndex set way)).source
  value := (p.btb (p.btbIndex set way)).target
  age := (p.btb (p.btbIndex set way)).counter

def counters (p : BranchPredictor) (set : ℕ) : List ℤ :=
  (List.range p.config.btb_num_ways).map fun way => (p.btb (p.btbIndex set way)).counter

/-- The addresses of a set -/
def sources (p : BranchPredictor) (set : ℕ) : List (BitVec 32) :=
  (List.range p.config.btb_num_ways).map fun way => (p.btb (p.btbIndex set way)).source

lemma findBtb_eq (p : BranchPredictor) (set : ℕ) (eip : BitVec 32) :
    p.findBtb set eip = find p.config.btb_num_ways (p.lines set) eip := rfl

lemma index_lt (eip : BitVec 32) {size : ℕ} (h : 0 < size) : index eip size < size := by
  have hle : index eip size ≤ size - 1 := Nat.and_le_right
  omega

lemma btbIndex_inj {p : BranchPredictor} {set set' way way' : ℕ}
    (hway : way < p.config.btb_num_ways) (hway' : way' < p.config.btb_num_ways)
    (h : p.btbIndex set way = p.btbIndex set' way') : set = set' ∧ way = way' :=
  mul_add_inj hway hway' h

lemma btbIndex_mem_segment {p : BranchPredictor} {set set' way : ℕ}
    (hway : way < p.config.btb_num_ways) :
    (set * p.config.btb_num_ways ≤ p.btbIndex set' way ∧
      p.btbIndex set' way < set * p.config.btb_num_ways + p.config.btb_num_ways) ↔
      set' = set :=
  mul_add_mem_segment hway

section Evict

variable (p : BranchPredictor) (set : ℕ) (uop : Uop)

lemma evictBtb_btb {set' way : ℕ} (hway : way < p.config.btb_num_ways) :
    (p.evictBtb set uop).btb (p.btbIndex set' way) =
      if set' = set then
        if (p.btb (p.btbIndex set' way)).counter - 1 < 0 then
          { source := uop.eip, target := uop.neip, counter := p.config.btb_num_ways - 1 }
        else
          { p.btb (p.btbIndex set' way) with
            counter := (p.btb (p.btbIndex set' way)).counter - 1 }
      else p.btb (p.btbIndex set' way) := by
  have h := foldl_segment
    (fun entry : BtbEntry =>
      if entry.counter - 1 < 0 then
        { source := uop.eip, target := uop.neip, counter := p.config.btb_num_ways - 1 }
      else { entry with counter := entry.counter - 1 })
    (set * p.config.btb_num_ways) p.config.btb_num_ways p.btb (p.btbIndex set' way)
  simp only [btbIndex_mem_segment hway] at h
  exact h

lemma lines_evictBtb_self {k way : ℕ} (hages : Ages p.config.btb_num_ways fun w =>
    (p.lines set w).age) (hk : k < p.config.btb_num_ways) (hage : (p.lines set k).age = 0)
    (hway : way < p.config.btb_num_ways) :
    (p.evictBtb set uop).lines set way =
      use p.config.btb_num_ways (p.lines set) k uop.eip uop.neip way := by
  have hentry := @evictBtb_btb p set uop set way hway
  rw [if_pos rfl] at hentry
  have hrotate := hages.rotate_eq_touch hk hage hway
  have hnonneg := hages.nonneg way hway
  have hiff : (p.lines set way).age - 1 < 0 ↔ way = k := by
    constructor
    · intro hneg
      exact hages.inj way hway k hk (by omega)
    · intro heq
      rw [heq, hage]
      omega
  unfold use
  rw [← hrotate]
  unfold lines at hiff ⊢
  unfold Lru.rotate
  change Line.mk ((p.evictBtb set uop).btb (p.btbIndex set way)).source
    ((p.evictBtb set uop).btb (p.btbIndex set way)).target
    ((p.evictBtb set uop).btb (p.btbIndex set way)).counter = _
  rw [hentry]
  dsimp only at hiff
  by_cases h : way = k
  · have hneg := hiff.mpr h
    rw [if_pos hneg]
    simp only [if_pos h, if_pos hneg]
  · have hnot := mt hiff.mp h
    rw [if_neg hnot]
    simp only [if_neg h, if_neg hnot]

end Evict

section Hit

variable (p : BranchPredictor) (set found_way : ℕ) (uop : Uop)

/-- The loop of a hit leaves the counter it compares with as it is. -/
lemma hitBtb_loop (n i : ℕ) :
    (List.range n).foldl
      (fun btb way =>
        let entry := btb (p.btbIndex set way)
        if entry.counter > (btb (p.btbIndex set found_way)).counter then
          Function.update btb (p.btbIndex set way) { entry with counter := entry.counter - 1 }
        else btb)
      p.btb i =
      if (set * p.config.btb_num_ways ≤ i ∧ i < set * p.config.btb_num_ways + n) ∧
          (p.btb i).counter > (p.btb (p.btbIndex set found_way)).counter then
        { p.btb i with counter := (p.btb i).counter - 1 }
      else p.btb i := by
  induction n generalizing i with
  | zero =>
    rw [if_neg (by omega)]
    rfl
  | succ n ih =>
    rw [List.range_succ, List.foldl_append, List.foldl_cons, List.foldl_nil]
    generalize hbtb : (List.range n).foldl _ p.btb = btb at ih ⊢
    have hfound : btb (p.btbIndex set found_way) = p.btb (p.btbIndex set found_way) := by
      rw [ih, if_neg (by omega)]
    have hentry : btb (p.btbIndex set n) = p.btb (p.btbIndex set n) := by
      rw [ih, if_neg]
      unfold btbIndex
      omega
    dsimp only
    rw [hfound, hentry]
    by_cases hi : i = p.btbIndex set n
    · have hin : set * p.config.btb_num_ways ≤ i ∧
          i < set * p.config.btb_num_ways + (n + 1) := by
        rw [hi]
        unfold btbIndex
        omega
      rw [hi] at hin ⊢
      by_cases hlt : (p.btb (p.btbIndex set n)).counter >
          (p.btb (p.btbIndex set found_way)).counter
      · rw [if_pos hlt, if_pos ⟨hin, hlt⟩, Function.update_self]
      · rw [if_neg hlt, if_neg (fun h => hlt h.2), hentry]
    · have hsegment : (set * p.config.btb_num_ways ≤ i ∧
          i < set * p.config.btb_num_ways + (n + 1)) ↔
          (set * p.config.btb_num_ways ≤ i ∧ i < set * p.config.btb_num_ways + n) := by
        unfold btbIndex at hi
        omega
      have hi' := ih i
      simp only [hsegment]
      rw [← hi']
      by_cases hlt : (p.btb (p.btbIndex set n)).counter >
          (p.btb (p.btbIndex set found_way)).counter
      · rw [if_pos hlt, Function.update_of_ne hi]
      · rw [if_neg hlt]

lemma hitBtb_btb {set' way : ℕ} (hway : way < p.config.btb_num_ways)
    (hfound : found_way < p.config.btb_num_ways) :
    (p.hitBtb set found_way uop).btb (p.btbIndex set' way) =
      if set' = set ∧ way = found_way then
        { p.btb (p.btbIndex set' way) with
          counter := p.config.btb_num_ways - 1, target := uop.neip }
      else if set' = set ∧ (p.btb (p.btbIndex set' way)).counter >
          (p.btb (p.btbIndex set found_way)).counter then
        { p.btb (p.btbIndex set' way) with
          counter := (p.btb (p.btbIndex set' way)).counter - 1 }
      else p.btb (p.btbIndex set' way) := by
  have hloop := p.hitBtb_loop set found_way p.config.btb_num_ways
  unfold hitBtb
  dsimp only at hloop ⊢
  by_cases hsame : set' = set ∧ way = found_way
  · rw [if_pos hsame, hsame.1, hsame.2, Function.update_self, hloop, if_neg (by omega)]
  · have hne : p.btbIndex set' way ≠ p.btbIndex set found_way :=
      fun h => hsame (btbIndex_inj hway hfound h)
    rw [if_neg hsame, Function.update_of_ne hne, hloop]
    simp only [btbIndex_mem_segment hway]

lemma lines_hitBtb_self {way : ℕ} (hway : way < p.config.btb_num_ways)
    (hfound : p.findBtb set uop.eip = some found_way) :
    (p.hitBtb set found_way uop).lines set way =
      use p.config.btb_num_ways (p.lines set) found_way uop.eip uop.neip way := by
  rw [findBtb_eq] at hfound
  have hf := find_eq_some_iff.mp hfound
  have hentry := @hitBtb_btb p set found_way uop set way hway hf.1
  have hkey : (p.btb (p.btbIndex set found_way)).source = uop.eip := hf.2.1
  change Line.mk ((p.hitBtb set found_way uop).btb (p.btbIndex set way)).source
    ((p.hitBtb set found_way uop).btb (p.btbIndex set way)).target
    ((p.hitBtb set found_way uop).btb (p.btbIndex set way)).counter = _
  rw [hentry]
  unfold use touch lines
  by_cases h : way = found_way
  · simp [h, hkey]
  · simp only [h, and_false, if_false, true_and]
    split_ifs <;> rfl

end Hit

section Steps

variable {p p' : BranchPredictor} {op : Op} {uop : Uop}

/-- The uop that the operation trains the BTB with. -/
def Config.trains (config : Config) : Op → Option Uop
  | .UpdateBtb uop => if config.kind = .Perfect then none else some uop
  | _ => none

lemma LookupBtb_cases {target : BitVec 32} (h : p.LookupBtb uop = some (target, p')) :
    p' = p ∨
      (uop.opcode = .Call ∧ uop.speculative_mode = false ∧ p.push uop.next = some p') ∨
      (uop.opcode = .Ret ∧ uop.speculative_mode = false ∧ p.pop = some (target, p')) := by
  unfold LookupBtb at h
  simp only at h
  cases hf : p.findBtb (index uop.eip p.config.btb_num_sets) uop.eip with
  | none =>
    rw [hf] at h
    simp only at h
    split_ifs at h <;> exact Or.inl (congrArg Prod.snd (Option.some.inj h)).symm
  | some way =>
    rw [hf] at h
    simp only at h
    split_ifs at h with hctrl hkind hibranch hrange hcall hret
    · exact Or.inl (congrArg Prod.snd (Option.some.inj h)).symm
    · exact Or.inl (congrArg Prod.snd (Option.some.inj h)).symm
    · obtain ⟨q, hq, heq⟩ := Option.map_eq_some_iff.mp h
      have hqp : q = p' := congrArg Prod.snd heq
      rw [hqp] at hq
      exact Or.inr (Or.inl ⟨hcall.1, hcall.2, hq⟩)
    · exact Or.inr (Or.inr ⟨hret.1, hret.2, h⟩)
    · exact Or.inl (congrArg Prod.snd (Option.some.inj h)).symm

lemma push_cases {eip : BitVec 32} (h : p.push eip = some p') :
    p.ras_index < p.config.ras_size ∧
      p' = { p with
        ras := Function.update p.ras p.ras_index eip
        ras_index := (p.ras_index + 1) % p.config.ras_size } := by
  unfold push at h
  split_ifs at h with hlt
  exact ⟨hlt, (Option.some.inj h).symm⟩

lemma pop_cases {target : BitVec 32} (h : p.pop = some (target, p')) :
    0 < p.config.ras_size ∧
      target = p.ras ((p.ras_index + p.config.ras_size - 1) % p.config.ras_size) ∧
      p' = { p with
        ras_index := (p.ras_index + p.config.ras_size - 1) % p.config.ras_size } := by
  unfold pop at h
  split_ifs at h with hzero
  have heq := Option.some.inj h
  exact ⟨Nat.pos_of_ne_zero hzero, (congrArg Prod.fst heq).symm, (congrArg Prod.snd heq).symm⟩

lemma LookupBtb_keeps {target : BitVec 32} (h : p.LookupBtb uop = some (target, p')) :
    p'.config = p.config ∧ p'.btb = p.btb := by
  cases LookupBtb_cases h with
  | inl hsame => rw [hsame]; exact ⟨rfl, rfl⟩
  | inr hstack =>
    cases hstack with
    | inl hpush => rw [(push_cases hpush.2.2).2]; exact ⟨rfl, rfl⟩
    | inr hpop => rw [(pop_cases hpop.2.2).2.2]; exact ⟨rfl, rfl⟩

lemma Update_keeps (h : p.Update uop = some p') : p'.config = p.config ∧ p'.btb = p.btb := by
  unfold Update UpdateChoice UpdateBimod UpdateTwoLevel at h
  grind

lemma UpdateBtb_perfect (h : p.UpdateBtb uop = some p') (hkind : p.config.kind = .Perfect) :
    p' = p := by
  unfold UpdateBtb at h
  rw [if_pos hkind] at h
  exact (Option.some.inj h).symm

lemma UpdateBtb_cases (h : p.UpdateBtb uop = some p') (hkind : p.config.kind ≠ .Perfect) :
    (p.findBtb (index uop.eip p.config.btb_num_sets) uop.eip = none ∧
      p' = p.evictBtb (index uop.eip p.config.btb_num_sets) uop) ∨
    ∃ found, p.findBtb (index uop.eip p.config.btb_num_sets) uop.eip = some found ∧
      p' = p.hitBtb (index uop.eip p.config.btb_num_sets) found uop := by
  unfold UpdateBtb at h
  rw [if_neg hkind] at h
  simp only at h
  split_ifs at h with hrange
  cases hf : p.findBtb (index uop.eip p.config.btb_num_sets) uop.eip with
  | none =>
    rw [hf] at h
    exact Or.inl ⟨rfl, (Option.some.inj h).symm⟩
  | some found =>
    rw [hf] at h
    exact Or.inr ⟨found, rfl, (Option.some.inj h).symm⟩

lemma UpdateBtb_config (h : p.UpdateBtb uop = some p') : p'.config = p.config := by
  by_cases hkind : p.config.kind = .Perfect
  · rw [UpdateBtb_perfect h hkind]
  · obtain ⟨_, rfl⟩ | ⟨_, _, rfl⟩ := UpdateBtb_cases h hkind <;> rfl

lemma step_config (h : step op p = some p') : p'.config = p.config := by
  cases op with
  | Lookup uop =>
    obtain ⟨_, _, rfl⟩ := Option.map_eq_some_iff.mp h
    rfl
  | Update uop => exact (Update_keeps h).1
  | LookupBtb uop =>
    obtain ⟨r, hr, rfl⟩ := Option.map_eq_some_iff.mp h
    exact (LookupBtb_keeps hr).1
  | UpdateBtb uop => exact UpdateBtb_config h

lemma step_btb (h : step op p = some p') (hop : p.config.trains op = none) : p'.btb = p.btb := by
  cases op with
  | Lookup uop =>
    obtain ⟨_, _, rfl⟩ := Option.map_eq_some_iff.mp h
    rfl
  | Update uop => exact (Update_keeps h).2
  | LookupBtb uop =>
    obtain ⟨r, hr, rfl⟩ := Option.map_eq_some_iff.mp h
    exact (LookupBtb_keeps hr).2
  | UpdateBtb uop =>
    have hkind : p.config.kind = .Perfect := by
      by_contra hkind
      simp [Config.trains, hkind] at hop
    rw [UpdateBtb_perfect h hkind]

lemma lines_eq (hconfig : p'.config = p.config) (hbtb : p'.btb = p.btb) :
    p'.lines = p.lines := by
  unfold lines btbIndex
  rw [hconfig, hbtb]

lemma lines_of_ne (h : p.UpdateBtb uop = some p') {set way : ℕ}
    (hway : way < p.config.btb_num_ways) (hset : set ≠ index uop.eip p.config.btb_num_sets) :
    p'.lines set way = p.lines set way := by
  have hentry : p'.btb (p.btbIndex set way) = p.btb (p.btbIndex set way) := by
    by_cases hkind : p.config.kind = .Perfect
    · rw [UpdateBtb_perfect h hkind]
    · cases UpdateBtb_cases h hkind with
      | inl hmiss => rw [hmiss.2, evictBtb_btb _ _ _ hway, if_neg hset]
      | inr hhit =>
        obtain ⟨found, hf, rfl⟩ := hhit
        rw [findBtb_eq] at hf
        rw [hitBtb_btb _ _ _ _ hway (find_eq_some_iff.mp hf).1,
          if_neg (fun hand => hset hand.1), if_neg (fun hand => hset hand.1)]
  have hindex : p'.btbIndex set way = p.btbIndex set way := by
    unfold btbIndex
    rw [UpdateBtb_config h]
  change Line.mk (p'.btb (p'.btbIndex set way)).source (p'.btb (p'.btbIndex set way)).target
    (p'.btb (p'.btbIndex set way)).counter = _
  rw [hindex, hentry]
  rfl

lemma lines_trained (h : p.UpdateBtb uop = some p') (hkind : p.config.kind ≠ .Perfect)
    (hways : 0 < p.config.btb_num_ways)
    (hages : Ages p.config.btb_num_ways fun way =>
      (p.lines (index uop.eip p.config.btb_num_sets) way).age) :
    Trained p.config.btb_num_ways (p.lines (index uop.eip p.config.btb_num_sets))
      uop.eip uop.neip (p'.lines (index uop.eip p.config.btb_num_sets)) := by
  cases UpdateBtb_cases h hkind with
  | inl hmiss =>
    obtain ⟨k, hk, hage⟩ := hages.exists_oldest hways
    rw [hmiss.2]
    refine ⟨k, hk, ?_, Or.inr ⟨hmiss.1, hage⟩⟩
    intro way hway
    exact p.lines_evictBtb_self _ uop hages hk hage hway
  | inr hhit =>
    obtain ⟨found, hf, rfl⟩ := hhit
    have hfind : find p.config.btb_num_ways (p.lines (index uop.eip p.config.btb_num_sets))
        uop.eip = some found := hf
    refine ⟨found, (find_eq_some_iff.mp hfind).1, ?_, Or.inl hfind⟩
    intro way hway
    exact p.lines_hitBtb_self _ found uop hway hf

structure LruSet (p : BranchPredictor) (set : ℕ) : Prop where
  ages : Ages p.config.btb_num_ways fun way => (p.lines set way).age
  distinct : Distinct 0 p.config.btb_num_ways (p.lines set)

lemma lruSet_new (config : Config) (set : ℕ) : LruSet (new config) set where
  ages := by
    apply (ages_initial config.btb_num_ways).congr
    intro way hway
    change (((set * config.btb_num_ways + way : ℕ) : ℤ) % config.btb_num_ways) = way
    norm_cast
    rw [Nat.mul_add_mod_self_right, Nat.mod_eq_of_lt hway]
  distinct := by
    intro v _ w _ _ hused
    exact absurd rfl hused

lemma LruSet.congr {set : ℕ} (h : LruSet p set) (hconfig : p'.config = p.config)
    (hlines : ∀ way < p.config.btb_num_ways, p'.lines set way = p.lines set way) :
    LruSet p' set where
  ages := by
    rw [hconfig]
    apply h.ages.congr
    intro way hway
    rw [hlines way hway]
  distinct := by
    rw [hconfig]
    intro v hv w hw hkey hused
    rw [hlines v hv] at hkey hused
    rw [hlines w hw] at hkey
    exact h.distinct v hv w hw hkey hused

lemma LruSet.step {set : ℕ} (hset : LruSet p set) (h : step op p = some p') :
    LruSet p' set := by
  have hconfig := step_config h
  cases hop : p.config.trains op with
  | none =>
    apply hset.congr hconfig
    intro way _
    rw [lines_eq hconfig (step_btb h hop)]
  | some uop =>
    cases op with
    | UpdateBtb uop' =>
      have hkind : p.config.kind ≠ .Perfect := by
        intro hperfect
        simp [Config.trains, hperfect] at hop
      by_cases hsame : set = index uop'.eip p.config.btb_num_sets
      · by_cases hways : 0 < p.config.btb_num_ways
        · rw [hsame] at hset ⊢
          have htrained := lines_trained h hkind hways hset.ages
          refine ⟨?_, ?_⟩
          · rw [hconfig]
            exact htrained.ages hset.ages
          · rw [hconfig]
            exact htrained.distinct hset.distinct
        · apply hset.congr hconfig
          intro way hway
          omega
      · apply hset.congr hconfig
        intro way hway
        exact lines_of_ne h hway hsame
    | Lookup uop' => cases hop
    | Update uop' => cases hop
    | LookupBtb uop' => cases hop

lemma ras_index_step (hras : 0 < p.config.ras_size → p.ras_index < p.config.ras_size)
    (h : step op p = some p') : 0 < p'.config.ras_size → p'.ras_index < p'.config.ras_size := by
  intro hpos
  rw [step_config h] at hpos ⊢
  cases op with
  | Lookup uop =>
    obtain ⟨_, _, rfl⟩ := Option.map_eq_some_iff.mp h
    exact hras hpos
  | Update uop =>
    change p.Update uop = some p' at h
    unfold Update UpdateChoice UpdateBimod UpdateTwoLevel at h
    grind
  | LookupBtb uop =>
    obtain ⟨r, hr, rfl⟩ := Option.map_eq_some_iff.mp h
    cases LookupBtb_cases hr with
    | inl hsame =>
      rw [hsame]
      exact hras hpos
    | inr hstack =>
      cases hstack with
      | inl hpush =>
        rw [(push_cases hpush.2.2).2]
        exact Nat.mod_lt _ hpos
      | inr hpop =>
        rw [(pop_cases hpop.2.2).2.2]
        exact Nat.mod_lt _ hpos
  | UpdateBtb uop =>
    by_cases hkind : p.config.kind = .Perfect
    · rw [UpdateBtb_perfect h hkind]
      exact hras hpos
    · obtain ⟨_, rfl⟩ | ⟨_, _, rfl⟩ := UpdateBtb_cases h hkind <;> exact hras hpos

lemma LookupBtb_target {eip target : BitVec 32} {D : Finset (BitVec 32)} {way : ℕ}
    (hras : 0 < p.config.ras_size → p.ras_index < p.config.ras_size)
    (hholds : Holds p.config.btb_num_ways (p.lines (index eip p.config.btb_num_sets)) eip target
      D way)
    (hkind : p.config.kind ≠ .Perfect) (hsets : 0 < p.config.btb_num_sets) (heip : uop.eip = eip)
    (hop : uop.opcode = .Jump ∨ uop.opcode = .Branch ∨ uop.opcode = .Call)
    (hcall : uop.opcode = .Call → 0 < p.config.ras_size) :
    (p.LookupBtb uop).map (·.1) = some target := by
  have hfound : p.findBtb (index eip p.config.btb_num_sets) eip = some way := hholds.found
  have htarget : (p.btb (p.btbIndex (index eip p.config.btb_num_sets) way)).target = target :=
    hholds.value_eq
  have hctrl : uop.opcode.FlagCtrl = true ∧ uop.opcode ≠ .Ibranch ∧ uop.opcode ≠ .Ret := by
    obtain h | h | h := hop <;> rw [h] <;> decide
  unfold LookupBtb
  rw [if_neg (by simp [hctrl.1]), if_neg hkind, if_neg hctrl.2.1, heip]
  dsimp only
  rw [if_pos (index_lt eip hsets), hfound]
  dsimp only
  by_cases hpush : uop.opcode = .Call ∧ uop.speculative_mode = false
  · have hlt := hras (hcall hpush.1)
    rw [if_pos hpush, htarget]
    unfold push
    rw [if_pos hlt]
    rfl
  · rw [if_neg hpush, if_neg (fun hret => hctrl.2.2 hret.1), htarget]
    rfl

end Steps

section RunsOfBtb

variable {config : Config} {p p' : BranchPredictor} {ops : List Op}

structure Sound (config : Config) (p : BranchPredictor) : Prop where
  config_eq : p.config = config
  sets : ∀ set, LruSet p set
  ras : 0 < p.config.ras_size → p.ras_index < p.config.ras_size

lemma sound_new (config : Config) : Sound config (new config) where
  config_eq := rfl
  sets := lruSet_new config
  ras := by intro h; exact h

lemma Sound.run (hsound : Sound config p) (hrun : run step ops p = some p') :
    Sound config p' := by
  apply run_invariant (P := fun _ _ => True) _ hsound (along_of_forall (fun _ _ => trivial) ops p) hrun
  intro op q q' hq _ hstep
  exact ⟨(step_config hstep).trans hq.config_eq, fun set => (hq.sets set).step hstep,
    ras_index_step hq.ras hstep⟩

/-- The addresses of a set that the operations train the BTB with. -/
def Config.trained (config : Config) (ops : List Op) (set : ℕ) : Finset (BitVec 32) :=
  ((ops.filterMap config.trains).map (·.eip)).toFinset.filter
    fun eip => index eip config.btb_num_sets = set

lemma trained_cons_none {op : Op} {set : ℕ} (hop : config.trains op = none) :
    config.trained (op :: ops) set = config.trained ops set := by
  unfold Config.trained
  rw [List.filterMap_cons_none hop]

lemma trained_cons_some {op : Op} {uop : Uop} {set : ℕ} (hop : config.trains op = some uop) :
    config.trained (op :: ops) set =
      if index uop.eip config.btb_num_sets = set then insert uop.eip (config.trained ops set)
      else config.trained ops set := by
  unfold Config.trained
  rw [List.filterMap_cons_some hop, List.map_cons, List.toFinset_cons, Finset.filter_insert]

lemma eq_updateBtb {op : Op} {uop : Uop} (hop : config.trains op = some uop) :
    op = .UpdateBtb uop ∧ config.kind ≠ .Perfect := by
  cases op with
  | UpdateBtb uop' =>
    unfold Config.trains at hop
    split_ifs at hop with hkind
    rw [Option.some.inj hop]
    exact ⟨rfl, hkind⟩
  | Lookup uop' => cases hop
  | Update uop' => cases hop
  | LookupBtb uop' => cases hop

/-- A line stays in its set along a run that trains fewer other addresses of the set than it has
ways. -/
lemma holds_run {eip target : BitVec 32} {D : Finset (BitVec 32)} {way : ℕ}
    (hsound : Sound config p) (hrun : run step ops p = some p')
    (hholds : Holds config.btb_num_ways (p.lines (index eip config.btb_num_sets)) eip target
      D way)
    (hother : ∀ op ∈ ops, ∀ uop, config.trains op = some uop → uop.eip ≠ eip)
    (hcard : (D ∪ config.trained ops (index eip config.btb_num_sets)).card <
      config.btb_num_ways) :
    ∃ D', Holds config.btb_num_ways (p'.lines (index eip config.btb_num_sets)) eip target
      D' way := by
  induction ops generalizing p D with
  | nil =>
    rw [← Option.some.inj hrun]
    exact ⟨D, hholds⟩
  | cons op ops ih =>
    rw [run_cons] at hrun
    obtain ⟨q, hstep, hrest⟩ := Option.bind_eq_some_iff.mp hrun
    have hconfig := hsound.config_eq
    subst hconfig
    have hone : run step [op] p = some q := by rw [run_cons, hstep]; rfl
    have hq : Sound p.config q := hsound.run hone
    have hother' : ∀ op ∈ ops, ∀ uop, p.config.trains op = some uop → uop.eip ≠ eip :=
      fun op' hop' => hother op' (List.mem_cons_of_mem op hop')
    cases hop : p.config.trains op with
    | none =>
      rw [trained_cons_none hop] at hcard
      have hlines := lines_eq (step_config hstep)
        (step_btb hstep hop)
      rw [← hlines] at hholds
      exact ih hq hrest hholds hother' hcard
    | some uop =>
      obtain ⟨rfl, hkind⟩ := eq_updateBtb hop
      have hne := hother _ List.mem_cons_self uop hop
      rw [trained_cons_some hop] at hcard
      by_cases hsame : index uop.eip p.config.btb_num_sets = index eip p.config.btb_num_sets
      · rw [if_pos hsame] at hcard
        have hunion : D ∪ insert uop.eip (p.config.trained ops (index eip p.config.btb_num_sets)) =
            insert uop.eip D ∪ p.config.trained ops (index eip p.config.btb_num_sets) := by
          ext b
          simp only [Finset.mem_union, Finset.mem_insert]
          tauto
        rw [hunion] at hcard
        have hsmall : (insert uop.eip D).card < p.config.btb_num_ways :=
          (Finset.card_le_card Finset.subset_union_left).trans_lt hcard
        have hages := (hsound.sets (index uop.eip p.config.btb_num_sets)).ages
        have htrained := lines_trained hstep hkind (by omega) hages
        rw [hsame] at htrained hages
        exact ih hq hrest (htrained.holds_other hages hne.symm hholds hsmall) hother' hcard
      · rw [if_neg hsame] at hcard
        have hlines : ∀ v < p.config.btb_num_ways,
            q.lines (index eip p.config.btb_num_sets) v =
              p.lines (index eip p.config.btb_num_sets) v := by
          intro v hv
          exact lines_of_ne hstep hv (Ne.symm hsame)
        exact ih hq hrest (hholds.congr hlines) hother' hcard

/-- The BTB replaces the line of a set that was trained least recently: a trained target is found
until as many other addresses of the set were trained as it has ways. -/
theorem run_btb (config : Config) (ops : List Op) (p : BranchPredictor)
    (hrun : run step ops (new config) = some p) :
    (∀ set < config.btb_num_sets,
      (p.counters set).Perm ((List.range config.btb_num_ways).map fun i : ℕ => (i : ℤ)) ∧
      ((p.sources set).filter (· ≠ 0)).Nodup) ∧
    ∀ before op after uop branch,
      ops = before ++ op :: after → config.trains op = some uop →
      (∀ op' ∈ after, ∀ uop', config.trains op' = some uop' → uop'.eip ≠ uop.eip) →
      (config.trained after (index uop.eip config.btb_num_sets)).card < config.btb_num_ways →
      branch.eip = uop.eip →
      (branch.opcode = .Jump ∨ branch.opcode = .Branch ∨ branch.opcode = .Call) →
      (branch.opcode = .Call → 0 < config.ras_size) →
      (p.LookupBtb branch).map (·.1) = some uop.neip := by
  have hp : Sound config p := (sound_new config).run hrun
  refine ⟨?_, ?_⟩
  · intro set _
    have hset := hp.sets set
    rw [← hp.config_eq]
    refine ⟨hset.ages.perm, ?_⟩
    unfold sources
    rw [List.filter_map]
    apply List.Nodup.map_on _ (List.nodup_range.filter _)
    intro v hv w hw heq
    have hv' := List.mem_filter.mp hv
    have hw' := List.mem_filter.mp hw
    have hused : (p.lines set v).key ≠ 0 := of_decide_eq_true hv'.2
    exact hset.distinct v (List.mem_range.mp hv'.1) w (List.mem_range.mp hw'.1) heq hused
  · intro before op after uop branch hops hop hlast hcard heip hopcode hcall
    obtain ⟨rfl, hkind⟩ := eq_updateBtb hop
    rw [hops, run_append] at hrun
    obtain ⟨p₁, hbefore, hrest⟩ := Option.bind_eq_some_iff.mp hrun
    rw [run_cons] at hrest
    obtain ⟨p₂, hstep, hafter⟩ := Option.bind_eq_some_iff.mp hrest
    have h₁ : Sound config p₁ := (sound_new config).run hbefore
    have hone : run step [.UpdateBtb uop] p₁ = some p₂ := by rw [run_cons, hstep]; rfl
    have h₂ : Sound config p₂ := h₁.run hone
    have hconfig := h₁.config_eq
    have hsets : 0 < config.btb_num_sets := by
      have hupdate : p₁.UpdateBtb uop = some p₂ := hstep
      unfold UpdateBtb at hupdate
      rw [hconfig, if_neg hkind] at hupdate
      simp only at hupdate
      split_ifs at hupdate with hrange
      omega
    have hages := (h₁.sets (index uop.eip p₁.config.btb_num_sets)).ages
    have htrained := lines_trained hstep (by rw [hconfig]; exact hkind) (by rw [hconfig]; omega)
      hages
    obtain ⟨way, hholds⟩ := htrained.holds_self hages
    rw [hconfig] at hholds
    obtain ⟨D, hholds'⟩ := holds_run h₂ hafter hholds hlast (by rw [Finset.empty_union]; exact hcard)
    rw [← hp.config_eq] at hholds' hkind hsets hcall
    exact LookupBtb_target hp.ras hholds' hkind hsets heip hopcode hcall

/-- A jump of a set with two ways, trained before another one of the set. -/
theorem run_btb_twoWays :
    ∃ p, run step
        [.UpdateBtb { opcode := .Jump, mop_size := 2, eip := 4, neip := 100 },
          .UpdateBtb { opcode := .Jump, mop_size := 2, eip := 8, neip := 200 },
          .LookupBtb { opcode := .Jump, mop_size := 2, eip := 8 }]
        (new { btb_num_sets := 4, btb_num_ways := 2 }) = some p ∧
      (p.LookupBtb { opcode := .Jump, mop_size := 2, eip := 4 }).map (·.1) = some 100 := by
  obtain ⟨p, hp⟩ := Option.isSome_iff_exists.mp
    (by decide +kernel : (run step
        [.UpdateBtb { opcode := .Jump, mop_size := 2, eip := 4, neip := 100 },
          .UpdateBtb { opcode := .Jump, mop_size := 2, eip := 8, neip := 200 },
          .LookupBtb { opcode := .Jump, mop_size := 2, eip := 8 }]
        (new { btb_num_sets := 4, btb_num_ways := 2 })).isSome = true)
  refine ⟨p, hp, ?_⟩
  refine (run_btb _ _ p hp).2 [] _ _ { opcode := .Jump, mop_size := 2, eip := 4, neip := 100 } _
    rfl rfl ?_ (by decide) rfl (Or.inl rfl) (fun h => by cases h)
  intro op hop uop huop
  obtain ⟨rfl, _⟩ := eq_updateBtb huop
  simp only [List.mem_cons, Op.UpdateBtb.injEq, reduceCtorEq, List.not_mem_nil, or_false] at hop
  rw [hop]
  decide

end RunsOfBtb

end OISA.X86.BranchPredictor
