import OISA.X86.BranchPredictor

/-!
# Training of the direction predictors

What a committed branch should train, from what the lookup for it read: the component that
supplied the prediction moves toward the outcome, and the choice moves toward the component that
was right if the two disagreed.
-/

namespace OISA.X86.BranchPredictor

inductive Component
  | bimod
  | two_level
  deriving DecidableEq, Repr

section Spec

variable (p q : BranchPredictor) (uop : Uop)

def bimodEntry : ℕ := index uop.eip p.config.bimod_size

def bhtEntry : ℕ := index uop.eip p.config.two_level_l1_size

def phtEntry : ℕ :=
  p.two_level_bht (p.bhtEntry uop) * p.config.two_level_l2_size +
    index uop.eip p.config.two_level_l2_size

def choiceEntry : ℕ := index uop.eip p.config.choice_size

def bimodDirection : Prediction := direction (p.bimod (p.bimodEntry uop))

def twoLevelDirection : Prediction := direction (p.two_level_pht (p.phtEntry uop))

def outcome : Prediction := if uop.taken then .Taken else .NotTaken

def supplier : Option Component :=
  if uop.opcode.FlagUncond ∨ uop.opcode = .Ibranch then none
  else
    match p.config.kind with
    | .Bimod => some .bimod
    | .TwoLevel => some .two_level
    | .Combined => some (if p.choice (p.choiceEntry uop) > 1 then .two_level else .bimod)
    | _ => none

/-- The counter of the component moves toward the outcome. -/
def trainComponent : Option Component → BranchPredictor
  | none => q
  | some .bimod =>
    { q with
      bimod := Function.update q.bimod (p.bimodEntry uop)
        (count uop.taken (q.bimod (p.bimodEntry uop))) }
  | some .two_level =>
    { q with
      two_level_bht := Function.update q.two_level_bht (p.bhtEntry uop)
        (((q.two_level_bht (p.bhtEntry uop) <<< 1) ||| uop.taken.toNat) &&&
          (q.config.two_level_l2_height - 1))
      two_level_pht := Function.update q.two_level_pht (p.phtEntry uop)
        (count uop.taken (q.two_level_pht (p.phtEntry uop))) }

def trainChoice : BranchPredictor :=
  { q with
    choice := Function.update q.choice (p.choiceEntry uop)
      (count (p.twoLevelDirection uop = outcome uop) (q.choice (p.choiceEntry uop))) }

def train : BranchPredictor :=
  let q' := p.trainComponent q uop (p.supplier uop)
  if p.config.kind = .Combined ∧ (p.supplier uop).isSome ∧
      p.bimodDirection uop ≠ p.twoLevelDirection uop then
    p.trainChoice q' uop
  else q'

/-- The counters have two bits, and the histories as many as configured. -/
structure Valid : Prop where
  bimod : ∀ i, 0 ≤ p.bimod i ∧ p.bimod i ≤ 3
  two_level_bht : ∀ i, p.two_level_bht i < p.config.two_level_l2_height
  two_level_pht : ∀ i, 0 ≤ p.two_level_pht i ∧ p.two_level_pht i ≤ 3
  choice : ∀ i, 0 ≤ p.choice i ∧ p.choice i ≤ 3

/-- The update of a branch that was looked up in `p` trains what the lookup used, whatever
happened to the tables between. -/
def Trains : Prop :=
  ∀ uop', p.Lookup uop = some uop' → ∀ q : BranchPredictor, q.config = p.config → q.Valid →
    q.Update uop' = some (p.train q uop)

/-- The condition under which a branch trains what it used. -/
def TrainsWhen : Prop :=
  uop.opcode.FlagUncond ∨ p.config.kind = .Perfect ∨ p.config.kind = .Taken ∨
    p.config.kind = .Nottaken ∨
    (uop.opcode ≠ .Ibranch ∧ (p.config.kind = .Combined →
      (p.choice (p.choiceEntry uop) > 1 → p.twoLevelDirection uop = .Taken) ∧
      (¬ p.choice (p.choiceEntry uop) > 1 → p.bimodDirection uop = .NotTaken) ∧
      (p.bimodDirection uop ≠ p.twoLevelDirection uop → uop.taken)))

end Spec

section Lookup

variable {p : BranchPredictor} {uop uop' : Uop}

lemma LookupBimod_cases (h : p.LookupBimod uop = some uop') :
    uop' = { uop with
      bimod_index := p.bimodEntry uop
      bimod_prediction := p.bimodDirection uop
      prediction := p.bimodDirection uop } := by
  unfold LookupBimod at h
  simp only at h
  split_ifs at h
  exact (Option.some.inj h).symm

lemma LookupTwoLevel_cases (h : p.LookupTwoLevel uop = some uop') :
    uop' = { uop with
      two_level_bht_index := p.bhtEntry uop
      two_level_pht_row := p.two_level_bht (p.bhtEntry uop)
      two_level_pht_col := index uop.eip p.config.two_level_l2_size
      two_level_prediction := p.twoLevelDirection uop
      prediction := p.twoLevelDirection uop } := by
  unfold LookupTwoLevel at h
  simp only at h
  split_ifs at h
  exact (Option.some.inj h).symm

lemma LookupChoice_cases (h : p.LookupChoice uop = some uop') :
    uop' = { uop with
      choice_index := p.choiceEntry uop
      choice_prediction := if p.choice (p.choiceEntry uop) > 1 then uop.two_level_prediction
        else uop.bimod_prediction
      prediction := if p.choice (p.choiceEntry uop) > 1 then uop.two_level_prediction
        else uop.bimod_prediction } := by
  unfold LookupChoice at h
  simp only at h
  by_cases hrange : index uop.eip p.config.choice_size < p.config.choice_size
  · rw [if_pos hrange] at h
    exact (Option.some.inj h).symm
  · rw [if_neg hrange] at h
    cases h

lemma LookupCombined_cases
    (h : ((p.LookupBimod uop).bind p.LookupTwoLevel).bind p.LookupChoice = some uop') :
    uop' = { uop with
      bimod_index := p.bimodEntry uop
      bimod_prediction := p.bimodDirection uop
      two_level_bht_index := p.bhtEntry uop
      two_level_pht_row := p.two_level_bht (p.bhtEntry uop)
      two_level_pht_col := index uop.eip p.config.two_level_l2_size
      two_level_prediction := p.twoLevelDirection uop
      choice_index := p.choiceEntry uop
      choice_prediction := if p.choice (p.choiceEntry uop) > 1 then p.twoLevelDirection uop
        else p.bimodDirection uop
      prediction := if p.choice (p.choiceEntry uop) > 1 then p.twoLevelDirection uop
        else p.bimodDirection uop } := by
  obtain ⟨uop₂, h₂, h₃⟩ := Option.bind_eq_some_iff.mp h
  obtain ⟨uop₁, h₁, h₂⟩ := Option.bind_eq_some_iff.mp h₂
  rw [LookupChoice_cases h₃, LookupTwoLevel_cases h₂, LookupBimod_cases h₁]
  rfl

lemma Lookup_early (h : p.Lookup uop = some uop')
    (hearly : uop.opcode.FlagUncond ∨ uop.opcode = .Ibranch) :
    uop' = { uop with prediction := .Taken } := by
  unfold Lookup at h
  grind

lemma Lookup_tables (h : p.Lookup uop = some uop') (huncond : uop.opcode.FlagUncond = false)
    (hibranch : uop.opcode ≠ .Ibranch) :
    (p.config.kind = .Bimod → p.LookupBimod uop = some uop') ∧
    (p.config.kind = .TwoLevel → p.LookupTwoLevel uop = some uop') ∧
    (p.config.kind = .Combined →
      ((p.LookupBimod uop).bind p.LookupTwoLevel).bind p.LookupChoice = some uop') := by
  unfold Lookup at h
  by_cases hctrl : uop.opcode.FlagCtrl = false
  · rw [if_pos hctrl] at h
    cases h
  · rw [if_neg hctrl, if_neg (by rw [huncond]; decide), if_neg hibranch] at h
    refine ⟨?_, ?_, ?_⟩ <;> intro hkind <;> rw [hkind] at h <;> exact h

lemma Lookup_keeps (h : p.Lookup uop = some uop') :
    uop'.opcode = uop.opcode ∧ uop'.speculative_mode = uop.speculative_mode ∧
      uop'.taken = uop.taken := by
  by_cases hearly : uop.opcode.FlagUncond ∨ uop.opcode = .Ibranch
  · rw [Lookup_early h hearly]
    exact ⟨rfl, rfl, rfl⟩
  · obtain ⟨huncond, hibranch⟩ := not_or.mp hearly
    have htables := Lookup_tables h (by simpa using huncond) hibranch
    cases hkind : p.config.kind with
    | Bimod => rw [LookupBimod_cases (htables.1 hkind)]; exact ⟨rfl, rfl, rfl⟩
    | TwoLevel => rw [LookupTwoLevel_cases (htables.2.1 hkind)]; exact ⟨rfl, rfl, rfl⟩
    | Combined => rw [LookupCombined_cases (htables.2.2 hkind)]; exact ⟨rfl, rfl, rfl⟩
    | Perfect => unfold Lookup at h; grind [Uop.taken, Uop.next]
    | Taken => unfold Lookup at h; grind [Uop.taken, Uop.next]
    | Nottaken => unfold Lookup at h; grind [Uop.taken, Uop.next]

end Lookup

section Update

variable {p q : BranchPredictor} {uop uop' : Uop}

lemma Update_conditional (hctrl : uop.opcode.FlagCtrl = true)
    (hspec : uop.speculative_mode = false) (huncond : uop.opcode.FlagUncond = false) :
    q.Update uop =
      match q.config.kind with
      | .Perfect | .Taken | .Nottaken => some q
      | .Bimod => some (q.UpdateBimod uop)
      | .TwoLevel => some (q.UpdateTwoLevel uop)
      | .Combined => some ((if uop.choice_prediction = .NotTaken then q.UpdateBimod uop
          else q.UpdateTwoLevel uop).UpdateChoice uop) := by
  unfold Update
  rw [if_neg (by simp [hctrl, hspec])]
  exact if_neg (by simp [huncond])

lemma UpdateTwoLevel_eq (hconfig : q.config = p.config) (htaken : uop'.taken = uop.taken)
    (hbht : uop'.two_level_bht_index = p.bhtEntry uop)
    (hrow : uop'.two_level_pht_row = p.two_level_bht (p.bhtEntry uop))
    (hcol : uop'.two_level_pht_col = index uop.eip p.config.two_level_l2_size) :
    q.UpdateTwoLevel uop' = p.trainComponent q uop (some .two_level) := by
  have hentry : uop'.two_level_pht_row * q.config.two_level_l2_size + uop'.two_level_pht_col =
      p.phtEntry uop := by
    rw [hconfig, hrow, hcol]
    rfl
  unfold UpdateTwoLevel
  dsimp only
  rw [hentry, hbht, htaken]
  rfl

/-- The component that the combined predictor updates: the direction of the prediction is taken
for the component. -/
def updated (p : BranchPredictor) (uop : Uop) : Component :=
  if (if p.choice (p.choiceEntry uop) > 1 then p.twoLevelDirection uop
    else p.bimodDirection uop) = .NotTaken then .bimod
  else .two_level

def updatedChoice (p q : BranchPredictor) (uop : Uop) : BranchPredictor :=
  if p.bimodDirection uop ≠ p.twoLevelDirection uop then
    { q with
      choice := Function.update q.choice (p.choiceEntry uop)
        (count (p.bimodDirection uop ≠ .Taken) (q.choice (p.choiceEntry uop))) }
  else q

lemma Update_combined (hctrl : uop.opcode.FlagCtrl = true) (hspec : uop.speculative_mode = false)
    (huncond : uop.opcode.FlagUncond = false) (hibranch : uop.opcode ≠ .Ibranch)
    (hkind : p.config.kind = .Combined) (hlookup : p.Lookup uop = some uop')
    (hconfig : q.config = p.config) :
    q.Update uop' =
      some (p.updatedChoice (p.trainComponent q uop (some (p.updated uop))) uop) := by
  have hkeeps := Lookup_keeps hlookup
  have huop' := LookupCombined_cases ((Lookup_tables hlookup huncond hibranch).2.2 hkind)
  rw [Update_conditional (by rw [hkeeps.1]; exact hctrl) (by rw [hkeeps.2.1]; exact hspec)
    (by rw [hkeeps.1]; exact huncond), hconfig, hkind]
  have hbimod : q.UpdateBimod uop' = p.trainComponent q uop (some .bimod) := by
    rw [huop']
    rfl
  have htwo : q.UpdateTwoLevel uop' = p.trainComponent q uop (some .two_level) :=
    UpdateTwoLevel_eq hconfig hkeeps.2.2 (by rw [huop']) (by rw [huop']) (by rw [huop'])
  dsimp only
  rw [hbimod, htwo]
  unfold updated UpdateChoice updatedChoice
  rw [huop']
  dsimp only
  congr 1
  by_cases hnot : (if p.choice (p.choiceEntry uop) > 1 then p.twoLevelDirection uop
      else p.bimodDirection uop) = .NotTaken
  · rw [if_pos hnot, if_pos hnot]
  · rw [if_neg hnot, if_neg hnot]

lemma Update_bimod (hctrl : uop.opcode.FlagCtrl = true) (hspec : uop.speculative_mode = false)
    (huncond : uop.opcode.FlagUncond = false) (hibranch : uop.opcode ≠ .Ibranch)
    (hkind : p.config.kind = .Bimod) (hlookup : p.Lookup uop = some uop')
    (hconfig : q.config = p.config) :
    q.Update uop' = some (p.trainComponent q uop (some .bimod)) := by
  have hkeeps := Lookup_keeps hlookup
  have huop' := LookupBimod_cases ((Lookup_tables hlookup huncond hibranch).1 hkind)
  rw [Update_conditional (by rw [hkeeps.1]; exact hctrl) (by rw [hkeeps.2.1]; exact hspec)
    (by rw [hkeeps.1]; exact huncond), hconfig, hkind, huop']
  rfl

lemma Update_twoLevel (hctrl : uop.opcode.FlagCtrl = true) (hspec : uop.speculative_mode = false)
    (huncond : uop.opcode.FlagUncond = false) (hibranch : uop.opcode ≠ .Ibranch)
    (hkind : p.config.kind = .TwoLevel) (hlookup : p.Lookup uop = some uop')
    (hconfig : q.config = p.config) :
    q.Update uop' = some (p.trainComponent q uop (some .two_level)) := by
  have hkeeps := Lookup_keeps hlookup
  have huop' := LookupTwoLevel_cases ((Lookup_tables hlookup huncond hibranch).2.1 hkind)
  rw [Update_conditional (by rw [hkeeps.1]; exact hctrl) (by rw [hkeeps.2.1]; exact hspec)
    (by rw [hkeeps.1]; exact huncond), hconfig, hkind]
  exact congrArg some
    (UpdateTwoLevel_eq hconfig hkeeps.2.2 (by rw [huop']) (by rw [huop']) (by rw [huop']))

end Update

/-- Tables with the history empty and all counters in the lower middle, which every move
changes. -/
def probe (p : BranchPredictor) : BranchPredictor :=
  { p with
    bimod := fun _ => 1
    two_level_bht := fun _ => 0
    two_level_pht := fun _ => 1
    choice := fun _ => 1 }

lemma probe_valid (p : BranchPredictor) : p.probe.Valid where
  bimod := fun _ => (by norm_num : (0 : ℤ) ≤ 1 ∧ (1 : ℤ) ≤ 3)
  two_level_bht := fun _ => by
    change 0 < 1 <<< p.config.two_level_history_size
    rw [Nat.one_shiftLeft]
    positivity
  two_level_pht := fun _ => (by norm_num : (0 : ℤ) ≤ 1 ∧ (1 : ℤ) ≤ 3)
  choice := fun _ => (by norm_num : (0 : ℤ) ≤ 1 ∧ (1 : ℤ) ≤ 3)

lemma count_one_ne (up : Bool) : count up 1 ≠ 1 := by
  cases up <;> decide

lemma count_one_inj {up up' : Bool} (h : count up 1 = count up' 1) : up = up' := by
  revert h
  cases up <;> cases up' <;> decide

section Iff

variable {p : BranchPredictor} {uop uop' : Uop}

lemma trainComponent_probe {c c' : Component}
    (h : (p.trainComponent p.probe uop (some c)).bimod =
      (p.trainComponent p.probe uop (some c')).bimod) : c = c' := by
  have hentry := congrFun h (p.bimodEntry uop)
  cases c with
  | bimod =>
    cases c' with
    | bimod => rfl
    | two_level =>
      simp only [trainComponent, Function.update_self] at hentry
      exact absurd hentry (count_one_ne _)
  | two_level =>
    cases c' with
    | bimod =>
      simp only [trainComponent, Function.update_self] at hentry
      exact absurd hentry.symm (count_one_ne _)
    | two_level => rfl

lemma train_of_early (q : BranchPredictor)
    (hearly : uop.opcode.FlagUncond ∨ uop.opcode = .Ibranch) : p.train q uop = q := by
  have hnone : p.supplier uop = none := if_pos hearly
  unfold train
  rw [hnone, if_neg (by simp)]
  rfl

lemma train_of_noTable (q : BranchPredictor)
    (hkind : p.config.kind = .Perfect ∨ p.config.kind = .Taken ∨ p.config.kind = .Nottaken) :
    p.train q uop = q := by
  have hnone : p.supplier uop = none := by
    unfold supplier
    obtain h | h | h := hkind <;> rw [h] <;> exact ite_self none
  unfold train
  rw [hnone, if_neg (by simp)]
  rfl

lemma Update_noTable {q : BranchPredictor} (hctrl : uop.opcode.FlagCtrl = true)
    (hspec : uop.speculative_mode = false)
    (hkind : q.config.kind = .Perfect ∨ q.config.kind = .Taken ∨ q.config.kind = .Nottaken) :
    q.Update uop = some q := by
  unfold Update
  rw [if_neg (by simp [hctrl, hspec])]
  obtain h | h | h := hkind <;> rw [h] <;> exact ite_self (some q)

/-- An internal branch changes a table, although its lookup read none. -/
lemma not_trains_ibranch (hspec : uop.speculative_mode = false) (hibranch : uop.opcode = .Ibranch)
    (hlookup : p.Lookup uop = some uop') (hperfect : p.config.kind ≠ .Perfect)
    (htaken : p.config.kind ≠ .Taken) (hnottaken : p.config.kind ≠ .Nottaken) :
    ¬ p.Trains uop := by
  intro htrains
  have hupdate := htrains uop' hlookup p.probe rfl p.probe_valid
  rw [train_of_early _ (Or.inr hibranch)] at hupdate
  have hkeeps := Lookup_keeps hlookup
  rw [Update_conditional (by rw [hkeeps.1, hibranch]; rfl) (by rw [hkeeps.2.1]; exact hspec)
    (by rw [hkeeps.1, hibranch]; rfl)] at hupdate
  have hbimod : ∀ q, q.bimod = (p.probe.UpdateBimod uop').bimod → q ≠ p.probe := by
    intro q hq heq
    rw [heq] at hq
    have hentry := congrFun hq uop'.bimod_index
    simp only [UpdateBimod, Function.update_self] at hentry
    exact count_one_ne _ hentry.symm
  have htwo : ∀ q, q.two_level_pht = (p.probe.UpdateTwoLevel uop').two_level_pht →
      q ≠ p.probe := by
    intro q hq heq
    rw [heq] at hq
    have hentry := congrFun hq
      (uop'.two_level_pht_row * p.probe.config.two_level_l2_size + uop'.two_level_pht_col)
    simp only [UpdateTwoLevel, Function.update_self] at hentry
    exact count_one_ne _ hentry.symm
  have hchoice : ∀ q : BranchPredictor, (q.UpdateChoice uop').bimod = q.bimod ∧
      (q.UpdateChoice uop').two_level_pht = q.two_level_pht := by
    intro q
    unfold UpdateChoice
    split_ifs <;> exact ⟨rfl, rfl⟩
  change (match p.config.kind with
    | .Perfect | .Taken | .Nottaken => some p.probe
    | .Bimod => some (p.probe.UpdateBimod uop')
    | .TwoLevel => some (p.probe.UpdateTwoLevel uop')
    | .Combined => some ((if uop'.choice_prediction = .NotTaken then p.probe.UpdateBimod uop'
        else p.probe.UpdateTwoLevel uop').UpdateChoice uop')) = some p.probe at hupdate
  cases hkind : p.config.kind with
  | Perfect => exact hperfect hkind
  | Taken => exact htaken hkind
  | Nottaken => exact hnottaken hkind
  | Bimod =>
    rw [hkind] at hupdate
    exact hbimod _ rfl (Option.some.inj hupdate)
  | TwoLevel =>
    rw [hkind] at hupdate
    exact htwo _ rfl (Option.some.inj hupdate)
  | Combined =>
    rw [hkind] at hupdate
    have heq := Option.some.inj hupdate
    by_cases hprediction : uop'.choice_prediction = .NotTaken
    · rw [if_pos hprediction] at heq
      exact hbimod _ (hchoice _).1 heq
    · rw [if_neg hprediction] at heq
      exact htwo _ (hchoice _).2 heq

def chosen (p : BranchPredictor) (uop : Uop) : Component :=
  if p.choice (p.choiceEntry uop) > 1 then .two_level else .bimod

lemma train_combined (q : BranchPredictor) (huncond : uop.opcode.FlagUncond = false)
    (hibranch : uop.opcode ≠ .Ibranch) (hkind : p.config.kind = .Combined) :
    p.train q uop =
      if p.bimodDirection uop ≠ p.twoLevelDirection uop then
        p.trainChoice (p.trainComponent q uop (some (p.chosen uop))) uop
      else p.trainComponent q uop (some (p.chosen uop)) := by
  have hsupplier : p.supplier uop = some (p.chosen uop) := by
    unfold supplier
    rw [if_neg (by simp [huncond, hibranch]), hkind]
    rfl
  unfold train
  rw [hsupplier]
  simp only [hkind, Option.isSome_some, true_and]

lemma updated_eq_chosen :
    p.updated uop = p.chosen uop ↔
      (p.choice (p.choiceEntry uop) > 1 → p.twoLevelDirection uop = .Taken) ∧
      (¬ p.choice (p.choiceEntry uop) > 1 → p.bimodDirection uop = .NotTaken) := by
  unfold updated chosen
  by_cases hchoice : p.choice (p.choiceEntry uop) > 1
  · rw [if_pos hchoice, if_pos hchoice]
    cases p.twoLevelDirection uop <;> simp [hchoice]
  · rw [if_neg hchoice, if_neg hchoice]
    cases p.bimodDirection uop <;> simp [hchoice]

lemma choice_eq_iff (hne : p.bimodDirection uop ≠ p.twoLevelDirection uop) :
    decide (p.bimodDirection uop ≠ .Taken) = decide (p.twoLevelDirection uop = outcome uop) ↔
      uop.taken = true := by
  unfold outcome
  cases hb : p.bimodDirection uop <;> cases ht : p.twoLevelDirection uop <;>
    cases uop.taken <;> simp_all

lemma trains_combined (hctrl : uop.opcode.FlagCtrl = true) (hspec : uop.speculative_mode = false)
    (huncond : uop.opcode.FlagUncond = false) (hibranch : uop.opcode ≠ .Ibranch)
    (hkind : p.config.kind = .Combined) (hlookup : p.Lookup uop = some uop') :
    p.Trains uop ↔ p.updated uop = p.chosen uop ∧
      (p.bimodDirection uop ≠ p.twoLevelDirection uop → uop.taken) := by
  have hupdate : ∀ q : BranchPredictor, q.config = p.config → q.Update uop' = _ :=
    fun q => Update_combined hctrl hspec huncond hibranch hkind hlookup
  constructor
  · intro htrains
    have heq := htrains uop' hlookup p.probe rfl p.probe_valid
    rw [hupdate p.probe rfl, train_combined _ huncond hibranch hkind] at heq
    have heq' := Option.some.inj heq
    unfold updatedChoice at heq'
    by_cases hne : p.bimodDirection uop ≠ p.twoLevelDirection uop
    · rw [if_pos hne, if_pos hne] at heq'
      have hbimod : (p.trainComponent p.probe uop (some (p.updated uop))).bimod =
          (p.trainComponent p.probe uop (some (p.chosen uop))).bimod := by
        have hboth := congrArg BranchPredictor.bimod heq'
        exact hboth
      have hcomponent := trainComponent_probe hbimod
      refine ⟨hcomponent, fun _ => ?_⟩
      rw [hcomponent] at heq'
      have hentry := congrFun (congrArg BranchPredictor.choice heq') (p.choiceEntry uop)
      have hold : (p.trainComponent p.probe uop (some (p.chosen uop))).choice = fun _ => 1 := by
        cases p.chosen uop <;> rfl
      simp only [trainChoice, Function.update_self, hold] at hentry
      exact (choice_eq_iff hne).mp (count_one_inj hentry)
    · rw [if_neg hne, if_neg hne] at heq'
      exact ⟨trainComponent_probe (congrArg BranchPredictor.bimod heq'), fun h => absurd h hne⟩
  · intro hright uop₂ hlookup₂ q hconfig _
    have hsame : uop₂ = uop' := Option.some.inj (hlookup₂.symm.trans hlookup)
    rw [hsame, hupdate q hconfig, train_combined q huncond hibranch hkind, hright.1]
    unfold updatedChoice trainChoice
    by_cases hne : p.bimodDirection uop ≠ p.twoLevelDirection uop
    · rw [if_pos hne, if_pos hne, (choice_eq_iff hne).mpr (hright.2 hne)]
    · rw [if_neg hne, if_neg hne]

/-- A branch trains what its lookup used exactly in these cases: it is unconditional; or the
predictor has no tables; or it is not an internal branch, and in a combined predictor the two-level
component supplied a taken or the bimodal one a not-taken prediction, and the branch was taken if
the components disagreed. -/
theorem trains_iff (hctrl : uop.opcode.FlagCtrl = true) (hspec : uop.speculative_mode = false)
    (hlookup : p.Lookup uop = some uop') : p.Trains uop ↔ p.TrainsWhen uop := by
  have hkeeps := Lookup_keeps hlookup
  have hctrl' : uop'.opcode.FlagCtrl = true := by rw [hkeeps.1]; exact hctrl
  have hspec' : uop'.speculative_mode = false := by rw [hkeeps.2.1]; exact hspec
  have hsame : ∀ uop₂, p.Lookup uop = some uop₂ → uop₂ = uop' :=
    fun uop₂ h => Option.some.inj (h.symm.trans hlookup)
  unfold TrainsWhen
  by_cases huncond : uop.opcode.FlagUncond = true
  · refine iff_of_true ?_ (Or.inl huncond)
    intro uop₂ h q _ _
    rw [hsame uop₂ h, train_of_early q (Or.inl huncond)]
    unfold Update
    rw [if_neg (by simp [hctrl', hspec']), if_pos (by rw [hkeeps.1]; exact huncond)]
  · by_cases hnone : p.config.kind = .Perfect ∨ p.config.kind = .Taken ∨ p.config.kind = .Nottaken
    · refine iff_of_true ?_ (Or.inr (by tauto))
      intro uop₂ h q hconfig _
      rw [hsame uop₂ h, train_of_noTable q hnone]
      exact Update_noTable hctrl' hspec' (by rw [hconfig]; exact hnone)
    · obtain ⟨hperfect, htaken, hnottaken⟩ := not_or.mp hnone |>.imp id not_or.mp
      by_cases hibranch : uop.opcode = .Ibranch
      · refine iff_of_false
          (not_trains_ibranch hspec hibranch hlookup hperfect htaken hnottaken) ?_
        tauto
      · have huncond' : uop.opcode.FlagUncond = false := by simpa using huncond
        cases hkind : p.config.kind with
        | Perfect => exact absurd hkind hperfect
        | Taken => exact absurd hkind htaken
        | Nottaken => exact absurd hkind hnottaken
        | Bimod =>
          refine iff_of_true ?_ (by simp [hibranch])
          intro uop₂ h q hconfig _
          rw [hsame uop₂ h, Update_bimod hctrl hspec huncond' hibranch hkind hlookup hconfig]
          unfold train supplier
          simp [huncond', hibranch, hkind]
        | TwoLevel =>
          refine iff_of_true ?_ (by simp [hibranch])
          intro uop₂ h q hconfig _
          rw [hsame uop₂ h, Update_twoLevel hctrl hspec huncond' hibranch hkind hlookup hconfig]
          unfold train supplier
          simp [huncond', hibranch, hkind]
        | Combined =>
          rw [trains_combined hctrl hspec huncond' hibranch hkind hlookup, updated_eq_chosen,
            and_assoc]
          simp [huncond', hibranch]

end Iff

instance (p : BranchPredictor) (uop : Uop) : Decidable (p.TrainsWhen uop) := by
  unfold TrainsWhen
  infer_instance

/-- A conditional branch of a two-level predictor. -/
theorem trains_iff_twoLevel :
    (new { kind := .TwoLevel }).Trains
        { opcode := .Branch, mop_size := 2, eip := 4, neip := 100 } ↔
      (new { kind := .TwoLevel }).TrainsWhen
        { opcode := .Branch, mop_size := 2, eip := 4, neip := 100 } := by
  have hsome : ((new { kind := .TwoLevel }).Lookup
      { opcode := .Branch, mop_size := 2, eip := 4, neip := 100 }).isSome := by decide +kernel
  obtain ⟨uop', hlookup⟩ := Option.isSome_iff_exists.mp hsome
  exact trains_iff rfl rfl hlookup

/-- A string instruction repeats with an internal branch, which trains an entry that its lookup did
not read. -/
theorem not_trains :
    ¬ (new { kind := .Bimod }).Trains { opcode := .Ibranch, mop_size := 2, eip := 4, neip := 4 } ∧
    ∃ uop p, (new { kind := .Combined }).Lookup
        { opcode := .Branch, mop_size := 2, eip := 4, neip := 6 } = some uop ∧
      (new { kind := .Combined }).Update uop = some p ∧
      ¬ p.Trains { opcode := .Branch, mop_size := 2, eip := 4, neip := 6 } := by
  refine ⟨not_trains_ibranch rfl rfl rfl (by decide) (by decide) (by decide), ?_⟩
  let uop : Uop :=
    { opcode := .Branch, mop_size := 2, eip := 4, neip := 6, prediction := .Taken
      bimod_index := 4, bimod_prediction := .Taken, two_level_pht_col := 4
      two_level_prediction := .Taken, choice_index := 4, choice_prediction := .Taken }
  have hlookup : (new { kind := .Combined }).Lookup
      { opcode := .Branch, mop_size := 2, eip := 4, neip := 6 } = some uop := by decide +kernel
  have hsome : (((new { kind := .Combined }).UpdateTwoLevel uop).Lookup
      { opcode := .Branch, mop_size := 2, eip := 4, neip := 6 }).isSome := by decide +kernel
  obtain ⟨uop', hlookup'⟩ := Option.isSome_iff_exists.mp hsome
  refine ⟨uop, (new { kind := .Combined }).UpdateTwoLevel uop, hlookup, rfl, ?_⟩
  rw [trains_combined rfl rfl rfl (by decide) rfl hlookup']
  intro h
  exact absurd h.1 (by decide +kernel)

end OISA.X86.BranchPredictor
