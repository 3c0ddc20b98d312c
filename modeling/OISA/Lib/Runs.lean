import Mathlib.Tactic

/-!
# Runs of partial step functions

`run step is s` feeds the inputs `is` to a step function that may stop.
-/

namespace OISA.Lib

variable {I S T : Type}

/-- The state after the inputs, if no step stops before. -/
def run (step : I → S → Option S) : List I → S → Option S
  | [], s => some s
  | i :: is, s => (step i s).bind (run step is)

/-- `P` holds of every input and the state it meets, up to where the run stops. -/
def Along (step : I → S → Option S) (P : I → S → Prop) : List I → S → Prop
  | [], _ => True
  | i :: is, s => P i s ∧ (step i s).elim True (Along step P is)

section Rules

variable {step : I → S → Option S} {P : I → S → Prop}

@[simp] lemma run_nil (s : S) : run step [] s = some s := rfl

@[simp] lemma run_cons (i : I) (is : List I) (s : S) :
    run step (i :: is) s = (step i s).bind (run step is) := rfl

lemma run_append (is js : List I) (s : S) :
    run step (is ++ js) s = (run step is s).bind (run step js) := by
  induction is generalizing s with
  | nil => rfl
  | cons i is ih =>
    rw [List.cons_append, run_cons, run_cons]
    cases step i s with
    | none => rfl
    | some s' => exact ih s'

lemma Along.append {is js : List I} {s : S} (h : Along step P (is ++ js) s) :
    Along step P is s ∧ (run step is s).elim True (Along step P js) := by
  induction is generalizing s with
  | nil => exact ⟨trivial, h⟩
  | cons i is ih =>
    obtain ⟨hi, hrest⟩ := h
    rw [run_cons, Along]
    cases hs : step i s with
    | none => exact ⟨⟨hi, trivial⟩, trivial⟩
    | some s' =>
      rw [hs, Option.elim_some] at hrest
      obtain ⟨his, hjs⟩ := ih hrest
      exact ⟨⟨hi, his⟩, hjs⟩

lemma along_of_forall (h : ∀ i s, P i s) (is : List I) (s : S) : Along step P is s := by
  induction is generalizing s with
  | nil => trivial
  | cons i is ih =>
    refine ⟨h i s, ?_⟩
    cases step i s with
    | none => trivial
    | some s' => exact ih s'

/-- A property that every step keeps is kept by a run. -/
theorem run_invariant {Q : S → Prop}
    (hstep : ∀ i s s', Q s → P i s → step i s = some s' → Q s') {is : List I} {s s' : S}
    (h : Q s) (halong : Along step P is s) (hrun : run step is s = some s') : Q s' := by
  induction is generalizing s with
  | nil =>
    rw [run_nil, Option.some.injEq] at hrun
    subst hrun
    exact h
  | cons i is ih =>
    obtain ⟨hi, hrest⟩ := halong
    rw [run_cons, Option.bind_eq_some_iff] at hrun
    obtain ⟨s₁, hs₁, hrun⟩ := hrun
    rw [hs₁] at hrest
    exact ih (hstep i s s₁ h hi hs₁) hrest hrun

/-- If a property lets every step succeed and is kept by it, runs succeed and keep it. -/
theorem run_total {Q : S → Prop}
    (hstep : ∀ i s, Q s → P i s → ∃ s', step i s = some s' ∧ Q s') {is : List I} {s : S}
    (h : Q s) (halong : Along step P is s) : ∃ s', run step is s = some s' ∧ Q s' := by
  induction is generalizing s with
  | nil => exact ⟨s, rfl, h⟩
  | cons i is ih =>
    obtain ⟨hi, hrest⟩ := halong
    obtain ⟨s₁, hs₁, h₁⟩ := hstep i s h hi
    rw [hs₁] at hrest
    obtain ⟨s', hrun, h'⟩ := ih h₁ hrest
    exact ⟨s', by rw [run_cons, hs₁, Option.bind_some]; exact hrun, h'⟩

/-- Under an invariant that both conditions keep, a run meets the one where it meets the other. -/
theorem along_iff {P' : I → S → Prop} {Q : S → Prop} (hiff : ∀ i s, Q s → (P i s ↔ P' i s))
    (hstep : ∀ i s s', Q s → P' i s → step i s = some s' → Q s') {is : List I} {s : S}
    (h : Q s) : Along step P is s ↔ Along step P' is s := by
  induction is generalizing s with
  | nil => exact Iff.rfl
  | cons i is ih =>
    rw [Along, Along, hiff i s h]
    refine and_congr_right fun hi => ?_
    cases hs : step i s with
    | none => exact Iff.rfl
    | some s' => exact ih (hstep i s s' h hi hs)

/-- A property of every state that a run reaches is one of its start and of all its steps. -/
theorem forall_reached_iff {Q : S → Prop} {is : List I} {s : S} :
    (∀ is', is' <+: is → ∀ s', run step is' s = some s' → Q s') ↔
      Q s ∧ Along step (fun i s => ∀ s', step i s = some s' → Q s') is s := by
  induction is generalizing s with
  | nil =>
    constructor
    · exact fun h => ⟨h [] List.prefix_rfl s rfl, trivial⟩
    · rintro ⟨h, -⟩ is' hprefix s' hrun
      rw [List.prefix_nil.mp hprefix, run_nil, Option.some.injEq] at hrun
      rwa [← hrun]
  | cons i is ih =>
    constructor
    · intro h
      have hreached : ∀ s₁, step i s = some s₁ → ∀ is', is' <+: is →
          ∀ s', run step is' s₁ = some s' → Q s' := fun s₁ hs₁ is' hprefix s' hrun =>
        h (i :: is') (List.cons_prefix_cons.mpr ⟨rfl, hprefix⟩) s'
          (by rw [run_cons, hs₁, Option.bind_some, hrun])
      refine ⟨h [] List.nil_prefix s rfl, fun s₁ hs₁ => (ih.mp (hreached s₁ hs₁)).1, ?_⟩
      cases hs : step i s with
      | none => trivial
      | some s₁ => exact (ih.mp (hreached s₁ hs)).2
    · rintro ⟨h, hi, hrest⟩ is' hprefix s' hrun
      cases is' with
      | nil =>
        rw [run_nil, Option.some.injEq] at hrun
        rwa [← hrun]
      | cons j is' =>
        obtain ⟨rfl, hrest'⟩ := List.cons_prefix_cons.mp hprefix
        rw [run_cons, Option.bind_eq_some_iff] at hrun
        obtain ⟨s₁, hs₁, hrun⟩ := hrun
        rw [hs₁, Option.elim_some] at hrest
        exact ih.mpr ⟨hi s₁ hs₁, hrest⟩ is' hrest' s' hrun

lemma rel_mono {R R' : S → T → Prop} (h : ∀ s t, R s t → R' s t) {x : Option S} {y : Option T}
    (hxy : Option.Rel R x y) : Option.Rel R' x y := by
  cases hxy with
  | none => exact .none
  | some hR => exact .some (h _ _ hR)

/-- Steps that match have runs that match: both stop, or both end in related states. -/
theorem run_simulates {step' : I → T → Option T} {R : S → T → Prop}
    (hstep : ∀ i s t, R s t → P i s → Option.Rel R (step i s) (step' i t)) {is : List I}
    {s : S} {t : T} (h : R s t) (halong : Along step P is s) :
    Option.Rel R (run step is s) (run step' is t) := by
  induction is generalizing s t with
  | nil => exact .some h
  | cons i is ih =>
    obtain ⟨hi, hrest⟩ := halong
    have hmatch := hstep i s t h hi
    rw [run_cons, run_cons]
    cases hs : step i s with
    | none =>
      rw [hs] at hmatch
      cases ht : step' i t with
      | none => exact .none
      | some t' =>
        rw [ht] at hmatch
        cases hmatch
    | some s' =>
      rw [hs] at hmatch hrest
      cases ht : step' i t with
      | none =>
        rw [ht] at hmatch
        cases hmatch
      | some t' =>
        rw [ht] at hmatch
        cases hmatch with
        | some hR => exact ih hR hrest

end Rules

instance Along.decidable (step : I → S → Option S) (P : I → S → Prop) [∀ i s, Decidable (P i s)] :
    (is : List I) → (s : S) → Decidable (Along step P is s)
  | [], _ => inferInstanceAs (Decidable True)
  | i :: is, s =>
    have : Decidable ((step i s).elim True (Along step P is)) :=
      match step i s with
      | none => inferInstanceAs (Decidable True)
      | some s' => Along.decidable step P is s'
    inferInstanceAs (Decidable (_ ∧ _))

end OISA.Lib
