import OISA.Lib.Records
import OISA.Proofs.Scheduling

/-!
# Priorities of the scheduler

The context that `Schedule` allocates is the one that a scan of the mapped contexts holds at the
end.
-/

namespace OISA.X86

open Lib

namespace Thread

variable {core core' core₁ : Core} {t c : ℕ} {context : Context} {cfg : Config}

def eligible (core : Core) (t : ℕ) (contexts : List ℕ) : List (ℕ × Context) :=
  contexts.filterMap fun c => (core.contexts c).bind fun context =>
    if context.thread_affinity t && context.running then some (c, context) else none

abbrev takes : ℕ × Context → ℕ × Context → Bool :=
  younger (fun a => a.2.evict_cycle) fun a => a.2.sched_priority

/-- No eligible context has a higher priority, and none of the same priority was evicted before. -/
def Foremost (core : Core) (t c : ℕ) : Prop :=
  ∃ context, core.contexts c = some context ∧ ∀ d other, Candidate core t d →
    core.contexts d = some other → other.sched_priority ≤ context.sched_priority ∧
      (other.sched_priority = context.sched_priority → context.evict_cycle ≤ other.evict_cycle)

/-- Follow the eligible contexts in the order in which they are mapped, and call one a record if it
was evicted before all earlier records and has at least their priority: no record of a lower priority
stands before a context of the highest priority that was evicted least recently, unless the record
was evicted later. -/
def HighestComesThrough (core : Core) (t : ℕ) : Prop :=
  RecordsGiveWay (fun a : ℕ × Context => a.2.evict_cycle) (fun a => a.2.sched_priority)
    (eligible core t (core.threads t).mapped_contexts)

lemma mem_eligible {contexts : List ℕ} {a : ℕ × Context} : a ∈ eligible core t contexts ↔
    a.1 ∈ contexts ∧ core.contexts a.1 = some a.2 ∧ a.2.thread_affinity t ∧ a.2.running := by
  simp only [eligible, List.mem_filterMap, Option.bind_eq_some_iff]
  constructor
  · rintro ⟨c, hc, context, hcontext, hsome⟩
    split_ifs at hsome with hrun
    rw [Option.some.injEq] at hsome
    rw [Bool.and_eq_true] at hrun
    subst hsome
    exact ⟨hc, hcontext, hrun⟩
  · rintro ⟨hc, hcontext, haffinity, hrunning⟩
    refine ⟨a.1, hc, a.2, hcontext, ?_⟩
    rw [if_pos (by rw [haffinity, hrunning]; rfl)]

lemma eligible_cons {contexts : List ℕ} (hcontext : core.contexts c = some context) :
    eligible core t (c :: contexts) = if !context.thread_affinity t || !context.running then
      eligible core t contexts else (c, context) :: eligible core t contexts := by
  rw [eligible, List.filterMap_cons, hcontext, Option.bind_some]
  cases context.thread_affinity t with
  | false => rfl
  | true =>
    cases context.running with
    | false => rfl
    | true => rfl

lemma selectContext_eq {contexts : List ℕ} {best : Option (ℕ × Context)} {found : Option ℕ}
    (hbest : ∀ a, best = some a → core.contexts a.1 = some a.2)
    (h : selectContext core t contexts (best.map Prod.fst) = some found) :
    found = (hold takes (eligible core t contexts) best).map Prod.fst := by
  induction contexts generalizing best with
  | nil => exact (Option.some.inj h).symm
  | cons c contexts ih =>
    rw [selectContext, Option.bind_eq_bind, Option.bind_eq_some_iff] at h
    obtain ⟨context, hcontext, h⟩ := h
    rw [eligible_cons hcontext]
    by_cases hskip : (!context.thread_affinity t || !context.running) = true
    · rw [if_pos hskip] at h ⊢
      exact ih hbest h
    · rw [if_neg hskip] at h ⊢
      have hnew : ∀ a, some (c, context) = some a → core.contexts a.1 = some a.2 := by
        intro a ha
        rw [Option.some.injEq] at ha
        rw [← ha]
        exact hcontext
      cases best with
      | none => exact ih hnew h
      | some b =>
        have hb := hbest b rfl
        simp only [Option.map_some, hb, Option.bind_some] at h
        rw [hold]
        by_cases htakes : context.evict_cycle < b.2.evict_cycle ∧
            b.2.sched_priority ≤ context.sched_priority
        · rw [if_pos htakes] at h
          have htakes' : takes (c, context) b := decide_eq_true htakes
          rw [if_pos htakes']
          exact ih hnew h
        · rw [if_neg htakes] at h
          have htakes' : ¬takes (c, context) b = true := fun hyes => htakes (of_decide_eq_true hyes)
          rw [if_neg htakes']
          exact ih hbest h

/-- The part of `Schedule` that comes before the search for a context to allocate -/
def beforeSearch (cfg : Config) (core : Core) (t : ℕ) : Option Core :=
  if (core.threads t).context.isSome then do
    let core ← checkRunning core t
    let core ← checkAffinity core t
    let (core, returned) ← checkQuantum cfg core t
    if returned then some core else unmapContexts t (core.threads t).mapped_contexts core
  else unmapContexts t (core.threads t).mapped_contexts core

def search (core : Core) (t : ℕ) : Option Core :=
  if (core.threads t).context.isSome then some core
  else do
    match ← selectContext core t (core.threads t).mapped_contexts none with
    | none => some core
    | some c => Cpu.AllocateContext core c

lemma checkQuantum_returned (h : checkQuantum cfg core t = some (core₁, true)) :
    (core₁.threads t).context.isSome := by
  simp only [checkQuantum, Option.bind_eq_bind, Option.bind_eq_some_iff] at h
  obtain ⟨c, hc, context, hcontext, h⟩ := h
  have hsome : (core.threads t).context.isSome := by
    rw [hc]
    rfl
  split_ifs at h
  · simp only [Option.bind_eq_some_iff, guard_eq_some, exists_const, Option.some.injEq,
      Prod.mk.injEq] at h
    rw [← h.2.2.1]
    exact hsome
  · simp only [Option.bind_eq_some_iff, guard_eq_some, exists_const] at h
    obtain ⟨_, found, _, h⟩ := h
    cases found with
    | true =>
      rw [if_pos rfl, Option.map_eq_some_iff] at h
      obtain ⟨_, _, heq⟩ := h
      cases (Prod.mk.inj heq).2
    | false =>
      rw [if_neg Bool.false_ne_true, Option.some.injEq, Prod.mk.injEq] at h
      rw [← h.1]
      exact hsome
  · simp only [Option.bind_eq_some_iff] at h
    obtain ⟨found, _, h⟩ := h
    cases found with
    | true =>
      rw [if_pos rfl, Option.map_eq_some_iff] at h
      obtain ⟨_, _, heq⟩ := h
      cases (Prod.mk.inj heq).2
    | false =>
      rw [if_neg Bool.false_ne_true, Option.some.injEq, Prod.mk.injEq] at h
      cases h.2
  · rw [Option.some.injEq, Prod.mk.injEq] at h
    cases h.2

lemma Schedule_eq (cfg : Config) (core : Core) (t : ℕ) :
    Schedule cfg core t = (beforeSearch cfg core t).bind fun core => search core t := by
  unfold Schedule beforeSearch
  by_cases hsome : (core.threads t).context.isSome
  · rw [if_pos hsome, if_pos hsome]
    simp only [Option.bind_eq_bind, Option.bind_assoc]
    congr 1
    funext core₀
    congr 1
    funext core₁
    cases hquantum : checkQuantum cfg core₁ t with
    | none => rfl
    | some result =>
      obtain ⟨core₂, returned⟩ := result
      cases returned with
      | true =>
        simp only [Option.bind_some, if_true]
        rw [search, if_pos (checkQuantum_returned hquantum)]
      | false => rfl
  · rw [if_neg hsome, if_neg hsome]
    rfl

lemma search_eq_some {core : Core} (hfree : (core.threads t).context = none)
    (h : search core t = some core') (hpicked : (core'.threads t).context = some c) :
    selectContext core t (core.threads t).mapped_contexts none = some (some c) := by
  rw [search, hfree, Option.isSome_none, if_neg Bool.false_ne_true, Option.bind_eq_bind,
    Option.bind_eq_some_iff] at h
  obtain ⟨found, hfound, h⟩ := h
  cases found with
  | none =>
    rw [← Option.some.inj h, hfree] at hpicked
    cases hpicked
  | some a =>
    obtain ⟨context, _, t', _, _, _, _, _, rfl⟩ := AllocateContext_eq_some.mp h
    by_cases ht : t = t'
    · subst ht
      rw [allocatedTo_thread, Option.some.injEq] at hpicked
      rw [hfound, hpicked]
    · rw [allocatedTo, Core.setThread_threads_of_ne _ _ ht, Core.setContext_threads, hfree] at hpicked
      cases hpicked

/-- The context that `Schedule` allocates has the highest priority, and was evicted least recently of
those, if and only if no earlier record of a lower priority keeps such contexts from the thread. -/
theorem Schedule_foremost_iff (cfg : Config) (core core₁ core' : Core) (t c : ℕ)
    (hbefore : beforeSearch cfg core t = some core₁) (hfree : (core₁.threads t).context = none)
    (hstep : Schedule cfg core t = some core') (hpicked : (core'.threads t).context = some c) :
    Foremost core₁ t c ↔ HighestComesThrough core₁ t := by
  rw [Schedule_eq, hbefore, Option.bind_some] at hstep
  have hselect := search_eq_some hfree hstep hpicked
  have hscan : some c = (hold takes (eligible core₁ t (core₁.threads t).mapped_contexts)
      none).map Prod.fst := selectContext_eq (fun a ha => by cases ha) hselect
  rw [eq_comm, Option.map_eq_some_iff] at hscan
  obtain ⟨⟨c', context⟩, hheld, rfl⟩ := hscan
  have hmem : (c', context) ∈ eligible core₁ t (core₁.threads t).mapped_contexts := by
    cases hold_mem hheld with
    | inl hmem => exact hmem
    | inr hnone => cases hnone
  obtain ⟨hc, hcontext, _, _⟩ := mem_eligible.mp hmem
  rw [HighestComesThrough, ← hold_foremost_iff hheld]
  constructor
  · rintro ⟨context', hcontext', hbest⟩ ⟨d, other⟩ hd
    obtain ⟨hmapped, hother, haffinity, hrunning⟩ := mem_eligible.mp hd
    have heq : context = context' := Option.some.inj (hcontext.symm.trans hcontext')
    subst heq
    exact hbest d other ⟨hmapped, other, hother, hrunning, haffinity⟩ hother
  · intro hbest
    refine ⟨context, hcontext, ?_⟩
    intro d other hd hother
    obtain ⟨hmapped, other', hother', hrunning, haffinity⟩ := hd
    have heq : other' = other := Option.some.inj (hother'.symm.trans hother)
    subst heq
    exact hbest (d, other') (mem_eligible.mpr ⟨hmapped, hother, haffinity, hrunning⟩)

/-- Two contexts of a thread, where the second one has the higher priority; the cycles say when they
were evicted. -/
def prioritized (evict_cycle₀ evict_cycle₁ : ℕ) : Core :=
  { contexts := fun c =>
      if c = 0 then some { mapped := true, thread := some 0, evict_cycle := evict_cycle₀ }
      else if c = 1 then some { mapped := true, thread := some 0, evict_cycle := evict_cycle₁, sched_priority := 5 }
      else none
    threads := fun t => if t = 0 then { mapped_contexts := [0, 1] } else {} }

theorem Schedule_foremost_iff_later :
    let core := prioritized 10 3
    ∃ core', Schedule {} core 0 = some core' ∧ (core'.threads 0).context = some 1 ∧
      (Foremost core 0 1 ↔ HighestComesThrough core 0) := by
  intro core
  have hstep := (Option.some_get (by decide : (Schedule {} core 0).isSome = true)).symm
  exact ⟨_, hstep, by decide, Schedule_foremost_iff {} core core _ 0 1 rfl rfl hstep (by decide)⟩

/-- A context of a lower priority that was evicted before is allocated. -/
theorem Schedule_prefers_older :
    ¬∀ (cfg : Config) (core core₁ core' : Core) (t c : ℕ), beforeSearch cfg core t = some core₁ →
      (core₁.threads t).context = none → Schedule cfg core t = some core' →
      (core'.threads t).context = some c → Foremost core₁ t c := by
  intro h
  have hstep := (Option.some_get
    (by decide : (Schedule {} (prioritized 3 10) 0).isSome = true)).symm
  obtain ⟨context, hcontext, hbest⟩ :=
    h {} (prioritized 3 10) (prioritized 3 10) _ 0 0 rfl rfl hstep (by decide)
  have hhigher := (hbest 1 _ ⟨by decide, _, rfl, by decide, by decide⟩ rfl).1
  rw [← Option.some.inj hcontext] at hhigher
  exact absurd hhigher (by decide)

end Thread

end OISA.X86
