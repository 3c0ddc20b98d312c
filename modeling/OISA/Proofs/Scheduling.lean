import OISA.X86.Scheduler

/-!
# Scheduling of contexts

The scheduler of a thread works on the contexts mapped to it.
-/

namespace OISA.X86

lemma guard_eq_some {p : Prop} [Decidable p] {u : Unit} :
    (guard p : Option Unit) = some u ↔ p := by
  by_cases h : p
  · simp [h]
  · simp [h, guard]

lemma guard_true_bind {α : Type} {p : Prop} [Decidable p] (h : p) (f : Unit → Option α) :
    (guard p : Option Unit).bind f = f () := by
  rw [guard, if_pos h]
  rfl

namespace Core

variable (core : Core) (t c : ℕ) (x y : Option Context) (f : Thread → Thread)

@[simp] lemma setContext_threads : (core.setContext c x).threads = core.threads := rfl

@[simp] lemma setContext_cycle : (core.setContext c x).cycle = core.cycle := rfl

@[simp] lemma setContext_uops : (core.setContext c x).uops = core.uops := rfl

@[simp] lemma setThread_contexts : (core.setThread t f).contexts = core.contexts := rfl

@[simp] lemma setThread_uops : (core.setThread t f).uops = core.uops := rfl

@[simp] lemma setContext_setContext :
    (core.setContext c x).setContext c y = core.setContext c y := by
  unfold setContext
  simp only [Function.update_idem]

@[simp] lemma setContext_contexts_self : (core.setContext c x).contexts c = x :=
  Function.update_self ..

@[simp] lemma setThread_threads_self : (core.setThread t f).threads t = f (core.threads t) :=
  Function.update_self ..

variable {c}

lemma setContext_contexts_of_ne {d : ℕ} (h : d ≠ c) :
    (core.setContext c x).contexts d = core.contexts d :=
  Function.update_of_ne h ..

variable {t}

lemma setThread_threads_of_ne {t' : ℕ} (h : t' ≠ t) :
    (core.setThread t f).threads t' = core.threads t' :=
  Function.update_of_ne h ..

end Core

namespace Thread

section States

variable (core : Core) (t c : ℕ) (context : Context)

def signalled : Core := core.setContext c (some { context with evict_signal := true })

def evicted : Core :=
  (core.setContext c (some { context with
    alloc := false
    evict_cycle := core.cycle
    evict_signal := false })).setThread t fun thread => { thread with
      context := none
      fetch_neip := 0 }

def unmapped : Core :=
  (core.setContext c (if context.finished then none
    else some { context with mapped := false, thread := none })).setThread t fun thread =>
      { thread with mapped_contexts := thread.mapped_contexts.erase c }

def allocatedTo : Core :=
  (core.setContext c (some { context with
    allocate_cycle := core.cycle
    alloc := true })).setThread t fun thread => { thread with
      context := some c
      fetch_neip := context.eip }

def renewed : Core := core.setContext c (some { context with allocate_cycle := core.cycle })

end States

variable {core core' : Core} {t c : ℕ} {context : Context} {cfg : Config}

lemma evicted_thread : (evicted core t c context).threads t =
    { core.threads t with context := none, fetch_neip := 0 } :=
  Core.setThread_threads_self ..

lemma unmapped_thread : (unmapped core t c context).threads t =
    { core.threads t with mapped_contexts := (core.threads t).mapped_contexts.erase c } :=
  Core.setThread_threads_self ..

lemma allocatedTo_thread : (allocatedTo core t c context).threads t =
    { core.threads t with context := some c, fetch_neip := context.eip } :=
  Core.setThread_threads_self ..

lemma EvictContext_eq_some :
    EvictContext core t = some core' ↔ ∃ c, (core.threads t).context = some c ∧
      ∃ context, core.contexts c = some context ∧ context.alloc ∧ context.mapped ∧
      context.spec_mode = false ∧ ((core.threads t).queue .ReorderBuffer).isEmpty ∧ context.evict_signal ∧
      evicted core t c context = core' := by
  simp only [EvictContext, Option.bind_eq_bind, Option.bind_eq_some_iff, guard_eq_some,
    Bool.not_eq_true', Option.some.injEq, exists_const]
  rfl

lemma EvictContextSignal_eq_some :
    EvictContextSignal core t = some core' ↔ ∃ c, (core.threads t).context = some c ∧
      ∃ context, core.contexts c = some context ∧ context.alloc ∧ context.mapped ∧
      context.evict_signal = false ∧ context.thread = some t ∧
      ((core.threads t).isPipelineEmpty = false ∧ signalled core c context = core' ∨
      (core.threads t).isPipelineEmpty ∧ context.spec_mode = false ∧
        evicted core t c context = core') := by
  simp only [EvictContextSignal, Option.bind_eq_bind, Option.bind_eq_some_iff, guard_eq_some,
    Bool.not_eq_true', exists_const]
  apply exists_congr
  intro c
  apply and_congr_right
  intro hc
  apply exists_congr
  intro context
  apply and_congr_right
  intro hcontext
  apply and_congr_right
  intro halloc
  apply and_congr_right
  intro hmapped
  apply and_congr_right
  intro hsignal
  apply and_congr_right
  intro hthread
  rw [Core.setContext_threads]
  by_cases hempty : (core.threads t).isPipelineEmpty
  · have hrob : ((core.threads t).queue .ReorderBuffer).isEmpty := by
      simp only [isPipelineEmpty, Bool.and_eq_true] at hempty
      exact hempty.2
    rw [if_pos hempty, EvictContext_eq_some]
    simp [hempty, hc, halloc, hmapped, hrob, evicted]
  · rw [if_neg hempty]
    simp [hempty, signalled]

lemma UnmapContext_eq_some :
    UnmapContext core t c = some core' ↔ ∃ context, core.contexts c = some context ∧
      context.thread.isSome ∧ context.mapped ∧ context.alloc = false ∧
      (core.threads t).context ≠ some c ∧ unmapped core t c context = core' := by
  simp only [UnmapContext, Option.bind_eq_bind, Option.bind_eq_some_iff, guard_eq_some,
    Bool.not_eq_true', Option.some.injEq, exists_const]
  rfl

lemma AllocateContext_eq_some :
    Cpu.AllocateContext core c = some core' ↔ ∃ context, core.contexts c = some context ∧
      ∃ t, context.thread = some t ∧ (core.threads t).context = none ∧ context.mapped ∧
      context.alloc = false ∧ context.evict_signal = false ∧
      allocatedTo core t c context = core' := by
  simp only [Cpu.AllocateContext, Option.bind_eq_bind, Option.bind_eq_some_iff, guard_eq_some,
    Bool.not_eq_true', Option.some.injEq, exists_const]
  rfl

/-- How the simulator keeps a context that is mapped to a thread -/
structure MappedTo (thread : Option ℕ) (t c : ℕ) (context : Context) : Prop where
  mapped : context.mapped
  thread_eq : context.thread = some t
  alloc_iff : context.alloc ↔ thread = some c
  alloc_of_signal : context.evict_signal → context.alloc
  alloc_of_spec : context.spec_mode → context.alloc

/-- How the simulator keeps the contexts that are mapped to a thread -/
structure Mapped (core : Core) (t : ℕ) : Prop where
  nodup : (core.threads t).mapped_contexts.Nodup
  mapped : ∀ c ∈ (core.threads t).mapped_contexts, ∃ context, core.contexts c = some context ∧
    MappedTo (core.threads t).context t c context
  allocated : ∀ c, (core.threads t).context = some c → c ∈ (core.threads t).mapped_contexts

namespace Mapped

lemma mappedTo (h : Mapped core t) (hmem : c ∈ (core.threads t).mapped_contexts)
    (hc : core.contexts c = some context) : MappedTo (core.threads t).context t c context := by
  obtain ⟨old, hold, hto⟩ := h.mapped c hmem
  rw [hc, Option.some.injEq] at hold
  rw [hold]
  exact hto

lemma setContext (h : Mapped core t) (hc : core.contexts c = some context) {new : Context}
    (hmapped : new.mapped = context.mapped) (hthread : new.thread = context.thread)
    (halloc : new.alloc = context.alloc) (hsignal : new.evict_signal → new.alloc)
    (hspec : new.spec_mode → new.alloc) : Mapped (core.setContext c (some new)) t := by
  constructor
  · exact h.nodup
  · intro d hd
    by_cases hdc : d = c
    · subst hdc
      have hto := h.mappedTo hd hc
      exact ⟨new, Core.setContext_contexts_self .., ⟨hmapped ▸ hto.mapped, hthread ▸ hto.thread_eq,
        halloc ▸ hto.alloc_iff, hsignal, hspec⟩⟩
    · rw [Core.setContext_contexts_of_ne _ _ hdc]
      exact h.mapped d hd
  · exact h.allocated

lemma frame (h : Mapped core t)
    (hcontext : (core'.threads t).context = (core.threads t).context)
    (hlist : (core'.threads t).mapped_contexts = (core.threads t).mapped_contexts)
    (hsame : ∀ c ∈ (core.threads t).mapped_contexts, core'.contexts c = core.contexts c) :
    Mapped core' t := by
  constructor
  · rw [hlist]
    exact h.nodup
  · intro c hc
    rw [hlist] at hc
    rw [hsame c hc, hcontext]
    exact h.mapped c hc
  · intro c hc
    rw [hcontext] at hc
    rw [hlist]
    exact h.allocated c hc

lemma allocated_context (h : Mapped core t) (hc : (core.threads t).context = some c) :
    ∃ context, core.contexts c = some context ∧ MappedTo (core.threads t).context t c context :=
  h.mapped c (h.allocated c hc)

lemma notMem_of_thread {t' : ℕ} (h : Mapped core t') (hc : core.contexts c = some context)
    (hthread : context.thread = some t) (hne : t' ≠ t) :
    c ∉ (core.threads t').mapped_contexts := by
  intro hmem
  have heq := (h.mappedTo hmem hc).thread_eq
  rw [hthread, Option.some.injEq] at heq
  exact hne heq.symm

lemma other {t' : ℕ} (h : Mapped core t') (hc : core.contexts c = some context)
    (hthread : context.thread = some t) (hne : t' ≠ t) (x : Option Context)
    (f : Thread → Thread) : Mapped ((core.setContext c x).setThread t f) t' := by
  have hnot := h.notMem_of_thread hc hthread hne
  have hsame : ((core.setContext c x).setThread t f).threads t' = core.threads t' :=
    Core.setThread_threads_of_ne _ _ hne
  apply h.frame
  · rw [hsame]
  · rw [hsame]
  · intro d hd
    have hdc : d ≠ c := fun heq => hnot (heq ▸ hd)
    rw [Core.setThread_contexts, Core.setContext_contexts_of_ne _ _ hdc]

lemma evicted (h : Mapped core t) (hcontext : (core.threads t).context = some c)
    (hc : core.contexts c = some context) (hspec : context.spec_mode = false) :
    Mapped (evicted core t c context) t := by
  have hthread := @evicted_thread core t c context
  constructor
  · rw [hthread]
    exact h.nodup
  · intro d hd
    rw [hthread] at hd ⊢
    by_cases hdc : d = c
    · subst hdc
      have hto := h.mappedTo hd hc
      refine ⟨_, Core.setContext_contexts_self .., hto.mapped, hto.thread_eq, ?_, ?_, ?_⟩
      · simp
      · simp
      · simp [hspec]
    · obtain ⟨old, hold, hto⟩ := h.mapped d hd
      refine ⟨old, ?_, hto.mapped, hto.thread_eq, ?_, hto.alloc_of_signal, hto.alloc_of_spec⟩
      · exact (Core.setContext_contexts_of_ne _ _ hdc).trans hold
      · rw [hto.alloc_iff, hcontext]
        simp [Ne.symm hdc]
  · intro d hd
    rw [hthread] at hd
    cases hd

lemma unmapped (h : Mapped core t) (hne : (core.threads t).context ≠ some c) :
    Mapped (unmapped core t c context) t := by
  have hthread := @unmapped_thread core t c context
  constructor
  · rw [hthread]
    exact h.nodup.erase c
  · intro d hd
    rw [hthread] at hd ⊢
    have hdc : d ≠ c := fun heq => h.nodup.not_mem_erase (heq ▸ hd)
    obtain ⟨old, hold, hto⟩ := h.mapped d (List.mem_of_mem_erase hd)
    exact ⟨old, (Core.setContext_contexts_of_ne _ _ hdc).trans hold, hto⟩
  · intro d hd
    rw [hthread] at hd ⊢
    have hdc : d ≠ c := fun heq => hne (heq ▸ hd)
    exact (List.mem_erase_of_ne hdc).mpr (h.allocated d hd)

lemma allocatedTo (h : Mapped core t) (hnone : (core.threads t).context = none)
    (hmem : c ∈ (core.threads t).mapped_contexts) (hc : core.contexts c = some context) :
    Mapped (allocatedTo core t c context) t := by
  have hthread := @allocatedTo_thread core t c context
  constructor
  · rw [hthread]
    exact h.nodup
  · intro d hd
    rw [hthread] at hd ⊢
    by_cases hdc : d = c
    · subst hdc
      have hto := h.mappedTo hd hc
      refine ⟨_, Core.setContext_contexts_self .., hto.mapped, hto.thread_eq, ?_, ?_, ?_⟩
      · simp
      · simp
      · simp
    · obtain ⟨old, hold, hto⟩ := h.mapped d hd
      refine ⟨old, ?_, hto.mapped, hto.thread_eq, ?_, hto.alloc_of_signal, hto.alloc_of_spec⟩
      · exact (Core.setContext_contexts_of_ne _ _ hdc).trans hold
      · rw [hto.alloc_iff, hnone]
        simp [Ne.symm hdc]
  · intro d hd
    rw [hthread] at hd ⊢
    simp only [Option.some.injEq] at hd
    rw [← hd]
    exact hmem

end Mapped

lemma findCandidate_isSome (valid : Context → Bool) {contexts : List ℕ}
    (h : ∀ c ∈ contexts, ∃ context, core.contexts c = some context) :
    ∃ found, findCandidate core t valid contexts = some found := by
  induction contexts with
  | nil => exact ⟨false, rfl⟩
  | cons c contexts ih =>
    obtain ⟨context, hc⟩ := h c (List.mem_cons_self ..)
    rw [findCandidate, Option.bind_eq_bind, hc, Option.bind_some]
    by_cases hvalid : some c ≠ (core.threads t).context ∧ context.running ∧ valid context
    · exact ⟨true, if_pos hvalid⟩
    · rw [if_neg hvalid]
      exact ih fun d hd => h d (List.mem_cons_of_mem c hd)

lemma unmapContexts_spec (h : Mapped core t) {contexts : List ℕ}
    (hsub : ∀ c ∈ contexts, c ∈ (core.threads t).mapped_contexts) (hnodup : contexts.Nodup) :
    ∃ core', unmapContexts t contexts core = some core' ∧ Mapped core' t ∧
      (∃ mapped_contexts, core'.threads t = { core.threads t with mapped_contexts }) ∧
      ∀ c, (core.threads t).context = some c → core'.contexts c = core.contexts c := by
  induction contexts generalizing core with
  | nil => exact ⟨core, rfl, h, ⟨(core.threads t).mapped_contexts, rfl⟩, fun c _ => rfl⟩
  | cons c contexts ih =>
    obtain ⟨hc, hnodup⟩ := List.nodup_cons.mp hnodup
    have hsub' : ∀ d ∈ contexts, d ∈ (core.threads t).mapped_contexts :=
      fun d hd => hsub d (List.mem_cons_of_mem c hd)
    rw [unmapContexts]
    by_cases hallocated : some c = (core.threads t).context
    · rw [if_pos hallocated]
      exact ih h hsub' hnodup
    · rw [if_neg hallocated]
      obtain ⟨context, hcontext, hto⟩ := h.mapped c (hsub c (List.mem_cons_self ..))
      rw [hcontext, Option.bind_eq_bind, Option.bind_some]
      by_cases hunmap : (!context.thread_affinity t || context.finished) = true
      · rw [if_pos hunmap]
        have hstep : UnmapContext core t c = some (unmapped core t c context) := by
          apply UnmapContext_eq_some.mpr
          have halloc : context.alloc = false := by
            rw [Bool.eq_false_iff]
            intro halloc
            exact hallocated (hto.alloc_iff.mp halloc).symm
          exact ⟨context, hcontext, by rw [hto.thread_eq]; rfl, hto.mapped, halloc,
            Ne.symm hallocated, rfl⟩
        have hthread := @unmapped_thread core t c context
        rw [hstep, Option.bind_eq_bind, Option.bind_some]
        obtain ⟨core', hrun, hmapped, ⟨list, hlist⟩, hsame⟩ :=
          ih (h.unmapped (Ne.symm hallocated)) (fun d hd => by
            rw [hthread]
            have hdc : d ≠ c := fun heq => hc (heq ▸ hd)
            exact (List.mem_erase_of_ne hdc).mpr (hsub' d hd)) hnodup
        rw [hthread] at hlist hsame
        refine ⟨core', hrun, hmapped, ⟨list, hlist⟩, ?_⟩
        intro d hd
        have hdc : d ≠ c := fun heq => hallocated (heq ▸ hd.symm)
        rw [hsame d hd]
        exact Core.setContext_contexts_of_ne _ _ hdc
      · rw [if_neg hunmap]
        exact ih h hsub' hnodup

def Candidate (core : Core) (t c : ℕ) : Prop :=
  c ∈ (core.threads t).mapped_contexts ∧ ∃ context, core.contexts c = some context ∧
    context.running ∧ context.thread_affinity t

lemma selectContext_spec (h : Mapped core t) {contexts : List ℕ} {best : Option ℕ}
    (hsub : ∀ c ∈ contexts, c ∈ (core.threads t).mapped_contexts)
    (hbest : ∀ c, best = some c → Candidate core t c) :
    ∃ found, selectContext core t contexts best = some found ∧
      ∀ c, found = some c → Candidate core t c := by
  induction contexts generalizing best with
  | nil => exact ⟨best, rfl, hbest⟩
  | cons c contexts ih =>
    have hmem := hsub c (List.mem_cons_self ..)
    have hsub' : ∀ d ∈ contexts, d ∈ (core.threads t).mapped_contexts :=
      fun d hd => hsub d (List.mem_cons_of_mem c hd)
    obtain ⟨context, hcontext, hto⟩ := h.mapped c hmem
    rw [selectContext, Option.bind_eq_bind, hcontext, Option.bind_some]
    by_cases hskip : (!context.thread_affinity t || !context.running) = true
    · rw [if_pos hskip]
      exact ih hsub' hbest
    · rw [if_neg hskip]
      have hcandidate : Candidate core t c := by
        simp only [Bool.or_eq_true, Bool.not_eq_true', not_or, Bool.not_eq_false] at hskip
        exact ⟨hmem, context, hcontext, hskip.2, hskip.1⟩
      have hnew : ∀ d, some c = some d → Candidate core t d := by
        intro d hd
        rw [Option.some.injEq] at hd
        rw [← hd]
        exact hcandidate
      cases best with
      | none => exact ih hsub' hnew
      | some a =>
        obtain ⟨_, old, hold, _⟩ := hbest a rfl
        simp only [hold, Option.bind_some]
        by_cases hbetter : context.evict_cycle < old.evict_cycle ∧
            old.sched_priority ≤ context.sched_priority
        · rw [if_pos hbetter]
          exact ih hsub' hnew
        · rw [if_neg hbetter]
          exact ih hsub' hbest

/-- What the scheduler leaves on a thread: a context that may run there, or one that was signalled
for eviction -/
def Settled (core : Core) (t : ℕ) : Prop :=
  ∀ c, (core.threads t).context = some c → c ∈ (core.threads t).mapped_contexts ∧
    ∃ context, core.contexts c = some context ∧ context.mapped ∧
      (context.evict_signal ∨ context.running ∧ context.thread_affinity t)

def OnPath (core : Core) (t : ℕ) : Prop :=
  (core.threads t).isPipelineEmpty → ∀ c context, (core.threads t).context = some c →
    core.contexts c = some context → context.spec_mode = false

/-- What the simulator keeps true of a thread and its contexts -/
structure Valid (core : Core) (t : ℕ) : Prop where
  mapped : Mapped core t
  onPath : OnPath core t

lemma scheduleMapped_spec (h : Valid core t) (hsettled : Settled core t) :
    ∃ core', scheduleMapped core t = some core' ∧ Valid core' t ∧ Settled core' t := by
  obtain ⟨core₁, hrun, hmapped, ⟨list, hthread⟩, hsame⟩ :=
    unmapContexts_spec h.mapped (fun _ hc => hc) h.mapped.nodup
  have hcontext : (core₁.threads t).context = (core.threads t).context := by rw [hthread]
  unfold scheduleMapped
  rw [Option.bind_eq_bind, hrun, Option.bind_some]
  cases hc : (core.threads t).context with
  | some c =>
    rw [hcontext, hc, if_pos Option.isSome_some]
    have hold : core₁.contexts c = core.contexts c := hsame c hc
    refine ⟨core₁, rfl, ⟨hmapped, ?_⟩, ?_⟩
    · intro hempty d context hd hcontexts
      rw [hcontext, hc, Option.some.injEq] at hd
      subst hd
      rw [hold] at hcontexts
      rw [hthread] at hempty
      exact h.onPath hempty c context hc hcontexts
    · intro d hd
      have hmem := hmapped.allocated d hd
      rw [hcontext, hc, Option.some.injEq] at hd
      subst hd
      obtain ⟨_, context, hcontexts, hsettled⟩ := hsettled c hc
      exact ⟨hmem, context, hold.trans hcontexts, hsettled⟩
  | none =>
    rw [hcontext, hc, Option.isSome_none, if_neg Bool.false_ne_true]
    obtain ⟨found, hfound, hcandidate⟩ :=
      selectContext_spec hmapped (fun _ hc => hc) (fun c (hc : none = some c) => by cases hc)
    rw [Option.bind_eq_bind, hfound, Option.bind_some]
    cases found with
    | none =>
      refine ⟨core₁, rfl, ⟨hmapped, ?_⟩, ?_⟩
      · intro _ d context hd
        rw [hcontext, hc] at hd
        cases hd
      · intro d hd
        rw [hcontext, hc] at hd
        cases hd
    | some c =>
      obtain ⟨hmem, context, hcontexts, hrunning, haffinity⟩ := hcandidate c rfl
      obtain ⟨context', hcontexts', hto⟩ := hmapped.mapped c hmem
      rw [hcontexts, Option.some.injEq] at hcontexts'
      subst hcontexts'
      have hnone : (core₁.threads t).context = none := hcontext.trans hc
      have halloc : context.alloc = false := by
        rw [Bool.eq_false_iff]
        intro halloc
        have heq := hto.alloc_iff.mp halloc
        rw [hnone] at heq
        cases heq
      have hsignal : context.evict_signal = false := by
        rw [Bool.eq_false_iff]
        intro hsignal
        rw [hto.alloc_of_signal hsignal] at halloc
        cases halloc
      have hspec : context.spec_mode = false := by
        rw [Bool.eq_false_iff]
        intro hspec
        rw [hto.alloc_of_spec hspec] at halloc
        cases halloc
      have hstep : Cpu.AllocateContext core₁ c = some (allocatedTo core₁ t c context) :=
        AllocateContext_eq_some.mpr ⟨context, hcontexts, t, hto.thread_eq, hnone, hto.mapped,
          halloc, hsignal, rfl⟩
      have hthread' := @allocatedTo_thread core₁ t c context
      have hself : (allocatedTo core₁ t c context).contexts c = some { context with
          allocate_cycle := core₁.cycle, alloc := true } := Core.setContext_contexts_self ..
      refine ⟨_, hstep, ⟨hmapped.allocatedTo hnone hmem hcontexts, ?_⟩, ?_⟩
      · intro _ d context' hd hcontexts'
        rw [hthread'] at hd
        simp only [Option.some.injEq] at hd
        subst hd
        rw [hself, Option.some.injEq] at hcontexts'
        rw [← hcontexts']
        exact hspec
      · intro d hd
        rw [hthread'] at hd ⊢
        simp only [Option.some.injEq] at hd
        subst hd
        exact ⟨hmem, _, hself, hto.mapped, Or.inr ⟨hrunning, haffinity⟩⟩

/-- One of the first two checks of `Schedule` evicts the allocated context on the spot: it does
not run any more or lost affinity, and the pipeline of the thread is empty. -/
def EvictsOnTheSpot (core : Core) (t : ℕ) : Prop :=
  (core.threads t).isPipelineEmpty ∧ ∃ context, core.allocated t = some context ∧
    context.evict_signal = false ∧ (context.running = false ∨ context.thread_affinity t = false)

section Allocated

variable (h : Valid core t) (hc : (core.threads t).context = some c)
  (hcontext : core.contexts c = some context)

include h hc hcontext

lemma allocated_mappedTo : MappedTo (core.threads t).context t c context :=
  h.mapped.mappedTo (h.mapped.allocated c hc) hcontext

lemma EvictContextSignal_delayed (hsignal : context.evict_signal = false)
    (hbusy : (core.threads t).isPipelineEmpty = false) :
    EvictContextSignal core t = some (signalled core c context) := by
  have hto := allocated_mappedTo h hc hcontext
  exact EvictContextSignal_eq_some.mpr ⟨c, hc, context, hcontext, hto.alloc_iff.mpr hc,
    hto.mapped, hsignal, hto.thread_eq, Or.inl ⟨hbusy, rfl⟩⟩

lemma EvictContextSignal_onTheSpot (hsignal : context.evict_signal = false)
    (hempty : (core.threads t).isPipelineEmpty) :
    EvictContextSignal core t = some (evicted core t c context) := by
  have hto := allocated_mappedTo h hc hcontext
  exact EvictContextSignal_eq_some.mpr ⟨c, hc, context, hcontext, hto.alloc_iff.mpr hc,
    hto.mapped, hsignal, hto.thread_eq, Or.inr ⟨hempty, h.onPath hempty c context hc hcontext, rfl⟩⟩

lemma Valid.setContext {new : Context} (hmapped : new.mapped = context.mapped)
    (hthread : new.thread = context.thread) (halloc : new.alloc = context.alloc)
    (hspec : new.spec_mode = context.spec_mode) : Valid (core.setContext c (some new)) t := by
  have hto := allocated_mappedTo h hc hcontext
  have halloc' : new.alloc := halloc ▸ hto.alloc_iff.mpr hc
  constructor
  · exact h.mapped.setContext hcontext hmapped hthread halloc (fun _ => halloc') (fun _ => halloc')
  · intro hempty d context' hd hcontexts
    have hdc : d = c := by
      rw [Core.setContext_threads, hc, Option.some.injEq] at hd
      exact hd.symm
    rw [hdc, Core.setContext_contexts_self, Option.some.injEq] at hcontexts
    rw [← hcontexts, hspec]
    exact h.onPath hempty c context hc hcontext

lemma schedule_signalled (hsignal : context.evict_signal) :
    checkRunning core t = some core ∧ checkAffinity core t = some core ∧
      checkQuantum cfg core t = some (core, false) := by
  have hto := allocated_mappedTo h hc hcontext
  have halloc := hto.alloc_iff.mpr hc
  have hmapped := hto.mapped
  refine ⟨?_, ?_, ?_⟩
  · simp [checkRunning, Core.allocated, hc, hcontext, hsignal, halloc, hmapped]
  · simp [checkAffinity, Core.allocated, hc, hcontext, hsignal]
  · simp [checkQuantum, hc, hcontext, hsignal]

lemma Settled.setContext {new : Context} (hmapped : new.mapped = context.mapped)
    (hsettled : new.evict_signal ∨ new.running ∧ new.thread_affinity t) :
    Settled (core.setContext c (some new)) t := by
  intro d hd
  have hdc : d = c := by
    rw [Core.setContext_threads, hc, Option.some.injEq] at hd
    exact hd.symm
  rw [hdc]
  have hto := allocated_mappedTo h hc hcontext
  exact ⟨h.mapped.allocated c hc, new, Core.setContext_contexts_self .., hmapped ▸ hto.mapped,
    hsettled⟩

lemma EvictContextSignal_spec (hsignal : context.evict_signal = false) :
    ∃ core', EvictContextSignal core t = some core' ∧ Valid core' t ∧ Settled core' t := by
  by_cases hempty : (core.threads t).isPipelineEmpty
  · have hnone : ((evicted core t c context).threads t).context = none := by rw [evicted_thread]
    refine ⟨_, EvictContextSignal_onTheSpot h hc hcontext hsignal hempty,
      ⟨h.mapped.evicted hc hcontext (h.onPath hempty c context hc hcontext), ?_⟩, ?_⟩
    · intro _ d context' hd
      rw [hnone] at hd
      cases hd
    · intro d hd
      rw [hnone] at hd
      cases hd
  · rw [Bool.not_eq_true] at hempty
    exact ⟨_, EvictContextSignal_delayed h hc hcontext hsignal hempty,
      Valid.setContext h hc hcontext rfl rfl rfl rfl,
      Settled.setContext h hc hcontext rfl (Or.inl rfl)⟩

/-- The third check of `Schedule` on a context that may run on -/
lemma checkQuantum_spec (hsignal : context.evict_signal = false) (hrunning : context.running)
    (haffinity : context.thread_affinity t) :
    ∃ core' returned, checkQuantum cfg core t = some (core', returned) ∧ Valid core' t ∧
      Settled core' t := by
  have hto := allocated_mappedTo h hc hcontext
  have hmem := h.mapped.allocated c hc
  have hfind : ∀ valid, ∃ found, findCandidate core t valid
      (core.threads t).mapped_contexts = some found := by
    intro valid
    apply findCandidate_isSome
    intro d hd
    obtain ⟨context', hd', _⟩ := h.mapped.mapped d hd
    exact ⟨context', hd'⟩
  have hkeep : Settled core t := by
    intro d hd
    rw [hc, Option.some.injEq] at hd
    subst hd
    exact ⟨hmem, context, hcontext, hto.mapped, Or.inr ⟨hrunning, haffinity⟩⟩
  have hvalid : Valid (renewed core c context) t := Valid.setContext h hc hcontext rfl rfl rfl rfl
  have hrenew : Settled (renewed core c context) t :=
    Settled.setContext h hc hcontext rfl (Or.inr ⟨hrunning, haffinity⟩)
  obtain ⟨core₁, hevict, hevicted⟩ := EvictContextSignal_spec h hc hcontext hsignal
  unfold checkQuantum
  simp only [Option.bind_eq_bind, hc, hcontext, Option.bind_some]
  by_cases hexpired : context.allocate_cycle + cfg.context_quantum ≤ core.cycle
  · have hlength : 1 ≤ (core.threads t).mapped_contexts.length := List.length_pos_of_mem hmem
    rw [if_pos (by simp [hsignal, hexpired]), guard_true_bind hlength]
    by_cases hone : (core.threads t).mapped_contexts.length = 1
    · have hhead : (core.threads t).mapped_contexts.head? = some c := by
        obtain ⟨d, hd⟩ := List.length_eq_one_iff.mp hone
        rw [hd, List.mem_singleton] at hmem
        rw [hd, hmem]
        rfl
      rw [if_pos hone, guard_true_bind hhead]
      exact ⟨_, true, rfl, hvalid, hrenew⟩
    · rw [if_neg hone]
      obtain ⟨found, hfound⟩ := hfind fun temp => decide (context.sched_priority ≤ temp.sched_priority)
      rw [hfound, Option.bind_some]
      cases found with
      | true =>
        rw [if_pos rfl, hevict]
        exact ⟨core₁, false, rfl, hevicted⟩
      | false => exact ⟨_, false, rfl, hvalid, hrenew⟩
  · rw [if_neg (by simp [hexpired]), if_pos (by simp [hsignal])]
    obtain ⟨found, hfound⟩ := hfind fun temp => decide (context.sched_priority < temp.sched_priority)
    rw [hfound, Option.bind_some]
    cases found with
    | true =>
      rw [if_pos rfl, hevict]
      exact ⟨core₁, false, rfl, hevicted⟩
    | false => exact ⟨core, false, rfl, h, hkeep⟩

lemma checkRunning_eq : checkRunning core t =
    if !context.evict_signal && !context.running then EvictContextSignal core t
    else some core := by
  have hto := allocated_mappedTo h hc hcontext
  simp [checkRunning, Core.allocated, hc, hcontext, hto.alloc_iff.mpr hc, hto.mapped]

omit h in
lemma checkAffinity_eq : checkAffinity core t =
    if !context.evict_signal && !context.thread_affinity t then EvictContextSignal core t
    else some core := by
  simp [checkAffinity, Core.allocated, hc, hcontext]

lemma checks_spec (hspot : ¬EvictsOnTheSpot core t) :
    ∃ core' context', (checkRunning core t).bind (checkAffinity · t) = some core' ∧
      Valid core' t ∧ (core'.threads t).context = some c ∧ core'.contexts c = some context' ∧
      (context'.evict_signal ∨ context'.evict_signal = false ∧ context'.running ∧
        context'.thread_affinity t) := by
  have hvalid : Valid (signalled core c context) t :=
    Valid.setContext h hc hcontext rfl rfl rfl rfl
  have hself : (signalled core c context).contexts c = some { context with evict_signal := true } :=
    Core.setContext_contexts_self ..
  by_cases hsignal : context.evict_signal
  · obtain ⟨hfirst, hsecond, _⟩ := @schedule_signalled core t c context {} h hc hcontext hsignal
    refine ⟨core, context, ?_, h, hc, hcontext, Or.inl hsignal⟩
    rw [hfirst, Option.bind_some, hsecond]
  · rw [Bool.not_eq_true] at hsignal
    have hbusy : context.running = false ∨ context.thread_affinity t = false →
        (core.threads t).isPipelineEmpty = false := by
      intro hleave
      rw [Bool.eq_false_iff]
      intro hempty
      exact hspot ⟨hempty, context, by rw [Core.allocated, hc, Option.bind_some, hcontext], hsignal,
        hleave⟩
    by_cases hrunning : context.running
    · have hfirst : checkRunning core t = some core := by
        rw [checkRunning_eq h hc hcontext, if_neg (by simp [hrunning])]
      rw [hfirst, Option.bind_some, checkAffinity_eq hc hcontext]
      by_cases haffinity : context.thread_affinity t
      · rw [if_neg (by simp [haffinity])]
        exact ⟨core, context, rfl, h, hc, hcontext, Or.inr ⟨hsignal, hrunning, haffinity⟩⟩
      · rw [Bool.not_eq_true] at haffinity
        rw [if_pos (by simp [hsignal, haffinity]),
          EvictContextSignal_delayed h hc hcontext hsignal (hbusy (Or.inr haffinity))]
        exact ⟨_, _, rfl, hvalid, hc, hself, Or.inl rfl⟩
    · rw [Bool.not_eq_true] at hrunning
      have hfirst : checkRunning core t = some (signalled core c context) := by
        rw [checkRunning_eq h hc hcontext, if_pos (by simp [hsignal, hrunning]),
          EvictContextSignal_delayed h hc hcontext hsignal (hbusy (Or.inl hrunning))]
      have hc' : ((signalled core c context).threads t).context = some c := hc
      rw [hfirst, Option.bind_some, checkAffinity_eq hc' hself, if_neg (by simp)]
      exact ⟨_, _, rfl, hvalid, hc', hself, Or.inl rfl⟩

end Allocated

/-- `Schedule` trips no assertion unless one of its first two checks evicts on the spot, and it
leaves on the thread a context that may run there, one that was signalled for eviction, or none. -/
theorem Schedule_settles (cfg : Config) (core : Core) (t : ℕ) (h : Valid core t)
    (hspot : ¬EvictsOnTheSpot core t) :
    ∃ core', Schedule cfg core t = some core' ∧ Valid core' t ∧ Settled core' t := by
  unfold Schedule
  cases hc : (core.threads t).context with
  | none =>
    rw [Option.isSome_none, if_neg Bool.false_ne_true]
    exact scheduleMapped_spec h fun c hd => by rw [hc] at hd; cases hd
  | some c =>
    rw [Option.isSome_some, if_pos rfl]
    obtain ⟨context, hcontext, _⟩ := h.mapped.allocated_context hc
    obtain ⟨core₁, context₁, hchecks, h₁, hc₁, hcontext₁, hstate⟩ := checks_spec h hc hcontext hspot
    obtain ⟨core₀, hfirst, hsecond⟩ := Option.bind_eq_some_iff.mp hchecks
    have hquantum : ∃ core₂ returned, checkQuantum cfg core₁ t = some (core₂, returned) ∧
        Valid core₂ t ∧ Settled core₂ t := by
      cases hstate with
      | inl hsignal =>
        have hto := allocated_mappedTo h₁ hc₁ hcontext₁
        refine ⟨core₁, false, (schedule_signalled h₁ hc₁ hcontext₁ hsignal).2.2, h₁, ?_⟩
        intro d hd
        have hdc : d = c := by
          rw [hc₁, Option.some.injEq] at hd
          exact hd.symm
        rw [hdc]
        exact ⟨h₁.mapped.allocated c hc₁, context₁, hcontext₁, hto.mapped, Or.inl hsignal⟩
      | inr hruns =>
        obtain ⟨hsignal, hrunning, haffinity⟩ := hruns
        exact checkQuantum_spec h₁ hc₁ hcontext₁ hsignal hrunning haffinity
    obtain ⟨core₂, returned, hquantum, h₂, hsettled⟩ := hquantum
    simp only [Option.bind_eq_bind, hfirst, Option.bind_some, hsecond, hquantum]
    cases returned with
    | true => exact ⟨core₂, rfl, h₂, hsettled⟩
    | false => exact scheduleMapped_spec h₂ hsettled

def draining : Core :=
  { contexts := fun c => if c = 0 then
      some { suspended := true, alloc := true, mapped := true, thread := some 0 } else none
    threads := fun t => if t = 0 then
      { context := some 0, mapped_contexts := [0], queue := Function.update (fun _ => []) .Fetch [0] } else {} }

lemma draining_valid : Valid draining 0 := by
  constructor
  · constructor
    · exact List.nodup_singleton 0
    · intro c hc
      rw [List.mem_singleton.mp hc]
      exact ⟨_, rfl, rfl, rfl, by simp [draining], by simp, by simp⟩
    · intro c hc
      have hc0 : 0 = c := Option.some.inj hc
      rw [← hc0]
      exact List.mem_singleton_self 0
  · intro hempty
    exact absurd hempty (by decide)

theorem Schedule_settles_draining : ∃ core', Schedule {} draining 0 = some core' ∧
    Valid core' 0 ∧ Settled core' 0 :=
  Schedule_settles {} draining 0 draining_valid fun hspot => absurd hspot.1 (by decide)

/-- A context that does not run any more stays on the thread until its pipeline drains. -/
theorem Schedule_leaves_suspended :
    ¬∀ (cfg : Config) (core : Core) (t : ℕ), Valid core t →
      ∃ core', Schedule cfg core t = some core' ∧ ∀ c, (core'.threads t).context = some c →
        ∃ context, core'.contexts c = some context ∧ context.running ∧ context.mapped ∧
          context.thread_affinity t := by
  intro h
  obtain ⟨core', hschedule, hruns⟩ := h {} draining 0 draining_valid
  have hstays : (Schedule {} draining 0).map (fun core => ((core.threads 0).context,
      (core.contexts 0).map Context.running)) = some (some 0, some false) := by decide
  rw [hschedule, Option.map_some, Option.some.injEq, Prod.mk.injEq] at hstays
  obtain ⟨context, hcontext, hrunning, _⟩ := hruns 0 hstays.1
  rw [hcontext, Option.map_some, hrunning] at hstays
  exact absurd hstays.2 (by decide)

end Thread

end OISA.X86
