import OISA.Proofs.PipelineSteps

/-!
# Delayed evictions

A context that is signalled for eviction while uops of it are in the pipeline is evicted by the
commit stage, once the pipeline is empty.
-/

namespace OISA.X86

open Lib

namespace Thread

variable {core core' core₁ : Core} {t t' c u : ℕ} {context : Context} {cfg : Config}
  {P Q : ℕ → Prop}

def isSignalled (core : Core) (t : ℕ) : Bool := (core.allocated t).any (·.evict_signal)

/-- The allocated context is signalled for eviction, but the pipeline is empty. -/
def Stuck (core : Core) (t : ℕ) : Prop :=
  isSignalled core t ∧ (core.threads t).isPipelineEmpty

/-- What holds between the steps of a core; only threads in `P` are known not to be stuck. -/
structure LiveOn (P : ℕ → Prop) (core : Core) : Prop where
  mapped : ∀ t, Mapped core t
  unmapped : ∀ c context, core.contexts c = some context → context.thread = none →
    context.spec_mode = false ∧ context.alloc = false
  live : ∀ t, P t → ¬Stuck core t

abbrev Live (core : Core) : Prop := LiveOn (fun _ => True) core

lemma LiveOn.mono (h : LiveOn P core) (hle : ∀ t, Q t → P t) : LiveOn Q core :=
  ⟨h.mapped, h.unmapped, fun t ht => h.live t (hle t ht)⟩

lemma LiveOn.but (h : LiveOn P core) (t : ℕ) : LiveOn (fun t' => t' ≠ t ∧ P t') core :=
  h.mono fun _ ht => ht.2

lemma isSignalled_iff : isSignalled core t ↔ ∃ c, (core.threads t).context = some c ∧
    ∃ context, core.contexts c = some context ∧ context.evict_signal := by
  simp only [isSignalled, Core.allocated, Option.any_eq_true, Option.bind_eq_some_iff]
  constructor
  · rintro ⟨context, ⟨c, hc, hcontext⟩, hsignal⟩
    exact ⟨c, hc, context, hcontext, hsignal⟩
  · rintro ⟨c, hc, context, hcontext, hsignal⟩
    exact ⟨context, ⟨c, hc, hcontext⟩, hsignal⟩

namespace Steady

lemma isSignalled (h : Steady P core core') (hm : Mapped core t) :
    isSignalled core' t = isSignalled core t := by
  rw [Bool.eq_iff_iff, isSignalled_iff, isSignalled_iff, h.context_eq t]
  apply exists_congr
  intro c
  apply and_congr_right
  intro hc
  obtain ⟨context, hcontext, _⟩ := hm.allocated_context hc
  obtain ⟨context', hcontext', hsame⟩ := h.contexts c context hcontext
  simp [hcontext, hcontext', hsame.evict_signal]

lemma notStuck (h : Steady P core core') (hm : Mapped core t) (ht : P t) (hn : ¬Stuck core t) :
    ¬Stuck core' t := by
  intro hstuck
  apply hn
  exact ⟨(h.isSignalled hm).symm.trans hstuck.1, h.busy t ht hstuck.2⟩

lemma unmapped (h : Steady P core core')
    (hu : ∀ c context, core.contexts c = some context → context.thread = none →
      context.spec_mode = false ∧ context.alloc = false) :
    ∀ c context, core'.contexts c = some context → context.thread = none →
      context.spec_mode = false ∧ context.alloc = false := by
  intro c context' hcontext' hthread
  cases hcontext : core.contexts c with
  | none =>
    rw [h.absent c hcontext] at hcontext'
    cases hcontext'
  | some context =>
    obtain ⟨context'', hcontext'', hsame⟩ := h.contexts c context hcontext
    rw [hcontext', Option.some.injEq] at hcontext''
    rw [← hcontext''] at hsame
    obtain ⟨hspec, halloc⟩ := hu c context hcontext (hsame.thread.symm.trans hthread)
    constructor
    · rw [Bool.eq_false_iff]
      intro hspec'
      cases hsame.spec_mode hspec' with
      | inl h => rw [h] at hspec; cases hspec
      | inr h => rw [h] at halloc; cases halloc
    · rw [hsame.alloc]
      exact halloc

lemma live (h : Steady P core core') (hl : LiveOn P core) : LiveOn P core' :=
  ⟨fun t => h.mapped (hl.mapped t), h.unmapped hl.unmapped,
    fun t ht => h.notStuck (hl.mapped t) ht (hl.live t ht)⟩

end Steady

namespace LiveOn

lemma own (h : LiveOn (fun t' => t' ≠ t ∧ P t') core) (hc : core.contexts c = some context) (hthread : context.thread = some t)
    {x : Option Context} {f : Thread → Thread}
    (hmapped : Mapped ((core.setContext c x).setThread t f) t)
    (hunmapped : ∀ new, x = some new → new.thread = none →
      new.spec_mode = false ∧ new.alloc = false)
    (hlive : P t → ¬Stuck ((core.setContext c x).setThread t f) t) :
    LiveOn P ((core.setContext c x).setThread t f) := by
  constructor
  · intro t'
    by_cases ht : t' = t
    · rw [ht]
      exact hmapped
    · exact (h.mapped t').other hc hthread ht x f
  · intro d new hd hnone
    by_cases hdc : d = c
    · rw [hdc, Core.setThread_contexts, Core.setContext_contexts_self] at hd
      exact hunmapped new hd hnone
    · rw [Core.setThread_contexts, Core.setContext_contexts_of_ne _ _ hdc] at hd
      exact h.unmapped d new hd hnone
  · intro t' hP
    by_cases ht : t' = t
    · rw [ht] at hP ⊢
      exact hlive hP
    · have hsame : ((core.setContext c x).setThread t f).threads t' = core.threads t' :=
        Core.setThread_threads_of_ne _ _ ht
      have hnot := (h.mapped t').notMem_of_thread hc hthread ht
      intro hstuck
      apply h.live t' ⟨ht, hP⟩
      obtain ⟨hsignal, hempty⟩ := hstuck
      rw [hsame] at hempty
      rw [isSignalled_iff, hsame] at hsignal
      obtain ⟨d, hd, new, hnew, hsignal⟩ := hsignal
      have hdc : d ≠ c := by
        intro hdc
        exact hnot (hdc ▸ (h.mapped t').allocated d hd)
      rw [Core.setThread_contexts, Core.setContext_contexts_of_ne _ _ hdc] at hnew
      exact ⟨isSignalled_iff.mpr ⟨d, hd, new, hnew, hsignal⟩, hempty⟩

lemma ownContext (h : LiveOn (fun t' => t' ≠ t ∧ P t') core) (hc : core.contexts c = some context)
    (hthread : context.thread = some t) {x : Option Context}
    (hmapped : Mapped (core.setContext c x) t)
    (hunmapped : ∀ new, x = some new → new.thread = none →
      new.spec_mode = false ∧ new.alloc = false)
    (hlive : P t → ¬Stuck (core.setContext c x) t) : LiveOn P (core.setContext c x) := by
  have hid : (core.setContext c x).setThread t id = core.setContext c x := by
    unfold Core.setThread
    rw [id, Function.update_eq_self]
  have hown := @own core t c context P h hc hthread x id (by rw [hid]; exact hmapped) hunmapped
    (by rw [hid]; exact hlive)
  rw [hid] at hown
  exact hown

lemma evicted (h : LiveOn (fun t' => t' ≠ t ∧ P t') core) (hc : (core.threads t).context = some c)
    (hcontext : core.contexts c = some context) (hspec : context.spec_mode = false) :
    LiveOn P (evicted core t c context) := by
  have hto := (h.mapped t).mappedTo ((h.mapped t).allocated c hc) hcontext
  have hnone : ((Thread.evicted core t c context).threads t).context = none := by
    rw [evicted_thread]
  apply h.own hcontext hto.thread_eq ((h.mapped t).evicted hc hcontext hspec)
  · intro new hnew hthread
    rw [Option.some.injEq] at hnew
    subst hnew
    rw [hto.thread_eq] at hthread
    cases hthread
  · intro _ hstuck
    obtain ⟨d, hd, _⟩ := isSignalled_iff.mp hstuck.1
    cases hnone.symm.trans hd

lemma evictContextSignal (h : LiveOn P core) (hstep : EvictContextSignal core t = some core') :
    LiveOn P core' := by
  obtain ⟨c, hc, context, hcontext, halloc, hmapped, hsignal, hthread, hcases⟩ :=
    EvictContextSignal_eq_some.mp hstep
  cases hcases with
  | inl hbusy =>
    obtain ⟨hbusy, rfl⟩ := hbusy
    apply (h.but t).ownContext hcontext hthread
    · exact (h.mapped t).setContext hcontext rfl rfl rfl (fun _ => halloc) (fun _ => halloc)
    · intro new hnew hnone
      rw [Option.some.injEq] at hnew
      subst hnew
      rw [hthread] at hnone
      cases hnone
    · intro _ hstuck
      have hempty := hstuck.2
      rw [Core.setContext_threads, hbusy] at hempty
      cases hempty
  | inr hspot =>
    obtain ⟨_, hspec, rfl⟩ := hspot
    exact (h.but t).evicted hc hcontext hspec

lemma renewed (h : LiveOn P core) (hcontext : core.contexts c = some context) : LiveOn P (renewed core c context) := by
  have hsame : SameBits context { context with allocate_cycle := core.cycle } :=
    ⟨rfl, rfl, rfl, rfl, Or.inl⟩
  have hset := (Recovers.setContext (t := 0) hcontext hsame).steady
  exact Steady.live ⟨hset.contexts, hset.absent, fun _ => rfl, fun _ => rfl, fun _ _ hempty => hempty⟩ h

lemma checkRunning (h : LiveOn P core) (hstep : checkRunning core t = some core') : LiveOn P core' := by
  simp only [Thread.checkRunning, Option.bind_eq_bind, Option.bind_eq_some_iff, guard_eq_some,
    exists_const] at hstep
  obtain ⟨context, _, _, _, hstep⟩ := hstep
  by_cases hevict : (!context.evict_signal && !context.running) = true
  · rw [if_pos hevict] at hstep
    exact h.evictContextSignal hstep
  · rw [if_neg hevict, Option.some.injEq] at hstep
    rw [← hstep]
    exact h

lemma checkAffinity (h : LiveOn P core) (hstep : checkAffinity core t = some core') : LiveOn P core' := by
  simp only [Thread.checkAffinity, Option.bind_eq_bind, Option.bind_eq_some_iff] at hstep
  obtain ⟨context, _, hstep⟩ := hstep
  by_cases hevict : (!context.evict_signal && !context.thread_affinity t) = true
  · rw [if_pos hevict] at hstep
    exact h.evictContextSignal hstep
  · rw [if_neg hevict, Option.some.injEq] at hstep
    rw [← hstep]
    exact h

lemma checkQuantum {returned : Bool} (h : LiveOn P core)
    (hstep : checkQuantum cfg core t = some (core', returned)) : LiveOn P core' := by
  have hsignal : ∀ {r : Option (Core × Bool)}, (EvictContextSignal core t).map (·, false) = r →
      r = some (core', returned) → LiveOn P core' := by
    intro r hr hsome
    rw [hsome, Option.map_eq_some_iff] at hr
    obtain ⟨core₁, hstep, heq⟩ := hr
    rw [← (Prod.mk.inj heq).1]
    exact h.evictContextSignal hstep
  simp only [Thread.checkQuantum, Option.bind_eq_bind, Option.bind_eq_some_iff] at hstep
  obtain ⟨c, hc, context, hcontext, hstep⟩ := hstep
  have hrenewed : LiveOn P (Thread.renewed core c context) := h.renewed hcontext
  have hdone : ∀ {core₁ : Core} {b : Bool}, LiveOn P core₁ → some (core₁, b) = some (core', returned) →
      LiveOn P core' := by
    intro core₁ b h₁ heq
    rw [← (Prod.mk.inj (Option.some.inj heq)).1]
    exact h₁
  split_ifs at hstep with hexpired hone hwaits
  · simp only [Option.bind_eq_some_iff, guard_eq_some, exists_const] at hstep
    exact hdone hrenewed hstep.2.2
  · simp only [Option.bind_eq_some_iff, guard_eq_some, exists_const] at hstep
    obtain ⟨_, found, _, hstep⟩ := hstep
    cases found with
    | true => exact hsignal rfl hstep
    | false => exact hdone hrenewed hstep
  · simp only [Option.bind_eq_some_iff] at hstep
    obtain ⟨found, _, hstep⟩ := hstep
    cases found with
    | true => exact hsignal rfl hstep
    | false => exact hdone h hstep
  · exact hdone h hstep

lemma unmapContext (h : LiveOn P core) (hmem : c ∈ (core.threads t).mapped_contexts)
    (hstep : UnmapContext core t c = some core') : LiveOn P core' := by
  obtain ⟨context, hcontext, _, _, halloc, hne, rfl⟩ := UnmapContext_eq_some.mp hstep
  have hto := (h.mapped t).mappedTo hmem hcontext
  apply (h.but t).own hcontext hto.thread_eq ((h.mapped t).unmapped hne)
  · intro new hnew _
    by_cases hfinished : context.finished
    · rw [if_pos hfinished] at hnew
      cases hnew
    · rw [if_neg hfinished, Option.some.injEq] at hnew
      subst hnew
      constructor
      · rw [Bool.eq_false_iff]
        intro hspec
        have htrue := hto.alloc_of_spec hspec
        rw [halloc] at htrue
        cases htrue
      · exact halloc
  · intro ht hstuck
    apply h.live t ht
    have hthread := @unmapped_thread core t c context
    obtain ⟨hsignal, hempty⟩ := hstuck
    obtain ⟨d, hd, new, hnew, hsignal⟩ := isSignalled_iff.mp hsignal
    have hd' : (core.threads t).context = some d := by
      have hcontext' : ((Thread.unmapped core t c context).threads t).context = some d := hd
      rw [hthread] at hcontext'
      exact hcontext'
    have hempty' : (core.threads t).isPipelineEmpty := by
      have hempty' : ((Thread.unmapped core t c context).threads t).isPipelineEmpty := hempty
      rw [hthread] at hempty'
      exact hempty'
    have hdc : d ≠ c := fun hdc => hne (hdc ▸ hd')
    rw [Core.setThread_contexts, Core.setContext_contexts_of_ne _ _ hdc] at hnew
    exact ⟨isSignalled_iff.mpr ⟨d, hd', new, hnew, hsignal⟩, hempty'⟩

lemma unmapContexts {contexts : List ℕ} (h : LiveOn P core)
    (hsub : ∀ c ∈ contexts, c ∈ (core.threads t).mapped_contexts) (hnodup : contexts.Nodup)
    (hstep : unmapContexts t contexts core = some core') : LiveOn P core' := by
  induction contexts generalizing core with
  | nil =>
    rw [Thread.unmapContexts, Option.some.injEq] at hstep
    rw [← hstep]
    exact h
  | cons c contexts ih =>
    obtain ⟨hc, hnodup⟩ := List.nodup_cons.mp hnodup
    have hsub' : ∀ d ∈ contexts, d ∈ (core.threads t).mapped_contexts :=
      fun d hd => hsub d (List.mem_cons_of_mem c hd)
    rw [Thread.unmapContexts] at hstep
    by_cases hallocated : some c = (core.threads t).context
    · rw [if_pos hallocated] at hstep
      exact ih h hsub' hnodup hstep
    · rw [if_neg hallocated, Option.bind_eq_bind, Option.bind_eq_some_iff] at hstep
      obtain ⟨context, hcontext, hstep⟩ := hstep
      by_cases hunmap : (!context.thread_affinity t || context.finished) = true
      · rw [if_pos hunmap, Option.bind_eq_bind, Option.bind_eq_some_iff] at hstep
        obtain ⟨core₁, hfirst, hrest⟩ := hstep
        apply ih (h.unmapContext (hsub c (List.mem_cons_self ..)) hfirst) _ hnodup hrest
        obtain ⟨context', _, _, _, _, _, rfl⟩ := UnmapContext_eq_some.mp hfirst
        intro d hd
        have hdc : d ≠ c := fun heq => hc (heq ▸ hd)
        rw [unmapped_thread]
        exact (List.mem_erase_of_ne hdc).mpr (hsub' d hd)
      · rw [if_neg hunmap] at hstep
        exact ih h hsub' hnodup hstep

lemma allocateContext (h : LiveOn P core) (hmem : c ∈ (core.threads t).mapped_contexts)
    (hstep : Cpu.AllocateContext core c = some core') : LiveOn P core' := by
  obtain ⟨context, hcontext, t', hthread, hnone, _, _, hsignal, rfl⟩ :=
    AllocateContext_eq_some.mp hstep
  have hto := (h.mapped t).mappedTo hmem hcontext
  rw [hto.thread_eq, Option.some.injEq] at hthread
  subst hthread
  apply (h.but t).own hcontext hto.thread_eq ((h.mapped t).allocatedTo hnone hmem hcontext)
  · intro new hnew hthread
    rw [Option.some.injEq] at hnew
    subst hnew
    rw [hto.thread_eq] at hthread
    cases hthread
  · intro _ hstuck
    obtain ⟨d, hd, new, hnew, hsignal'⟩ := isSignalled_iff.mp hstuck.1
    rw [Core.setThread_threads_self, Option.some.injEq] at hd
    rw [← hd, Core.setThread_contexts, Core.setContext_contexts_self, Option.some.injEq] at hnew
    rw [← hnew, hsignal] at hsignal'
    cases hsignal'

lemma scheduleMapped (h : LiveOn P core) (hstep : scheduleMapped core t = some core') : LiveOn P core' := by
  simp only [Thread.scheduleMapped, Option.bind_eq_bind, Option.bind_eq_some_iff] at hstep
  obtain ⟨core₁, hunmap, hstep⟩ := hstep
  have h₁ : LiveOn P core₁ := h.unmapContexts (fun _ hc => hc) (h.mapped t).nodup hunmap
  by_cases hsome : (core₁.threads t).context.isSome
  · rw [if_pos hsome, Option.some.injEq] at hstep
    rw [← hstep]
    exact h₁
  · rw [if_neg hsome, Option.bind_eq_some_iff] at hstep
    obtain ⟨found, hfound, hstep⟩ := hstep
    cases found with
    | none =>
      rw [← Option.some.inj hstep]
      exact h₁
    | some c =>
      obtain ⟨found', hfound', hcandidate⟩ := selectContext_spec (h₁.mapped t) (fun _ hc => hc)
        (fun c (hc : none = some c) => by cases hc)
      rw [hfound, Option.some.injEq] at hfound'
      exact h₁.allocateContext (hcandidate c hfound'.symm).1 hstep

lemma schedule (h : LiveOn P core) (hstep : Schedule cfg core t = some core') : LiveOn P core' := by
  unfold Schedule at hstep
  by_cases hsome : (core.threads t).context.isSome
  · simp only [hsome, if_true, Option.bind_eq_bind, Option.bind_eq_some_iff] at hstep
    obtain ⟨core₁, hrunning, core₂, haffinity, ⟨core₃, returned⟩, hquantum, hstep⟩ := hstep
    have h₃ : LiveOn P core₃ := ((h.checkRunning hrunning).checkAffinity haffinity).checkQuantum hquantum
    cases returned with
    | true =>
      rw [← Option.some.inj hstep]
      exact h₃
    | false => exact h₃.scheduleMapped hstep
  · rw [if_neg hsome] at hstep
    exact h.scheduleMapped hstep

lemma notMem_of_outside (h : LiveOn P core) (houtside : (core.contexts c).all Core.isOutside) (t : ℕ) :
    c ∉ (core.threads t).mapped_contexts := by
  intro hmem
  obtain ⟨context, hcontext, hto⟩ := (h.mapped t).mapped c hmem
  rw [hcontext, Option.all_some] at houtside
  have hmapped := hto.mapped
  simp [Core.isOutside, hmapped] at houtside

lemma outside (h : LiveOn P core) {x : Option Context} (hnot : ∀ t, c ∉ (core.threads t).mapped_contexts)
    (hunmapped : ∀ new, x = some new → new.thread = none →
      new.spec_mode = false ∧ new.alloc = false) : LiveOn P (core.setContext c x) := by
  have hsame : ∀ d, d ≠ c → (core.setContext c x).contexts d = core.contexts d :=
    fun d hd => Core.setContext_contexts_of_ne _ _ hd
  constructor
  · intro t
    refine (h.mapped t).frame rfl rfl ?_
    intro d hd
    exact hsame d fun hdc => hnot t (hdc ▸ hd)
  · intro d new hd hnone
    by_cases hdc : d = c
    · rw [hdc, Core.setContext_contexts_self] at hd
      exact hunmapped new hd hnone
    · rw [hsame d hdc] at hd
      exact h.unmapped d new hd hnone
  · intro t ht hstuck
    apply h.live t ht
    obtain ⟨hsignal, hempty⟩ := hstuck
    obtain ⟨d, hd, new, hnew, hsignal⟩ := isSignalled_iff.mp hsignal
    have hdc : d ≠ c := fun hdc => hnot t (hdc ▸ (h.mapped t).allocated d hd)
    rw [hsame d hdc] at hnew
    exact ⟨isSignalled_iff.mpr ⟨d, hd, new, hnew, hsignal⟩, hempty⟩

lemma update (h : LiveOn P core) (hcontext : core.contexts c = some context) {new : Context}
    (hsame : SameBits context new) : LiveOn P (core.setContext c (some new)) := by
  have hset := (Recovers.setContext (t := 0) hcontext hsame).steady
  exact Steady.live ⟨hset.contexts, hset.absent, fun _ => rfl, fun _ => rfl, fun _ _ hempty => hempty⟩ h

lemma mapContext (h : LiveOn P core) (hstep : Core.mapContext core t c = some core') : LiveOn P core' := by
  simp only [Core.mapContext, Thread.MapContext, Option.bind_eq_bind, Option.bind_eq_some_iff,
    guard_eq_some, exists_const, Bool.not_eq_true', Option.some.injEq] at hstep
  obtain ⟨context, hcontext, hsignal, _, context', hcontext', hnone, hmapped, halloc, rfl⟩ := hstep
  rw [hcontext, Option.some.injEq] at hcontext'
  subst hcontext'
  have hnot : ∀ t, c ∉ (core.threads t).mapped_contexts := by
    intro t' hmem
    have hthread := ((h.mapped t').mappedTo hmem hcontext).thread_eq
    rw [hnone] at hthread
    cases hthread
  have hspec := (h.unmapped c context hcontext hnone).1
  have hset : LiveOn P (core.setContext c (some { context with thread := some t, mapped := true })) := by
    apply h.outside hnot
    intro new hnew hnone
    rw [Option.some.injEq] at hnew
    subst hnew
    cases hnone
  have hthread : ∀ {core₁ : Core}, LiveOn P core₁ → core₁.threads = core.threads →
      core₁.contexts c = some { context with thread := some t, mapped := true } →
      LiveOn P (core₁.setThread t fun thread => { thread with
        mapped_contexts := thread.mapped_contexts ++ [c] }) := by
    intro core₁ h₁ hthreads hc
    have hself : (core₁.setThread t fun thread => { thread with
        mapped_contexts := thread.mapped_contexts ++ [c] }).threads t = { core₁.threads t with
          mapped_contexts := (core₁.threads t).mapped_contexts ++ [c] } :=
      Core.setThread_threads_self ..
    constructor
    · intro t'
      by_cases ht : t' = t
      · subst ht
        constructor
        · rw [hself]
          have hc' : c ∉ (core₁.threads t').mapped_contexts := by
            rw [hthreads]
            exact hnot t'
          exact (h₁.mapped t').nodup.append (List.nodup_singleton c)
            (by simpa [List.disjoint_singleton] using hc')
        · intro d hd
          rw [hself] at hd ⊢
          cases List.mem_append.mp hd with
          | inl hd => exact (h₁.mapped t').mapped d hd
          | inr hd =>
            rw [List.mem_singleton.mp hd]
            refine ⟨_, hc, rfl, rfl, ?_, ?_, ?_⟩
            · simp only [halloc, Bool.false_eq_true, false_iff]
              intro heq
              exact hnot t' (by rw [← hthreads]; exact (h₁.mapped t').allocated c heq)
            · simp [hsignal]
            · simp [hspec]
        · intro d hd
          rw [hself] at hd ⊢
          exact List.mem_append_left _ ((h₁.mapped t').allocated d hd)
      · have hother : (core₁.setThread t fun thread => { thread with
            mapped_contexts := thread.mapped_contexts ++ [c] }).threads t' = core₁.threads t' :=
          Core.setThread_threads_of_ne _ _ ht
        exact (h₁.mapped t').frame (by rw [hother]) (by rw [hother]) fun _ _ => rfl
    · exact h₁.unmapped
    · intro t' ht' hstuck
      apply h₁.live t' ht'
      have hsame : ((core₁.setThread t fun thread => { thread with
          mapped_contexts := thread.mapped_contexts ++ [c] }).threads t').context =
            (core₁.threads t').context ∧ ((core₁.setThread t fun thread => { thread with
          mapped_contexts := thread.mapped_contexts ++ [c] }).threads t').queue =
            (core₁.threads t').queue := by
        by_cases ht : t' = t
        · rw [ht, hself]
          exact ⟨rfl, rfl⟩
        · rw [Core.setThread_threads_of_ne _ _ ht]
          exact ⟨rfl, rfl⟩
      obtain ⟨hsignal, hempty⟩ := hstuck
      rw [isSignalled_iff, hsame.1] at hsignal
      rw [isPipelineEmpty, hsame.2] at hempty
      exact ⟨isSignalled_iff.mpr hsignal, hempty⟩
  exact hthread hset rfl (Core.setContext_contexts_self ..)

end LiveOn

def commitRecovers (core : Core) (available : ℕ → Bool) : ℕ → List ℕ → Bool
  | _, [] => false
  | 0, _ :: _ => false
  | quantum + 1, u :: reorder_buffer => (canCommitUop core u available).2 &&
      ((core.uops u).first_speculative_mode ||
        commitRecovers core available quantum reorder_buffer)

def SameCommit (available : ℕ → Bool) (core core' : Core) : Prop :=
  ∀ v, (canCommitUop core' v available).2 = (canCommitUop core v available).2 ∧
    (core'.uops v).first_speculative_mode = (core.uops v).first_speculative_mode

lemma commitRecovers_eq {available : ℕ → Bool} (h : SameCommit available core core')
    (quantum : ℕ) (reorder_buffer : List ℕ) :
    commitRecovers core' available quantum reorder_buffer =
      commitRecovers core available quantum reorder_buffer := by
  induction reorder_buffer generalizing quantum with
  | nil => rw [commitRecovers, commitRecovers]
  | cons u reorder_buffer ih =>
    cases quantum with
    | zero => rw [commitRecovers, commitRecovers]
    | succ quantum => rw [commitRecovers, commitRecovers, (h u).1, (h u).2, ih]

lemma canCommitUop_snd (core : Core) (u : ℕ) (available : ℕ → Bool) :
    (canCommitUop core u available).2 = if (core.uops u).opcode = .Store then
      (core.uops u).ready || available u else (core.uops u).completed := by
  unfold canCommitUop isUopReady
  split_ifs with hstore hready havailable
  · simp [hready]
  · simp [havailable]
  · simp [hready, havailable]
  · rfl

lemma sameCommit_of_uops {available : ℕ → Bool}
    (h : ∀ v, (core'.uops v).opcode = (core.uops v).opcode ∧
      (core'.uops v).completed = (core.uops v).completed ∧
      (core'.uops v).first_speculative_mode = (core.uops v).first_speculative_mode ∧
      ((core'.uops v).ready || available v) = ((core.uops v).ready || available v)) :
    SameCommit available core core' := by
  intro v
  obtain ⟨hopcode, hcompleted, hfirst, hready⟩ := h v
  rw [canCommitUop_snd, canCommitUop_snd, hopcode, hcompleted, hready]
  exact ⟨rfl, hfirst⟩

lemma SameCommit.trans {available : ℕ → Bool} (h : SameCommit available core core₁)
    (h' : SameCommit available core₁ core') : SameCommit available core core' :=
  fun v => ⟨(h' v).1.trans (h v).1, (h' v).2.trans (h v).2⟩

lemma canCommitUop_sameCommit (core : Core) (u : ℕ) (available : ℕ → Bool) :
    SameCommit available core (canCommitUop core u available).1 := by
  apply sameCommit_of_uops
  intro v
  unfold canCommitUop isUopReady
  split_ifs with hstore hready havailable
  · exact ⟨rfl, rfl, rfl, rfl⟩
  · by_cases hv : v = u
    · subst hv
      rw [Core.setUop_uops_self]
      exact ⟨rfl, rfl, rfl, by rw [havailable, Bool.or_true, Bool.or_true]⟩
    · rw [Core.setUop_uops_of_ne _ _ hv]
      exact ⟨rfl, rfl, rfl, rfl⟩
  · exact ⟨rfl, rfl, rfl, rfl⟩
  · exact ⟨rfl, rfl, rfl, rfl⟩

lemma canCommitUop_steady (available : ℕ → Bool) :
    Steady P core (canCommitUop core u available).1 := by
  unfold canCommitUop
  split_ifs
  · exact isUopReady_steady available
  · exact Steady.refl P core

lemma canCommitUop_queue (core : Core) (u : ℕ) (available : ℕ → Bool) (t : ℕ) :
    ((canCommitUop core u available).1.threads t) = core.threads t := by
  unfold canCommitUop isUopReady
  split_ifs <;> rfl

lemma take_uops (core : Core) (t u : ℕ) (q : Queue) (v : ℕ) :
    ((core.take t u q).uops v).opcode = (core.uops v).opcode ∧
      ((core.take t u q).uops v).completed = (core.uops v).completed ∧
      ((core.take t u q).uops v).first_speculative_mode = (core.uops v).first_speculative_mode ∧
      ((core.take t u q).uops v).ready = (core.uops v).ready := by
  unfold Core.take
  rw [Core.setThread_uops]
  by_cases hv : v = u
  · subst hv
    rw [Core.setUop_uops_self]
    exact ⟨rfl, rfl, rfl, rfl⟩
  · rw [Core.setUop_uops_of_ne _ _ hv]
    exact ⟨rfl, rfl, rfl, rfl⟩

/-- The loop of the commit stage empties no pipeline but the one of its thread, and recovers only
as `commitRecovers` says. -/
lemma commitUops_spec {available : ℕ → Bool} {quantum : ℕ} {returned : Bool}
    (h : commitUops t available quantum core = some (core', returned)) :
    Steady (· ≠ t) core core' ∧ (returned →
      commitRecovers core available quantum ((core.threads t).queue .ReorderBuffer)) := by
  induction quantum generalizing core with
  | zero =>
    rw [commitUops, Option.some.injEq, Prod.mk.injEq] at h
    rw [← h.1, ← h.2]
    exact ⟨Steady.refl _ core, fun h => by cases h⟩
  | succ quantum ih =>
    rw [commitUops] at h
    cases hrob : (core.threads t).queue .ReorderBuffer with
    | nil =>
      rw [hrob, Option.some.injEq, Prod.mk.injEq] at h
      rw [← h.1, ← h.2]
      exact ⟨Steady.refl _ core, fun h => by cases h⟩
    | cons u rob =>
      simp only [hrob, Option.bind_eq_bind, Option.bind_eq_some_iff, guard_eq_some,
        exists_const] at h
      obtain ⟨_, h⟩ := h
      have hsteady : Steady (· ≠ t) core (canCommitUop core u available).1 :=
        canCommitUop_steady available
      have hsame := canCommitUop_sameCommit core u available
      have hthread := canCommitUop_queue core u available t
      rw [commitRecovers]
      cases hcan : canCommitUop core u available with
      | mk core₁ can =>
        rw [hcan] at h hsteady hsame hthread
        cases can with
        | false =>
          simp only [Option.some.injEq, Prod.mk.injEq] at h
          rw [← h.1, ← h.2]
          exact ⟨hsteady, fun h => by cases h⟩
        | true =>
          have hfirst : (core₁.uops u).first_speculative_mode =
            (core.uops u).first_speculative_mode := (hsame u).2
          by_cases hspec : (core₁.uops u).first_speculative_mode
          · simp only [hspec, if_true, Option.map_eq_some_iff, Prod.mk.injEq] at h
            obtain ⟨core₂, hrecover, rfl, rfl⟩ := h
            refine ⟨hsteady.trans (Recover_recovers hrecover).steady, fun _ => ?_⟩
            rw [← hfirst, hspec]
            rfl
          · simp only [hspec, if_false, Option.bind_eq_some_iff, guard_eq_some, exists_const,
              Bool.false_eq_true] at h
            obtain ⟨_, core₂, hextract, hrest⟩ := h
            obtain ⟨_, _, rfl⟩ := ExtractFromReorderBuffer_eq_some.mp hextract
            have htake : Steady (· ≠ t) core₁ (core₁.take t u .ReorderBuffer) :=
              Steady.take fun ht => absurd rfl ht
            have hcounter : Steady (· ≠ t) (core₁.take t u .ReorderBuffer)
                { core₁.take t u .ReorderBuffer with
                  reorder_buffer_occupancy := core₁.reorder_buffer_occupancy - 1 } :=
              Steady.of_eq rfl rfl
            obtain ⟨hloop, hrecovers⟩ := ih hrest
            refine ⟨(((hsteady.trans htake).trans hcounter).trans
              (Steady.setThread _ rfl rfl rfl)).trans hloop, fun hreturned => ?_⟩
            have hrest := hrecovers hreturned
            have hqueue : ((core₁.take t u .ReorderBuffer).threads t).queue .ReorderBuffer = rob := by
              rw [Core.take_queue_self, hthread, hrob, List.erase_cons_head]
            have htaken : SameCommit available core₁ ({ core₁.take t u .ReorderBuffer with
                reorder_buffer_occupancy := core₁.reorder_buffer_occupancy - 1 }.setThread t
                  fun thread => { thread with committed := thread.committed ++ [u] }) := by
              apply sameCommit_of_uops
              intro v
              obtain ⟨hopcode, hcompleted, hfirst', hready⟩ :=
                take_uops core₁ t u .ReorderBuffer v
              exact ⟨hopcode, hcompleted, hfirst', congrArg (· || available v) hready⟩
            rw [commitRecovers_eq (hsame.trans htaken), Core.setThread_threads_self] at hrest
            have hrest' : commitRecovers core available quantum rob = true := by
              rw [← hqueue]
              exact hrest
            rw [hrest', Bool.or_true, Bool.and_true]

lemma LiveOn.commit {available : ℕ → Bool} {quantum : ℕ} (h : LiveOn P core)
    (hallows : P t → isSignalled core t →
      commitRecovers core available quantum ((core.threads t).queue .ReorderBuffer) = false)
    (hstep : Commit core t available quantum = some core') : LiveOn P core' := by
  simp only [Commit, Option.bind_eq_bind, Option.bind_eq_some_iff, guard_eq_some, exists_const]
    at hstep
  obtain ⟨_, ⟨core₁, returned⟩, hloop, hstep⟩ := hstep
  obtain ⟨hsteady, hrecovers⟩ := commitUops_spec hloop
  have hother : Steady (fun t' => t' ≠ t ∧ P t') core core₁ := hsteady.mono fun _ ht => ht.1
  have h₁ : LiveOn (fun t' => t' ≠ t ∧ P t') core₁ := hother.live (h.but t)
  have hlive : (P t → ¬Stuck core₁ t) → LiveOn P core₁ := by
    intro hself
    refine ⟨h₁.mapped, h₁.unmapped, ?_⟩
    intro t' ht'
    by_cases heq : t' = t
    · rw [heq] at ht' ⊢
      exact hself ht'
    · exact h₁.live t' ⟨heq, ht'⟩
  cases returned with
  | true =>
    rw [← Option.some.inj hstep]
    apply hlive
    intro ht hstuck
    have hsignal : isSignalled core t := (hsteady.isSignalled (h.mapped t)).symm.trans hstuck.1
    have hnot := hallows ht hsignal
    rw [hrecovers rfl] at hnot
    cases hnot
  | false =>
    simp only [Bool.false_eq_true, if_false, Option.bind_eq_some_iff] at hstep
    obtain ⟨context, hcontext, hstep⟩ := hstep
    by_cases hevict : (context.evict_signal && (core₁.threads t).isPipelineEmpty) = true
    · rw [if_pos hevict] at hstep
      obtain ⟨c, hc, context', hcontext', _, _, hspec, _, _, rfl⟩ :=
        EvictContext_eq_some.mp hstep
      exact h₁.evicted hc hcontext' hspec
    · rw [if_neg hevict, Option.some.injEq] at hstep
      rw [← hstep]
      apply hlive
      intro _ hstuck
      apply hevict
      have hsignal := hstuck.1
      rw [isSignalled, hcontext, Option.any_some] at hsignal
      rw [hsignal, hstuck.2]
      rfl

lemma LiveOn.commitStage {available : ℕ → Bool} {quantum : ℕ} (h : LiveOn P core)
    (hallows : P t → isSignalled core t →
      commitRecovers core available quantum ((core.threads t).queue .ReorderBuffer) = false)
    (hstep : commitStage core t available quantum = some core') : LiveOn P core' := by
  unfold Thread.commitStage at hstep
  cases hrob : (core.threads t).queue .ReorderBuffer with
  | nil =>
    rw [hrob] at hstep
    rw [← Option.some.inj hstep]
    exact h
  | cons u rob =>
    simp only [hrob, Option.bind_eq_bind, Option.bind_eq_some_iff, guard_eq_some,
      exists_const] at hstep
    obtain ⟨_, hstep⟩ := hstep
    have hsteady : Steady P core (canCommitUop core u available).1 :=
      canCommitUop_steady available
    have hsame := canCommitUop_sameCommit core u available
    have hthread := canCommitUop_queue core u available t
    cases hcan : canCommitUop core u available with
    | mk core₁ can =>
      rw [hcan] at hstep hsteady hsame hthread
      have h₁ : LiveOn P core₁ := hsteady.live h
      cases can with
      | false =>
        rw [← Option.some.inj hstep]
        exact h₁
      | true =>
        apply h₁.commit _ hstep
        intro ht hsignal
        rw [hsteady.isSignalled (h.mapped t)] at hsignal
        rw [hthread, commitRecovers_eq hsame]
        exact hallows ht hsignal

def WritebackAllows (cfg : Config) (core : Core) : Prop :=
  cfg.recover_kind = .Writeback → ∀ u ∈ core.event_queue,
    (core.uops u).complete_when ≤ core.cycle → (core.uops u).first_speculative_mode →
    isSignalled core (core.uops u).thread →
    ∃ v ∈ (core.threads (core.uops u).thread).pipeline, (core.uops v).speculative_mode = false

lemma WritebackAllows.squash (hw : WritebackAllows cfg core) (hm : ∀ t, Mapped core t)
    (h : Recovers t core core') : WritebackAllows cfg core' := by
  intro hkind u hu hdue hfirst hsignal
  have hsame := h.squashes.uops u
  rw [hsame.thread] at hsignal ⊢
  rw [hsame.complete_when, h.squashes.cycle_eq] at hdue
  rw [hsame.first_speculative_mode] at hfirst
  rw [h.steady.isSignalled (hm _)] at hsignal
  obtain ⟨v, hv, hspec⟩ := hw hkind u (h.squashes.events u hu) hdue hfirst hsignal
  exact ⟨v, h.squashes.kept _ v hv hspec, (h.squashes.uops v).speculative_mode.trans hspec⟩

lemma setUop_completed (core : Core) (t u : ℕ) :
    Recovers t core (core.setUop u fun uop => { uop with completed := true }) :=
  ⟨Steady.of_eq rfl rfl, Squashes.setUop ⟨rfl, rfl, rfl, rfl⟩⟩

lemma LiveOn.writebackUop (h : Live core) (hw : WritebackAllows cfg core)
    (hu : u ∈ core.event_queue) (hdue : (core.uops u).complete_when ≤ core.cycle)
    (hstep : writebackUop cfg core u = some core') : Live core' ∧ WritebackAllows cfg core' := by
  simp only [Thread.writebackUop, Option.bind_eq_bind, Option.bind_eq_some_iff, guard_eq_some,
    exists_const] at hstep
  obtain ⟨_, _, core₁, hextract, hstep⟩ := hstep
  have hfirst : ∀ t, Recovers t core (core₁.setUop u fun uop => { uop with completed := true }) :=
    fun t => (Recovers.extractFromEventQueue hextract).trans (setUop_completed core₁ t u)
  have hsteady : Steady (fun _ => True) core
      (core₁.setUop u fun uop => { uop with completed := true }) := by
    simp only [Core.ExtractFromEventQueue, Option.bind_eq_bind, Option.bind_eq_some_iff,
      guard_eq_some, exists_const, Option.some.injEq] at hextract
    obtain ⟨_, rfl⟩ := hextract
    exact Steady.of_eq rfl rfl
  have hsame := (hfirst 0).squashes.uops u
  have h₁ := hsteady.live h
  split_ifs at hstep with hrecover
  · have hrecovers := Recover_recovers hstep
    have hall := (hfirst _).trans hrecovers
    refine ⟨⟨fun t => hall.steady.mapped (h.mapped t), hall.steady.unmapped h.unmapped, ?_⟩,
      hw.squash h.mapped hall⟩
    intro t _ hstuck
    by_cases ht : t = ((core₁.setUop u fun uop => { uop with completed := true }).uops u).thread
    · have hsignal := hstuck.1
      rw [hall.steady.isSignalled (h.mapped t)] at hsignal
      rw [hsame.thread] at ht
      rw [hsame.first_speculative_mode] at hrecover
      rw [ht] at hsignal
      obtain ⟨v, hv, hspec⟩ := hw hrecover.1 u hu hdue hrecover.2 hsignal
      have hkept := hall.squashes.kept _ v hv hspec
      obtain ⟨q, hq, hmem⟩ := mem_pipeline.mp hkept
      have hempty := (isPipelineEmpty_iff _).mp hstuck.2 q hq
      rw [ht] at hempty
      rw [hempty] at hmem
      cases hmem
    · exact hall.steady.notStuck (h.mapped t) ht (h.live t trivial) hstuck
  · rw [← Option.some.inj hstep]
    exact ⟨h₁, hw.squash h.mapped (hfirst 0)⟩

lemma LiveOn.writebackUops {n : ℕ} (h : Live core) (hw : WritebackAllows cfg core)
    (hstep : writebackUops cfg n core = some core') : Live core' := by
  induction n generalizing core with
  | zero =>
    rw [Thread.writebackUops, Option.some.injEq] at hstep
    rw [← hstep]
    exact h
  | succ n ih =>
    rw [Thread.writebackUops] at hstep
    cases hevents : core.event_queue with
    | nil =>
      rw [hevents, Option.some.injEq] at hstep
      rw [← hstep]
      exact h
    | cons u events =>
      simp only [hevents] at hstep
      have hu : u ∈ core.event_queue := by
        rw [hevents]
        exact List.mem_cons_self ..
      by_cases hlater : core.cycle < (core.uops u).complete_when
      · rw [if_pos hlater, Option.some.injEq] at hstep
        rw [← hstep]
        exact h
      · rw [if_neg hlater, Option.bind_eq_bind, Option.bind_eq_some_iff] at hstep
        obtain ⟨core₁, hfirst, hrest⟩ := hstep
        obtain ⟨h₁, hw₁⟩ := h.writebackUop hw hu (not_lt.mp hlater) hfirst
        exact ih h₁ hw₁ hrest

lemma writebackUop_steady (h : writebackUop cfg core u = some core') :
    Steady (fun _ => False) core core' := by
  simp only [writebackUop, Option.bind_eq_bind, Option.bind_eq_some_iff, guard_eq_some,
    exists_const] at h
  obtain ⟨_, _, core₁, hextract, h⟩ := h
  have hfirst := fun t => ((Recovers.extractFromEventQueue (t := t) hextract).trans
    (setUop_completed core₁ t u)).steady
  split_ifs at h
  · exact ((hfirst _).trans (Recover_recovers h).steady).mono fun _ hfalse => hfalse.elim
  · rw [← Option.some.inj h]
    exact (hfirst 0).mono fun _ hfalse => hfalse.elim

lemma writebackUops_steady {n : ℕ} (h : writebackUops cfg n core = some core') :
    Steady (fun _ => False) core core' := by
  induction n generalizing core with
  | zero =>
    rw [writebackUops, Option.some.injEq] at h
    rw [← h]
    exact Steady.refl _ core
  | succ n ih =>
    rw [writebackUops] at h
    cases hevents : core.event_queue with
    | nil =>
      rw [hevents, Option.some.injEq] at h
      rw [← h]
      exact Steady.refl _ core
    | cons u events =>
      simp only [hevents] at h
      by_cases hlater : core.cycle < (core.uops u).complete_when
      · rw [if_pos hlater, Option.some.injEq] at h
        rw [← h]
        exact Steady.refl _ core
      · rw [if_neg hlater, Option.bind_eq_bind, Option.bind_eq_some_iff] at h
        obtain ⟨core₁, hfirst, hrest⟩ := h
        exact (writebackUop_steady hfirst).trans (ih hrest)

/-- No step recovers a thread that is signalled for eviction and holds nothing in its pipeline but
speculative uops. -/
def Allows (cfg : Config) : Core.Op → Core → Prop
  | .Commit t available quantum, core => isSignalled core t →
      commitRecovers core available quantum ((core.threads t).queue .ReorderBuffer) = false
  | .Writeback, core => WritebackAllows cfg core
  | _, _ => True

instance : ∀ op core, Decidable (Allows cfg op core)
  | .Commit _ _ _, _ => inferInstanceAs (Decidable (_ → _))
  | .Writeback, _ => inferInstanceAs (Decidable (_ → _))
  | .Schedule _, _ => inferInstanceAs (Decidable True)
  | .Map _ _, _ => inferInstanceAs (Decidable True)
  | .Update _ _ _ _ _ _ _, _ => inferInstanceAs (Decidable True)
  | .Outside _ _, _ => inferInstanceAs (Decidable True)
  | .IssueLoadQueue _ _ _ _, _ => inferInstanceAs (Decidable True)
  | .IssueStoreQueue _ _ _, _ => inferInstanceAs (Decidable True)
  | .IssueInstructionQueue _ _ _ _, _ => inferInstanceAs (Decidable True)
  | .MemoryAccessEnd _, _ => inferInstanceAs (Decidable True)
  | .Dispatch _ _ _, _ => inferInstanceAs (Decidable True)
  | .Decode _ _, _ => inferInstanceAs (Decidable True)
  | .Fetch _ _ _ _, _ => inferInstanceAs (Decidable True)
  | .NextCycle, _ => inferInstanceAs (Decidable True)

lemma outside_bits (hcontext : Core.isOutside context) :
    context.spec_mode = false ∧ context.alloc = false := by
  simp only [Core.isOutside, Bool.and_eq_true, Bool.not_eq_true'] at hcontext
  exact ⟨hcontext.1.2, hcontext.1.1.1.2⟩

/-- Every step keeps the contexts mapped, and if it is allowed, it leaves no thread stuck. -/
lemma LiveOn.step {op : Core.Op} {p : Prop} (h : LiveOn (fun _ => p) core)
    (hallows : p → Allows cfg op core) (hstep : Core.step cfg op core = some core') :
    LiveOn (fun _ => p) core' := by
  cases op with
  | Schedule t => exact h.schedule hstep
  | Map t c => exact h.mapContext hstep
  | Update c suspended finished zombie locked thread_affinity sched_priority =>
    simp only [Core.step, Option.bind_eq_bind, Option.bind_eq_some_iff, Option.some.injEq] at hstep
    obtain ⟨context, hcontext, rfl⟩ := hstep
    have hupdate := sameBits_update { context with
      finished := context.finished || finished
      zombie := context.zombie || zombie
      suspended, locked, thread_affinity, sched_priority }
    exact h.update hcontext ⟨hupdate.mapped, hupdate.thread, hupdate.alloc, hupdate.evict_signal,
      hupdate.spec_mode⟩
  | Outside c new =>
    simp only [Core.step, Option.bind_eq_bind, Option.bind_eq_some_iff, guard_eq_some, exists_const,
      Option.some.injEq] at hstep
    obtain ⟨hold, hnew, rfl⟩ := hstep
    apply h.outside (h.notMem_of_outside hold)
    intro context hcontext _
    rw [hcontext, Option.all_some] at hnew
    exact outside_bits hnew
  | Commit t available quantum => exact h.commitStage hallows hstep
  | Writeback =>
    by_cases hp : p
    · exact ((h.mono fun _ _ => hp).writebackUops (hallows hp) hstep).mono fun _ _ => trivial
    · exact ((writebackUops_steady hstep).mono fun _ h => absurd h hp).live h
  | IssueLoadQueue t available canAccess quantum => exact (IssueLoadQueue_steady hstep).live h
  | IssueStoreQueue t canAccess quantum => exact (IssueStoreQueue_steady hstep).live h
  | IssueInstructionQueue t available Reserve quantum =>
    exact (IssueInstructionQueue_steady hstep).live h
  | MemoryAccessEnd u => exact (memoryAccessEnd_steady hstep).live h
  | Dispatch t canRename quantum => exact (Dispatch_steady hstep).live h
  | Decode t isInFlightAccess => exact (decodeSlots_steady hstep).live h
  | Fetch t access entry instructions =>
    rw [Core.step] at hstep
    by_cases hcan : canFetch cfg core t access
    · rw [if_pos hcan] at hstep
      exact (Fetch_steady (h.mapped t) hstep).live h
    · rw [if_neg hcan, Option.some.injEq] at hstep
      rw [← hstep]
      exact h
  | NextCycle =>
    rw [Core.step, Option.some.injEq] at hstep
    rw [← hstep]
    have hcycle : Steady (fun _ => p) core { core with cycle := core.cycle + 1 } :=
      Steady.of_eq rfl rfl
    exact hcycle.live h

lemma live_init : Live {} := by
  constructor
  · intro t
    constructor
    · exact List.nodup_nil
    · intro c hc
      cases hc
    · intro c hc
      cases hc
  · intro c context hcontext
    cases hcontext
  · intro t _ hstuck
    exact absurd hstuck.1 Bool.false_ne_true

/-- No eviction is forgotten in a run where no recovery strikes a signalled thread that holds
nothing but speculative uops. -/
theorem run_evicts (cfg : Config) (ops : List Core.Op) (core : Core)
    (hallows : Along (Core.step cfg) (Allows cfg) ops {})
    (hrun : run (Core.step cfg) ops {} = some core) (t : ℕ) : ¬Stuck core t :=
  (run_invariant (fun _ _ _ h hop hstep => h.step (fun _ => hop) hstep) live_init hallows hrun).live
    t trivial

/-- Two contexts share a thread. -/
def wrongPath : List Core.Op :=
  [.Outside 0 (some {}), .Map 0 0, .Outside 1 (some {}), .Map 0 1, .Schedule 0,
    .Fetch 0 true none [{ size := 4, uinsts := [.Branch], eip := 256 },
      { size := 4, uinsts := [.Branch], eip := 8 }],
    .NextCycle, .Decode 0 fun _ => false,
    .NextCycle, .Dispatch 0 (fun _ => true) 4,
    .NextCycle, .IssueInstructionQueue 0 (fun _ => true) (fun _ => 1) 1,
    .NextCycle, .Writeback, .IssueInstructionQueue 0 (fun _ => true) (fun _ => 2) 1,
    .NextCycle, .Schedule 0, .Commit 0 (fun _ => true) 4]

/-- The context of a thread commits its uops after the signal and is evicted. -/
theorem run_evicts_drained :
    let ops := wrongPath.take 5 ++ [.Fetch 0 true none [{ size := 4, uinsts := [.Branch], eip := 4 }],
      .NextCycle, .Decode 0 fun _ => false, .NextCycle, .Dispatch 0 (fun _ => true) 4,
      .NextCycle, .IssueInstructionQueue 0 (fun _ => true) (fun _ => 1) 1, .NextCycle, .NextCycle,
      .Schedule 0, .Writeback, .NextCycle, .Commit 0 (fun _ => true) 4]
    ∃ core, run (Core.step { context_quantum := 5 }) ops {} = some core ∧
      (core.threads 0).committed = [0] ∧ (core.threads 0).context = none ∧ ∀ t, ¬Stuck core t := by
  intro ops
  have hrun := (Option.some_get (by decide +kernel :
    (run (Core.step { context_quantum := 5 }) ops {}).isSome = true)).symm
  exact ⟨_, hrun, by decide +kernel, by decide +kernel,
    run_evicts { context_quantum := 5 } ops _ (by decide +kernel) hrun⟩

/-- A recovery at writeback empties the pipeline of a signalled context, which stays there. -/
theorem run_forgets_eviction :
    ¬∀ (cfg : Config) (ops : List Core.Op) (core : Core),
      run (Core.step cfg) ops {} = some core → ∀ t, ¬Stuck core t := by
  intro h
  have hrun := (Option.some_get (by decide +kernel : (run (Core.step { context_quantum := 5 })
    (wrongPath ++ [.NextCycle, .Writeback]) {}).isSome = true)).symm
  exact h { context_quantum := 5 } (wrongPath ++ [.NextCycle, .Writeback]) _ hrun 0
    ⟨by decide +kernel, by decide +kernel⟩

end Thread

end OISA.X86
