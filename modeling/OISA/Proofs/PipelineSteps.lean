import OISA.Proofs.Scheduling
import OISA.X86.CoreRun

/-!
# What the pipeline does to the contexts

The stages of the pipeline leave the contexts mapped to the threads alone, except for the path
that the allocated context is on.
-/

namespace OISA.X86

namespace Core

variable (core : Core) (t u : ℕ) (q : Queue) (f : QueuedUop → QueuedUop)

@[simp] lemma setUop_threads : (core.setUop u f).threads = core.threads := rfl

@[simp] lemma setUop_contexts : (core.setUop u f).contexts = core.contexts := rfl

@[simp] lemma push_contexts : (core.push t u q).contexts = core.contexts := rfl

@[simp] lemma take_contexts : (core.take t u q).contexts = core.contexts := rfl

@[simp] lemma setUop_uops_self : (core.setUop u f).uops u = f (core.uops u) :=
  Function.update_self ..

@[simp] lemma push_load_store_queue_occupancy :
    (core.push t u q).load_store_queue_occupancy = core.load_store_queue_occupancy := rfl

lemma push_threads_self : (core.push t u q).threads t = { core.threads t with
    queue := Function.update (core.threads t).queue q ((core.threads t).queue q ++ [u]) } :=
  setThread_threads_self ..

lemma take_threads_self : (core.take t u q).threads t = { core.threads t with
    queue := Function.update (core.threads t).queue q (((core.threads t).queue q).erase u) } :=
  setThread_threads_self ..

lemma push_queue_self :
    ((core.push t u q).threads t).queue q = (core.threads t).queue q ++ [u] := by
  rw [push_threads_self]
  exact Function.update_self ..

lemma take_queue_self :
    ((core.take t u q).threads t).queue q = ((core.threads t).queue q).erase u := by
  rw [take_threads_self]
  exact Function.update_self ..

variable {q}

lemma push_queue_of_ne {q' : Queue} (h : q' ≠ q) :
    ((core.push t u q).threads t).queue q' = (core.threads t).queue q' := by
  rw [push_threads_self]
  exact Function.update_of_ne h ..

lemma take_queue_of_ne {q' : Queue} (h : q' ≠ q) :
    ((core.take t u q).threads t).queue q' = (core.threads t).queue q' := by
  rw [take_threads_self]
  exact Function.update_of_ne h ..

variable {u}

lemma setUop_uops_of_ne {v : ℕ} (h : v ≠ u) : (core.setUop u f).uops v = core.uops v :=
  Function.update_of_ne h ..

variable {t} (u q)

lemma push_threads_of_ne {t' : ℕ} (h : t' ≠ t) : (core.push t u q).threads t' = core.threads t' :=
  setThread_threads_of_ne _ _ h

lemma take_threads_of_ne {t' : ℕ} (h : t' ≠ t) : (core.take t u q).threads t' = core.threads t' :=
  setThread_threads_of_ne _ _ h

end Core

namespace Thread

variable {core core' core₁ : Core} {t c u : ℕ} {q : Queue} {cfg : Config} {P Q : ℕ → Prop}

def InPipeline (q : Queue) : Prop := q = .Fetch ∨ q = .Uop ∨ q = .ReorderBuffer

lemma isPipelineEmpty_iff (thread : Thread) :
    thread.isPipelineEmpty ↔ ∀ q, InPipeline q → thread.queue q = [] := by
  constructor
  · intro h q hq
    simp only [isPipelineEmpty, Bool.and_eq_true, List.isEmpty_iff] at h
    cases hq with
    | inl hq => rw [hq]; exact h.1.1
    | inr hq =>
      cases hq with
      | inl hq => rw [hq]; exact h.1.2
      | inr hq => rw [hq]; exact h.2
  · intro h
    simp only [isPipelineEmpty, Bool.and_eq_true, List.isEmpty_iff]
    exact ⟨⟨h _ (Or.inl rfl), h _ (Or.inr (Or.inl rfl))⟩, h _ (Or.inr (Or.inr rfl))⟩

def occupy (uop : QueuedUop) (thread : Thread) : Thread :=
  if uop.from_trace_cache then
    { thread with trace_cache_queue_occupancy := thread.trace_cache_queue_occupancy + 1 }
  else if uop.mop_index = 0 then
    { thread with fetch_queue_occupancy := thread.fetch_queue_occupancy + uop.mop_size }
  else thread

def vacate (uop : QueuedUop) (thread : Thread) : Thread :=
  if uop.from_trace_cache then
    { thread with trace_cache_queue_occupancy := thread.trace_cache_queue_occupancy - 1 }
  else if uop.mop_index = 0 then
    { thread with fetch_queue_occupancy := thread.fetch_queue_occupancy - uop.mop_size }
  else thread

section Occupancies

variable (uop : QueuedUop) (thread : Thread)

@[simp] lemma occupy_context : (occupy uop thread).context = thread.context := by
  unfold occupy
  split_ifs <;> rfl

@[simp] lemma occupy_mapped : (occupy uop thread).mapped_contexts = thread.mapped_contexts := by
  unfold occupy
  split_ifs <;> rfl

@[simp] lemma occupy_queue : (occupy uop thread).queue = thread.queue := by
  unfold occupy
  split_ifs <;> rfl

@[simp] lemma vacate_context : (vacate uop thread).context = thread.context := by
  unfold vacate
  split_ifs <;> rfl

@[simp] lemma vacate_mapped : (vacate uop thread).mapped_contexts = thread.mapped_contexts := by
  unfold vacate
  split_ifs <;> rfl

@[simp] lemma vacate_queue : (vacate uop thread).queue = thread.queue := by
  unfold vacate
  split_ifs <;> rfl

end Occupancies

lemma InsertInFetchQueue_eq_some : InsertInFetchQueue core t u = some core' ↔
    (core.uops u).in_queue .Fetch = false ∧
      (core.push t u .Fetch).setThread t (occupy (core.uops u)) = core' := by
  simp only [InsertInFetchQueue, Option.bind_eq_bind, Option.bind_eq_some_iff, guard_eq_some,
    exists_const, Option.some.injEq, Bool.not_eq_true']
  rfl

lemma ExtractFromFetchQueue_eq_some : ExtractFromFetchQueue core t u = some core' ↔
    (core.uops u).in_queue .Fetch ∧
      (((core.threads t).queue .Fetch).head? = some u ∨
        ((core.threads t).queue .Fetch).getLast? = some u) ∧
      ((core.uops u).from_trace_cache → 0 < (core.threads t).trace_cache_queue_occupancy) ∧
      (¬(core.uops u).from_trace_cache → (core.uops u).mop_index = 0 →
        (core.uops u).mop_size ≤ (core.threads t).fetch_queue_occupancy) ∧
      (core.take t u .Fetch).setThread t (vacate (core.uops u)) = core' := by
  simp only [ExtractFromFetchQueue, Option.bind_eq_bind, Option.bind_eq_some_iff, guard_eq_some,
    exists_const, Option.some.injEq]
  rfl

lemma InsertInUopQueue_eq_some : InsertInUopQueue core t u = some core' ↔
    (core.uops u).in_queue .Uop = false ∧ core.push t u .Uop = core' := by
  simp only [InsertInUopQueue, Option.bind_eq_bind, Option.bind_eq_some_iff, guard_eq_some,
    exists_const, Option.some.injEq, Bool.not_eq_true']

lemma ExtractFromUopQueue_eq_some : ExtractFromUopQueue core t u = some core' ↔
    (core.uops u).in_queue .Uop ∧ (core.threads t).queue .Uop ≠ [] ∧
      core.take t u .Uop = core' := by
  simp only [ExtractFromUopQueue, Option.bind_eq_bind, Option.bind_eq_some_iff, guard_eq_some,
    exists_const, Option.some.injEq]

lemma InsertInReorderBuffer_eq_some : InsertInReorderBuffer core t u = some core' ↔
    (core.uops u).in_queue .ReorderBuffer = false ∧
      { core.push t u .ReorderBuffer with
        reorder_buffer_occupancy := core.reorder_buffer_occupancy + 1 } = core' := by
  simp only [InsertInReorderBuffer, Option.bind_eq_bind, Option.bind_eq_some_iff, guard_eq_some,
    exists_const, Option.some.injEq, Bool.not_eq_true']
  rfl

lemma ExtractFromReorderBuffer_eq_some : ExtractFromReorderBuffer core t u = some core' ↔
    (core.uops u).in_queue .ReorderBuffer ∧ (core.threads t).queue .ReorderBuffer ≠ [] ∧
      { core.take t u .ReorderBuffer with
        reorder_buffer_occupancy := core.reorder_buffer_occupancy - 1 } = core' := by
  simp only [ExtractFromReorderBuffer, Option.bind_eq_bind, Option.bind_eq_some_iff, guard_eq_some,
    exists_const, Option.some.injEq]
  rfl

lemma InsertInInstructionQueue_eq_some : InsertInInstructionQueue core t u = some core' ↔
    (core.uops u).in_queue .Instruction = false ∧ (core.uops u).in_queue .Load = false ∧
      (core.uops u).in_queue .Store = false ∧
      { core.push t u .Instruction with
        instruction_queue_occupancy := core.instruction_queue_occupancy + 1 } = core' := by
  simp only [InsertInInstructionQueue, Option.bind_eq_bind, Option.bind_eq_some_iff, guard_eq_some,
    exists_const, Option.some.injEq, Bool.not_eq_true']
  rfl

lemma ExtractFromInstructionQueue_eq_some : ExtractFromInstructionQueue core t u = some core' ↔
    (core.uops u).in_queue .Load = false ∧ (core.uops u).in_queue .Store = false ∧
      (core.uops u).in_queue .Instruction ∧
      { core.take t u .Instruction with
        instruction_queue_occupancy := core.instruction_queue_occupancy - 1 } = core' := by
  simp only [ExtractFromInstructionQueue, Option.bind_eq_bind, Option.bind_eq_some_iff,
    guard_eq_some, exists_const, Option.some.injEq, Bool.not_eq_true']
  rfl

def memoryQueue : Opcode → Option Queue
  | .Load => some .Load
  | .Store => some .Store
  | _ => none

lemma InsertInLoadStoreQueue_eq_some : InsertInLoadStoreQueue core t u = some core' ↔
    (core.uops u).in_queue .Load = false ∧ (core.uops u).in_queue .Store = false ∧
      ∃ q, memoryQueue (core.uops u).opcode = some q ∧
      { core.push t u q with
        load_store_queue_occupancy := core.load_store_queue_occupancy + 1 } = core' := by
  simp only [InsertInLoadStoreQueue, Option.bind_eq_bind, Option.bind_eq_some_iff,
    guard_eq_some, exists_const, Bool.not_eq_true']
  cases (core.uops u).opcode with
  | Load => simp [memoryQueue]
  | Store => simp [memoryQueue]
  | _ => simp [memoryQueue]

lemma ExtractFromLoadQueue_eq_some : ExtractFromLoadQueue core t u = some core' ↔
    (core.uops u).in_queue .Load ∧ (core.uops u).in_queue .Store = false ∧
      (core.uops u).in_queue .Instruction = false ∧
      { core.take t u .Load with
        load_store_queue_occupancy := core.load_store_queue_occupancy - 1 } = core' := by
  simp only [ExtractFromLoadQueue, Option.bind_eq_bind, Option.bind_eq_some_iff, guard_eq_some,
    exists_const, Option.some.injEq, Bool.not_eq_true']
  rfl

lemma ExtractFromStoreQueue_eq_some : ExtractFromStoreQueue core t u = some core' ↔
    (core.uops u).in_queue .Instruction = false ∧ (core.uops u).in_queue .Load = false ∧
      (core.uops u).in_queue .Store ∧
      { core.take t u .Store with
        load_store_queue_occupancy := core.load_store_queue_occupancy - 1 } = core' := by
  simp only [ExtractFromStoreQueue, Option.bind_eq_bind, Option.bind_eq_some_iff, guard_eq_some,
    exists_const, Option.some.injEq, Bool.not_eq_true']
  rfl

structure SameBits (context context' : Context) : Prop where
  mapped : context'.mapped = context.mapped
  thread : context'.thread = context.thread
  alloc : context'.alloc = context.alloc
  evict_signal : context'.evict_signal = context.evict_signal
  spec_mode : context'.spec_mode → context.spec_mode ∨ context.alloc

lemma SameBits.refl (context : Context) : SameBits context context :=
  ⟨rfl, rfl, rfl, rfl, Or.inl⟩

lemma SameBits.trans {x y z : Context} (h : SameBits x y) (h' : SameBits y z) : SameBits x z := by
  constructor
  · exact h'.mapped.trans h.mapped
  · exact h'.thread.trans h.thread
  · exact h'.alloc.trans h.alloc
  · exact h'.evict_signal.trans h.evict_signal
  · intro hspec
    cases h'.spec_mode hspec with
    | inl hy => exact h.spec_mode hy
    | inr hy => exact Or.inr (h.alloc ▸ hy)

/-- A step that leaves the contexts of the threads alone, and empties no pipeline of the threads
in `P` -/
structure Steady (P : ℕ → Prop) (core core' : Core) : Prop where
  contexts : ∀ c context, core.contexts c = some context →
    ∃ context', core'.contexts c = some context' ∧ SameBits context context'
  absent : ∀ c, core.contexts c = none → core'.contexts c = none
  context_eq : ∀ t, (core'.threads t).context = (core.threads t).context
  mapped_eq : ∀ t, (core'.threads t).mapped_contexts = (core.threads t).mapped_contexts
  busy : ∀ t, P t → (core'.threads t).isPipelineEmpty → (core.threads t).isPipelineEmpty

namespace Steady

lemma refl (P : ℕ → Prop) (core : Core) : Steady P core core :=
  ⟨fun _ context hc => ⟨context, hc, SameBits.refl context⟩, fun _ hc => hc, fun _ => rfl,
    fun _ => rfl, fun _ _ h => h⟩

lemma of_some (h : some core = some core') : Steady P core core' :=
  Option.some.inj h ▸ refl P core

lemma trans (h : Steady P core core₁) (h' : Steady P core₁ core') : Steady P core core' := by
  constructor
  · intro c context hc
    obtain ⟨context₁, hc₁, hsame₁⟩ := h.contexts c context hc
    obtain ⟨context₂, hc₂, hsame₂⟩ := h'.contexts c context₁ hc₁
    exact ⟨context₂, hc₂, hsame₁.trans hsame₂⟩
  · exact fun c hc => h'.absent c (h.absent c hc)
  · exact fun t => (h'.context_eq t).trans (h.context_eq t)
  · exact fun t => (h'.mapped_eq t).trans (h.mapped_eq t)
  · exact fun t ht hempty => h.busy t ht (h'.busy t ht hempty)

lemma mono (h : Steady P core core') (hle : ∀ t, Q t → P t) : Steady Q core core' :=
  ⟨h.contexts, h.absent, h.context_eq, h.mapped_eq, fun t ht => h.busy t (hle t ht)⟩

lemma of_eq (hthreads : core'.threads = core.threads) (hcontexts : core'.contexts = core.contexts) :
    Steady P core core' := by
  constructor
  · intro c context hc
    exact ⟨context, by rw [hcontexts]; exact hc, SameBits.refl context⟩
  · intro c hc
    rw [hcontexts]
    exact hc
  · intro t
    rw [hthreads]
  · intro t
    rw [hthreads]
  · intro t _ hempty
    rw [hthreads] at hempty
    exact hempty

lemma of_thread (hcontexts : core'.contexts = core.contexts)
    (hother : ∀ t', t' ≠ t → core'.threads t' = core.threads t')
    (hcontext : (core'.threads t).context = (core.threads t).context)
    (hmapped : (core'.threads t).mapped_contexts = (core.threads t).mapped_contexts)
    (hbusy : P t → (core'.threads t).isPipelineEmpty → (core.threads t).isPipelineEmpty) :
    Steady P core core' := by
  constructor
  · intro c context hc
    exact ⟨context, by rw [hcontexts]; exact hc, SameBits.refl context⟩
  · intro c hc
    rw [hcontexts]
    exact hc
  · intro t'
    by_cases h : t' = t
    · rw [h, hcontext]
    · rw [hother t' h]
  · intro t'
    by_cases h : t' = t
    · rw [h, hmapped]
    · rw [hother t' h]
  · intro t' ht' hempty
    by_cases h : t' = t
    · subst h
      exact hbusy ht' hempty
    · rw [hother t' h] at hempty
      exact hempty

lemma setThread (f : Thread → Thread) (hcontext : (f (core.threads t)).context =
      (core.threads t).context)
    (hmapped : (f (core.threads t)).mapped_contexts = (core.threads t).mapped_contexts)
    (hqueue : (f (core.threads t)).queue = (core.threads t).queue) :
    Steady P core (core.setThread t f) := by
  refine of_thread rfl (fun t' h => Core.setThread_threads_of_ne _ _ h) ?_ ?_ ?_
  · rw [Core.setThread_threads_self, hcontext]
  · rw [Core.setThread_threads_self, hmapped]
  · intro _ hempty
    rw [Core.setThread_threads_self, isPipelineEmpty, hqueue] at hempty
    exact hempty

lemma push : Steady P core (core.push t u q) := by
  refine of_thread rfl (fun t' h => Core.push_threads_of_ne _ _ _ h) ?_ ?_ ?_
  · rw [Core.push_threads_self]
  · rw [Core.push_threads_self]
  · intro _ hempty
    rw [isPipelineEmpty_iff] at hempty ⊢
    intro q' hq'
    have h := hempty q' hq'
    by_cases heq : q' = q
    · subst heq
      rw [Core.push_queue_self] at h
      simp at h
    · rwa [Core.push_queue_of_ne _ _ _ heq] at h

lemma take (hq : P t → ¬InPipeline q) : Steady P core (core.take t u q) := by
  refine of_thread rfl (fun t' h => Core.take_threads_of_ne _ _ _ h) ?_ ?_ ?_
  · rw [Core.take_threads_self]
  · rw [Core.take_threads_self]
  · intro ht hempty
    rw [isPipelineEmpty_iff] at hempty ⊢
    intro q' hq'
    have h := hempty q' hq'
    have hne : q' ≠ q := fun heq => hq ht (heq ▸ hq')
    rwa [Core.take_queue_of_ne _ _ _ hne] at h

lemma of_mem (h : Steady (· ≠ t) core core') (hq : InPipeline q)
    (hu : u ∈ (core'.threads t).queue q) : Steady P core core' := by
  constructor
  · exact h.contexts
  · exact h.absent
  · exact h.context_eq
  · exact h.mapped_eq
  · intro t' _ hempty
    by_cases ht : t' = t
    · subst ht
      rw [isPipelineEmpty_iff] at hempty
      rw [hempty q hq] at hu
      cases hu
    · exact h.busy t' ht hempty

end Steady

lemma mem_pipeline {thread : Thread} {v : ℕ} :
    v ∈ thread.pipeline ↔ ∃ q, InPipeline q ∧ v ∈ thread.queue q := by
  simp only [pipeline, List.mem_append]
  constructor
  · rintro (h | h | h)
    · exact ⟨_, Or.inr (Or.inr rfl), h⟩
    · exact ⟨_, Or.inr (Or.inl rfl), h⟩
    · exact ⟨_, Or.inl rfl, h⟩
  · rintro ⟨q, rfl | rfl | rfl, h⟩
    · exact Or.inr (Or.inr h)
    · exact Or.inr (Or.inl h)
    · exact Or.inl h

/-- A uop keeps its thread, its path and its completion time. -/
structure SameUop (uop uop' : QueuedUop) : Prop where
  thread : uop'.thread = uop.thread
  speculative_mode : uop'.speculative_mode = uop.speculative_mode
  first_speculative_mode : uop'.first_speculative_mode = uop.first_speculative_mode
  complete_when : uop'.complete_when = uop.complete_when

/-- A step that takes no uop out of the pipelines but speculative ones, and puts none in the event
queue -/
structure Squashes (core core' : Core) : Prop where
  cycle_eq : core'.cycle = core.cycle
  uops : ∀ u, SameUop (core.uops u) (core'.uops u)
  kept : ∀ t, ∀ v ∈ (core.threads t).pipeline, (core.uops v).speculative_mode = false →
    v ∈ (core'.threads t).pipeline
  events : ∀ u ∈ core'.event_queue, u ∈ core.event_queue

namespace Squashes

lemma refl (core : Core) : Squashes core core :=
  ⟨rfl, fun _ => ⟨rfl, rfl, rfl, rfl⟩, fun _ _ hv _ => hv, fun _ hu => hu⟩

lemma trans (h : Squashes core core₁) (h' : Squashes core₁ core') : Squashes core core' := by
  constructor
  · exact h'.cycle_eq.trans h.cycle_eq
  · intro u
    have hu := h.uops u
    have hu' := h'.uops u
    exact ⟨hu'.thread.trans hu.thread, hu'.speculative_mode.trans hu.speculative_mode,
      hu'.first_speculative_mode.trans hu.first_speculative_mode,
      hu'.complete_when.trans hu.complete_when⟩
  · intro t v hv hspec
    exact h'.kept t v (h.kept t v hv hspec) ((h.uops v).speculative_mode.trans hspec)
  · exact fun u hu => h.events u (h'.events u hu)

lemma of_queue (hcycle : core'.cycle = core.cycle) (huops : core'.uops = core.uops)
    (hqueue : ∀ t, (core'.threads t).queue = (core.threads t).queue)
    (hevents : core'.event_queue = core.event_queue) : Squashes core core' := by
  constructor
  · exact hcycle
  · intro u
    rw [huops]
    exact ⟨rfl, rfl, rfl, rfl⟩
  · intro t v hv _
    rw [mem_pipeline] at hv ⊢
    rw [hqueue t]
    exact hv
  · intro u hu
    rw [hevents] at hu
    exact hu

lemma setThread {f : Thread → Thread} (hqueue : (f (core.threads t)).queue =
    (core.threads t).queue) : Squashes core (core.setThread t f) := by
  refine of_queue rfl rfl ?_ rfl
  intro t'
  by_cases h : t' = t
  · subst h
    rw [Core.setThread_threads_self, hqueue]
  · rw [Core.setThread_threads_of_ne _ _ h]

lemma setUop_same {f : QueuedUop → QueuedUop} (hf : SameUop (core.uops u) (f (core.uops u)))
    (v : ℕ) : SameUop (core.uops v) ((core.setUop u f).uops v) := by
  by_cases h : v = u
  · subst h
    rw [Core.setUop_uops_self]
    exact hf
  · rw [Core.setUop_uops_of_ne _ _ h]
    exact ⟨rfl, rfl, rfl, rfl⟩

lemma setUop {f : QueuedUop → QueuedUop} (hf : SameUop (core.uops u) (f (core.uops u))) :
    Squashes core (core.setUop u f) :=
  ⟨rfl, setUop_same hf, fun _ _ hv _ => hv, fun _ hu => hu⟩

lemma take (hq : InPipeline q → (core.uops u).speculative_mode) :
    Squashes core (core.take t u q) := by
  constructor
  · rfl
  · exact setUop_same (f := fun uop => { uop with in_queue := Function.update uop.in_queue q false })
      ⟨rfl, rfl, rfl, rfl⟩
  · intro t' v hv hspec
    by_cases h : t' = t
    · subst h
      rw [mem_pipeline] at hv ⊢
      obtain ⟨q', hq', hv⟩ := hv
      refine ⟨q', hq', ?_⟩
      by_cases heq : q' = q
      · subst heq
        have hne : v ≠ u := by
          intro hvu
          rw [hvu, hq hq'] at hspec
          cases hspec
        rw [Core.take_queue_self]
        exact (List.mem_erase_of_ne hne).mpr hv
      · rw [Core.take_queue_of_ne _ _ _ heq]
        exact hv
    · rw [Core.take_threads_of_ne _ _ _ h]
      exact hv
  · exact fun v hv => hv

end Squashes

structure Recovers (t : ℕ) (core core' : Core) : Prop where
  steady : Steady (· ≠ t) core core'
  squashes : Squashes core core'

namespace Recovers

lemma refl (t : ℕ) (core : Core) : Recovers t core core :=
  ⟨Steady.refl _ core, Squashes.refl core⟩

lemma of_some (h : some core = some core') : Recovers t core core' :=
  Option.some.inj h ▸ refl t core

lemma trans (h : Recovers t core core₁) (h' : Recovers t core₁ core') : Recovers t core core' :=
  ⟨h.steady.trans h'.steady, h.squashes.trans h'.squashes⟩

lemma take (hq : InPipeline q → (core.uops u).speculative_mode) :
    Recovers t core (core.take t u q) :=
  ⟨Steady.take fun ht => absurd rfl ht, Squashes.take hq⟩

lemma setThread {f : Thread → Thread}
    (hcontext : (f (core.threads t)).context = (core.threads t).context)
    (hmapped : (f (core.threads t)).mapped_contexts = (core.threads t).mapped_contexts)
    (hqueue : (f (core.threads t)).queue = (core.threads t).queue) :
    Recovers t core (core.setThread t f) :=
  ⟨Steady.setThread f hcontext hmapped hqueue, Squashes.setThread hqueue⟩

lemma of_eq (hthreads : core'.threads = core.threads) (hcontexts : core'.contexts = core.contexts)
    (hcycle : core'.cycle = core.cycle) (huops : core'.uops = core.uops)
    (hevents : core'.event_queue = core.event_queue) : Recovers t core core' :=
  ⟨Steady.of_eq hthreads hcontexts, Squashes.of_queue hcycle huops (fun t => by rw [hthreads])
    hevents⟩

lemma squashTail {extract : Core → ℕ → ℕ → Option Core}
    (hextract : ∀ core core' u, extract core t u = some core' →
      (core.uops u).speculative_mode → Recovers t core core') {n : ℕ}
    (h : squashTail q extract t n core = some core') : Recovers t core core' := by
  induction n generalizing core with
  | zero =>
    exact of_some h
  | succ n ih =>
    rw [Thread.squashTail] at h
    cases hlast : ((core.threads t).queue q).getLast? with
    | none =>
      rw [hlast] at h
      exact of_some h
    | some u =>
      simp only [hlast, Option.bind_eq_bind, Option.bind_eq_some_iff, guard_eq_some,
        exists_const] at h
      obtain ⟨_, h⟩ := h
      by_cases hspec : (core.uops u).speculative_mode
      · rw [if_pos hspec, Option.bind_eq_some_iff] at h
        obtain ⟨core₁, hfirst, hrest⟩ := h
        exact (hextract core core₁ u hfirst hspec).trans (ih hrest)
      · rw [if_neg hspec] at h
        exact of_some h

lemma squashAll {extract : Core → ℕ → ℕ → Option Core}
    (hextract : ∀ core core' u, extract core t u = some core' →
      (core.uops u).speculative_mode → Recovers t core core') {uops : List ℕ}
    (h : squashAll extract t uops core = some core') : Recovers t core core' := by
  induction uops generalizing core with
  | nil =>
    exact of_some h
  | cons u uops ih =>
    rw [Thread.squashAll] at h
    by_cases hspec : (core.uops u).speculative_mode
    · rw [if_pos hspec, Option.bind_eq_bind, Option.bind_eq_some_iff] at h
      obtain ⟨core₁, hfirst, hrest⟩ := h
      exact (hextract core core₁ u hfirst hspec).trans (ih hrest)
    · rw [if_neg hspec] at h
      exact ih h

lemma extractFromEventQueue (h : core.ExtractFromEventQueue u = some core') :
    Recovers t core core' := by
  simp only [Core.ExtractFromEventQueue, Option.bind_eq_bind, Option.bind_eq_some_iff,
    guard_eq_some, exists_const, Option.some.injEq] at h
  obtain ⟨_, rfl⟩ := h
  constructor
  · exact Steady.of_eq rfl rfl
  · constructor
    · rfl
    · exact Squashes.setUop_same (f := fun uop => { uop with in_event_queue := false })
        ⟨rfl, rfl, rfl, rfl⟩
    · exact fun _ _ hv _ => hv
    · exact fun _ hu => List.mem_of_mem_erase hu

lemma squashEvents {uops : List ℕ} (h : squashEvents t uops core = some core') :
    Recovers t core core' := by
  induction uops generalizing core with
  | nil =>
    exact of_some h
  | cons u uops ih =>
    rw [Thread.squashEvents] at h
    by_cases hspec : (core.uops u).thread = t ∧ (core.uops u).speculative_mode
    · rw [if_pos hspec, Option.bind_eq_bind, Option.bind_eq_some_iff] at h
      obtain ⟨core₁, hfirst, hrest⟩ := h
      exact (extractFromEventQueue hfirst).trans (ih hrest)
    · rw [if_neg hspec] at h
      exact ih h

lemma extractFromFetchQueue (h : ExtractFromFetchQueue core t u = some core')
    (hspec : (core.uops u).speculative_mode) : Recovers t core core' := by
  obtain ⟨_, _, _, _, rfl⟩ := ExtractFromFetchQueue_eq_some.mp h
  exact (take fun _ => hspec).trans
    (setThread (vacate_context ..) (vacate_mapped ..) (vacate_queue ..))

lemma extractFromUopQueue (h : ExtractFromUopQueue core t u = some core')
    (hspec : (core.uops u).speculative_mode) : Recovers t core core' := by
  obtain ⟨_, _, rfl⟩ := ExtractFromUopQueue_eq_some.mp h
  exact take fun _ => hspec

lemma extractFromReorderBuffer (h : ExtractFromReorderBuffer core t u = some core')
    (hspec : (core.uops u).speculative_mode) : Recovers t core core' := by
  obtain ⟨_, _, rfl⟩ := ExtractFromReorderBuffer_eq_some.mp h
  exact (take fun _ => hspec).trans (of_eq rfl rfl rfl rfl rfl)

lemma not_inPipeline_instruction : ¬InPipeline .Instruction := by simp [InPipeline]

lemma not_inPipeline_load : ¬InPipeline .Load := by simp [InPipeline]

lemma not_inPipeline_store : ¬InPipeline .Store := by simp [InPipeline]

lemma extractFromInstructionQueue (h : ExtractFromInstructionQueue core t u = some core') :
    Recovers t core core' := by
  obtain ⟨_, _, _, rfl⟩ := ExtractFromInstructionQueue_eq_some.mp h
  exact (take fun hq => absurd hq not_inPipeline_instruction).trans (of_eq rfl rfl rfl rfl rfl)

lemma extractFromLoadQueue (h : ExtractFromLoadQueue core t u = some core') :
    Recovers t core core' := by
  obtain ⟨_, _, _, rfl⟩ := ExtractFromLoadQueue_eq_some.mp h
  exact (take fun hq => absurd hq not_inPipeline_load).trans (of_eq rfl rfl rfl rfl rfl)

lemma extractFromStoreQueue (h : ExtractFromStoreQueue core t u = some core') :
    Recovers t core core' := by
  obtain ⟨_, _, _, rfl⟩ := ExtractFromStoreQueue_eq_some.mp h
  exact (take fun hq => absurd hq not_inPipeline_store).trans (of_eq rfl rfl rfl rfl rfl)

end Recovers

lemma sameBits_update (context : Context) :
    SameBits context (Context.UpdateState context) := by
  unfold Context.UpdateState
  split_ifs
  · exact ⟨rfl, rfl, rfl, rfl, fun h => by cases h⟩
  · exact ⟨rfl, rfl, rfl, rfl, fun h => by cases h⟩
  · exact SameBits.refl context

lemma Recovers.setContext {context new : Context} (hc : core.contexts c = some context)
    (hsame : SameBits context new) : Recovers t core (core.setContext c (some new)) := by
  constructor
  · constructor
    · intro d old hd
      by_cases h : d = c
      · subst h
        rw [hc, Option.some.injEq] at hd
        rw [← hd]
        exact ⟨new, Core.setContext_contexts_self .., hsame⟩
      · rw [Core.setContext_contexts_of_ne _ _ h]
        exact ⟨old, hd, SameBits.refl old⟩
    · intro d hd
      have h : d ≠ c := by
        intro h
        rw [h, hc] at hd
        cases hd
      rw [Core.setContext_contexts_of_ne _ _ h]
      exact hd
    · exact fun _ => rfl
    · exact fun _ => rfl
    · exact fun _ _ h => h
  · exact Squashes.of_queue rfl rfl (fun _ => rfl) rfl

lemma recoverContext_recovers (h : recoverContext core t = some core') : Recovers t core core' := by
  unfold recoverContext at h
  cases hc : (core.threads t).context with
  | none =>
    rw [hc] at h
    rw [← Option.some.inj h]
    exact Recovers.refl t core
  | some c =>
    simp only [hc, Option.bind_eq_bind, Option.bind_eq_some_iff] at h
    obtain ⟨context, hcontext, h⟩ := h
    by_cases hspec : context.spec_mode
    · simp only [hspec, if_true, Context.Recover, Option.bind_some, Option.some.injEq] at h
      have hupdate := sameBits_update { context with spec_mode := false }
      have hsame : SameBits context { Context.UpdateState { context with spec_mode := false } with
          eip := context.backup_eip } :=
        ⟨hupdate.mapped, hupdate.thread, hupdate.alloc, hupdate.evict_signal,
          fun _ => Or.inl hspec⟩
      rw [← h]
      exact (Recovers.setContext hcontext hsame).trans (Recovers.setThread rfl rfl rfl)
    · simp only [hspec, Bool.false_eq_true, if_false, Option.bind_some, Option.some.injEq] at h
      rw [← h]
      exact (Recovers.setContext hcontext (SameBits.refl context)).trans
        (Recovers.setThread rfl rfl rfl)

lemma Recover_recovers (h : Recover core t = some core') : Recovers t core core' := by
  simp only [Recover, RecoverFetchQueue, Option.bind_eq_bind, Option.bind_eq_some_iff,
    guard_eq_some, exists_const, Option.some.injEq] at h
  obtain ⟨_, ⟨_, hfetch, _, _, rfl⟩, _, huop, _, hinstruction, _, hload, _, hstore, _, hevent, _,
    hreorder, hcontext⟩ := h
  apply (Recovers.squashTail (fun _ _ _ => Recovers.extractFromFetchQueue) hfetch).trans
  apply (Recovers.squashTail (fun _ _ _ => Recovers.extractFromUopQueue) huop).trans
  apply (Recovers.squashAll (fun _ _ _ h _ => Recovers.extractFromInstructionQueue h)
    hinstruction).trans
  apply (Recovers.squashAll (fun _ _ _ h _ => Recovers.extractFromLoadQueue h) hload).trans
  apply (Recovers.squashAll (fun _ _ _ h _ => Recovers.extractFromStoreQueue h) hstore).trans
  apply (Recovers.squashEvents hevent).trans
  apply (Recovers.squashTail (fun _ _ _ => Recovers.extractFromReorderBuffer) hreorder).trans
  exact recoverContext_recovers hcontext

lemma isUopReady_steady (available : ℕ → Bool) :
    Steady P core (isUopReady core u available).1 := by
  unfold isUopReady
  split_ifs
  · exact Steady.refl P core
  · exact Steady.of_eq rfl rfl
  · exact Steady.refl P core

lemma InsertInEventQueue_steady {latency : ℕ}
    (h : core.InsertInEventQueue u latency = some core') : Steady P core core' := by
  simp only [Core.InsertInEventQueue, Option.bind_eq_bind, Option.bind_eq_some_iff, guard_eq_some,
    exists_const, Option.some.injEq] at h
  obtain ⟨_, _, rfl⟩ := h
  exact Steady.of_eq rfl rfl

def scan (available can : ℕ → Bool) (issue : Core → ℕ → Option Core) :
    ℕ → List ℕ → Core → Option Core
  | _, [], core => some core
  | 0, _ :: _, core => some core
  | quantum + 1, u :: uops, core =>
    if (isUopReady core u available).2 && can u then
      (issue (isUopReady core u available).1 u).bind (scan available can issue quantum uops)
    else scan available can issue (quantum + 1) uops (isUopReady core u available).1

def issueLoad (t : ℕ) (core : Core) (u : ℕ) : Option Core :=
  (ExtractFromLoadQueue core t u).map (MemoryAccess · u)

def issueInstruction (t : ℕ) (Reserve : ℕ → ℕ) (core : Core) (u : ℕ) : Option Core :=
  (ExtractFromInstructionQueue core t u).bind fun core =>
    (core.setUop u fun uop => { uop with issued := true }).InsertInEventQueue u (Reserve u)

lemma IssueLoadQueue_scan {available canAccess : ℕ → Bool} {quantum : ℕ} {uops : List ℕ}
    (h : IssueLoadQueue t available canAccess quantum uops core = some core') :
    scan available canAccess (issueLoad t) quantum uops core = some core' := by
  fun_induction IssueLoadQueue t available canAccess quantum uops core with
  | case1 => exact h
  | case2 => exact h
  | case3 core quantum u uops core₁ hready ih =>
    rw [scan, hready, Bool.false_and, if_neg Bool.false_ne_true]
    exact ih h
  | case4 core quantum u uops core₁ hready haccess ih =>
    obtain ⟨core₂, hextract, hrest⟩ := Option.bind_eq_some_iff.mp h
    rw [scan, hready, haccess, Bool.true_and, if_pos rfl, issueLoad, hextract]
    exact ih core₂ hrest
  | case5 core quantum u uops core₁ hready haccess ih =>
    rw [scan, hready, Bool.eq_false_of_not_eq_true haccess, Bool.and_false,
      if_neg Bool.false_ne_true]
    exact ih h

lemma IssueInstructionQueue_scan {available : ℕ → Bool} {Reserve : ℕ → ℕ} {quantum : ℕ}
    {uops : List ℕ} (h : IssueInstructionQueue t available Reserve quantum uops core = some core') :
    scan available (fun u => decide (Reserve u ≠ 0)) (issueInstruction t Reserve) quantum uops
      core = some core' := by
  induction uops generalizing core quantum with
  | nil =>
    rw [IssueInstructionQueue] at h
    exact h
  | cons u uops ih =>
    cases quantum with
    | zero =>
      rw [IssueInstructionQueue] at h
      exact h
    | succ quantum =>
      simp only [IssueInstructionQueue, Option.bind_eq_bind, Option.bind_eq_some_iff, guard_eq_some,
        exists_const] at h
      obtain ⟨_, h⟩ := h
      rw [scan]
      cases hr : isUopReady core u available with
      | mk core₁ ready =>
        rw [hr] at h
        cases ready with
        | false =>
          rw [Bool.false_and, if_neg Bool.false_ne_true]
          exact ih h
        | true =>
          by_cases hreserve : Reserve u = 0
          · simp only [hreserve, if_true] at h
            rw [decide_eq_false (not_not.mpr hreserve), Bool.and_false, if_neg Bool.false_ne_true]
            exact ih h
          · simp only [hreserve, if_false, Option.bind_eq_some_iff] at h
            obtain ⟨core₂, hextract, core₃, hevent, hrest⟩ := h
            rw [decide_eq_true hreserve, Bool.and_true, if_pos rfl, issueInstruction, hextract,
              Option.bind_some, hevent]
            exact ih hrest

lemma scan_steady {available can : ℕ → Bool} {issue : Core → ℕ → Option Core}
    (hissue : ∀ {core core' u}, issue core u = some core' → Steady P core core') {quantum : ℕ}
    {uops : List ℕ} (h : scan available can issue quantum uops core = some core') :
    Steady P core core' := by
  induction uops generalizing core quantum with
  | nil =>
    rw [scan] at h
    exact Steady.of_some h
  | cons u uops ih =>
    cases quantum with
    | zero => exact Steady.of_some h
    | succ quantum =>
      have hready : Steady P core (isUopReady core u available).1 := isUopReady_steady available
      rw [scan] at h
      split_ifs at h
      · obtain ⟨core₁, hfirst, hrest⟩ := Option.bind_eq_some_iff.mp h
        exact (hready.trans (hissue hfirst)).trans (ih hrest)
      · exact hready.trans (ih h)

lemma IssueLoadQueue_steady {available canAccess : ℕ → Bool} {quantum : ℕ} {uops : List ℕ}
    (h : IssueLoadQueue t available canAccess quantum uops core = some core') :
    Steady P core core' := by
  refine scan_steady ?_ (IssueLoadQueue_scan h)
  intro core core' u hissue
  obtain ⟨core₁, hextract, rfl⟩ := Option.map_eq_some_iff.mp hissue
  obtain ⟨_, _, _, rfl⟩ := ExtractFromLoadQueue_eq_some.mp hextract
  have htake : Steady P core (core.take t u .Load) :=
    Steady.take fun _ => Recovers.not_inPipeline_load
  exact htake.trans (Steady.of_eq rfl rfl)

lemma IssueStoreQueue_steady {canAccess : ℕ → Bool} {quantum : ℕ} {uops : List ℕ}
    (h : IssueStoreQueue t canAccess quantum uops core = some core') : Steady P core core' := by
  induction uops generalizing core quantum with
  | nil =>
    rw [IssueStoreQueue] at h
    exact Steady.of_some h
  | cons u uops ih =>
    cases quantum with
    | zero =>
      rw [IssueStoreQueue] at h
      exact Steady.of_some h
    | succ quantum =>
      simp only [IssueStoreQueue, Option.bind_eq_bind, Option.bind_eq_some_iff, guard_eq_some,
        exists_const] at h
      obtain ⟨_, h⟩ := h
      by_cases hstop : ((core.uops u).in_queue .ReorderBuffer || !canAccess u) = true
      · rw [if_pos hstop] at h
        exact Steady.of_some h
      · rw [if_neg hstop, Option.bind_eq_some_iff] at h
        obtain ⟨core₂, hextract, hrest⟩ := h
        obtain ⟨_, _, _, rfl⟩ := ExtractFromStoreQueue_eq_some.mp hextract
        have htake : Steady P core (core.take t u .Store) :=
          Steady.take fun _ => Recovers.not_inPipeline_store
        refine htake.trans (Steady.trans ?_ (ih hrest))
        exact Steady.of_eq rfl rfl

lemma IssueInstructionQueue_steady {available : ℕ → Bool} {Reserve : ℕ → ℕ} {quantum : ℕ}
    {uops : List ℕ} (h : IssueInstructionQueue t available Reserve quantum uops core = some core') :
    Steady P core core' := by
  refine scan_steady ?_ (IssueInstructionQueue_scan h)
  intro core core' u hissue
  obtain ⟨core₁, hextract, hevent⟩ := Option.bind_eq_some_iff.mp hissue
  obtain ⟨_, _, _, rfl⟩ := ExtractFromInstructionQueue_eq_some.mp hextract
  have htake : Steady P core (core.take t u .Instruction) :=
    Steady.take fun _ => Recovers.not_inPipeline_instruction
  refine (htake.trans ?_).trans (InsertInEventQueue_steady hevent)
  exact Steady.of_eq rfl rfl

lemma memoryAccessEnd_steady (h : memoryAccessEnd core u = some core') : Steady P core core' := by
  simp only [memoryAccessEnd, Option.bind_eq_bind, Option.bind_eq_some_iff, guard_eq_some,
    exists_const] at h
  obtain ⟨_, h⟩ := h
  have hmemory : Steady P core { core with memory := core.memory.erase u } := Steady.of_eq rfl rfl
  exact hmemory.trans (InsertInEventQueue_steady h)

lemma moveUop_steady {core₂ : Core} (hextract : ExtractFromFetchQueue core t u = some core₁)
    (hinsert : InsertInUopQueue core₁ t u = some core₂) : Steady P core core₂ := by
  obtain ⟨_, _, _, _, rfl⟩ := ExtractFromFetchQueue_eq_some.mp hextract
  obtain ⟨_, rfl⟩ := InsertInUopQueue_eq_some.mp hinsert
  have htake : Steady (· ≠ t) core (core.take t u .Fetch) := Steady.take fun ht => absurd rfl ht
  have hvacate : Steady (· ≠ t) (core.take t u .Fetch)
      ((core.take t u .Fetch).setThread t (vacate (core.uops u))) :=
    Steady.setThread _ (vacate_context ..) (vacate_mapped ..) (vacate_queue ..)
  apply ((htake.trans hvacate).trans Steady.push).of_mem (Or.inr (Or.inl rfl))
  rw [Core.push_queue_self]
  exact List.mem_append_right _ (List.mem_singleton_self u)

lemma moveUops_steady {more : QueuedUop → Bool} {n : ℕ}
    (h : moveUops more t n u core = some core') : Steady P core core' := by
  induction n generalizing core u with
  | zero =>
    exact Steady.of_some h
  | succ n ih =>
    simp only [moveUops, Option.bind_eq_bind, Option.bind_eq_some_iff] at h
    obtain ⟨core₁, hextract, core₂, hinsert, h⟩ := h
    have hmove : Steady P core core₂ := moveUop_steady hextract hinsert
    cases hfetch : (core₂.threads t).queue .Fetch with
    | nil =>
      rw [hfetch, Option.some.injEq] at h
      rw [← h]
      exact hmove
    | cons v rest =>
      simp only [hfetch] at h
      by_cases hmore : more (core₂.uops v)
      · rw [if_pos hmore] at h
        exact hmove.trans (ih h)
      · rw [if_neg hmore, Option.some.injEq] at h
        rw [← h]
        exact hmove

lemma decodeSlots_steady {isInFlightAccess : ℕ → Bool} {n : ℕ}
    (h : decodeSlots cfg isInFlightAccess t n core = some core') : Steady P core core' := by
  induction n generalizing core with
  | zero =>
    exact Steady.of_some h
  | succ n ih =>
    rw [decodeSlots] at h
    cases hfetch : (core.threads t).queue .Fetch with
    | nil =>
      rw [hfetch] at h
      exact Steady.of_some h
    | cons u rest =>
      simp only [hfetch] at h
      by_cases hfull : cfg.uop_queue_size ≤ ((core.threads t).queue .Uop).length
      · rw [if_pos hfull] at h
        exact Steady.of_some h
      · rw [if_neg hfull] at h
        by_cases htrace : (core.uops u).from_trace_cache
        · rw [if_pos htrace] at h
          exact moveUops_steady h
        · simp only [htrace, Bool.false_eq_true, if_false, Option.bind_eq_bind,
            Option.bind_eq_some_iff, guard_eq_some, exists_const] at h
          obtain ⟨_, h⟩ := h
          by_cases hflight : isInFlightAccess u
          · rw [if_pos hflight] at h
            exact ih h
          · rw [if_neg hflight, Option.bind_eq_some_iff] at h
            obtain ⟨core₁, hmove, hrest⟩ := h
            exact (moveUops_steady hmove).trans (ih hrest)

lemma dispatchUop_steady (h : dispatchUop core t u = some core') : Steady P core core' := by
  simp only [dispatchUop, Option.bind_eq_bind, Option.bind_eq_some_iff] at h
  obtain ⟨core₁, hextract, core₂, hinsert, h⟩ := h
  obtain ⟨_, _, rfl⟩ := ExtractFromUopQueue_eq_some.mp hextract
  obtain ⟨_, rfl⟩ := InsertInReorderBuffer_eq_some.mp hinsert
  have htake : Steady (· ≠ t) core (core.take t u .Uop) := Steady.take fun ht => absurd rfl ht
  have hpush : Steady P core ((core.take t u .Uop).push t u .ReorderBuffer) := by
    apply (htake.trans Steady.push).of_mem (Or.inr (Or.inr rfl))
    rw [Core.push_queue_self]
    exact List.mem_append_right _ (List.mem_singleton_self u)
  apply (hpush.trans (Steady.of_eq rfl rfl)).trans
  by_cases hmem : ((({ (core.take t u .Uop).push t u .ReorderBuffer with
      reorder_buffer_occupancy := (core.take t u .Uop).reorder_buffer_occupancy + 1 } : Core).setUop u
        fun uop => { uop with dispatched := true }).uops u).opcode.FlagMem
  · rw [if_pos hmem] at h
    obtain ⟨_, _, q, _, rfl⟩ := InsertInLoadStoreQueue_eq_some.mp h
    exact Steady.push.trans (Steady.of_eq rfl rfl)
  · rw [if_neg hmem] at h
    obtain ⟨_, _, _, rfl⟩ := InsertInInstructionQueue_eq_some.mp h
    exact Steady.push.trans (Steady.of_eq rfl rfl)

lemma Dispatch_steady {canRename : ℕ → Bool} {quantum : ℕ}
    (h : Dispatch cfg t canRename quantum core = some core') : Steady P core core' := by
  induction quantum generalizing core with
  | zero =>
    exact Steady.of_some h
  | succ quantum ih =>
    rw [Dispatch] at h
    by_cases hcan : canDispatch cfg core t canRename
    · rw [if_pos hcan] at h
      cases huop : (core.threads t).queue .Uop with
      | nil =>
        rw [huop] at h
        cases h
      | cons u rest =>
        simp only [huop, Option.bind_eq_bind, Option.bind_eq_some_iff] at h
        obtain ⟨core₁, hdispatch, hrest⟩ := h
        exact (dispatchUop_steady hdispatch).trans (ih hrest)
    · rw [if_neg hcan] at h
      exact Steady.of_some h

lemma Steady.mapped (h : Steady P core core') (hm : Mapped core t) : Mapped core' t := by
  constructor
  · rw [h.mapped_eq t]
    exact hm.nodup
  · intro c hc
    rw [h.mapped_eq t] at hc
    obtain ⟨context, hcontext, hto⟩ := hm.mapped c hc
    obtain ⟨context', hcontext', hsame⟩ := h.contexts c context hcontext
    refine ⟨context', hcontext', ?_⟩
    constructor
    · rw [hsame.mapped]
      exact hto.mapped
    · rw [hsame.thread]
      exact hto.thread_eq
    · rw [hsame.alloc, h.context_eq t]
      exact hto.alloc_iff
    · rw [hsame.alloc, hsame.evict_signal]
      exact hto.alloc_of_signal
    · intro hspec
      rw [hsame.alloc]
      cases hsame.spec_mode hspec with
      | inl hold => exact hto.alloc_of_spec hold
      | inr halloc => exact halloc
  · intro c hc
    rw [h.context_eq t] at hc
    rw [h.mapped_eq t]
    exact hm.allocated c hc

lemma newUop_steady (uop : QueuedUop) : Steady P core (newUop core t uop) := by
  have huop : Steady P core (core.setUop core.num_uops fun _ => uop) := Steady.of_eq rfl rfl
  have hthread : Steady P (core.setUop core.num_uops fun _ => uop)
      ((core.setUop core.num_uops fun _ => uop).setThread t fun thread => { thread with
        fetched := if uop.speculative_mode then thread.fetched
          else thread.fetched ++ [core.num_uops] }) := Steady.setThread _ rfl rfl rfl
  refine (huop.trans hthread).trans ?_
  exact Steady.of_eq rfl rfl

lemma fetchUop_steady {uop : QueuedUop} (h : fetchUop core t uop = some core') :
    Steady P core core' := by
  obtain ⟨_, rfl⟩ := InsertInFetchQueue_eq_some.mp h
  have hpush : Steady P (newUop core t uop) ((newUop core t uop).push t core.num_uops .Fetch) :=
    Steady.push
  exact ((newUop_steady uop).trans hpush).trans
    (Steady.setThread _ (occupy_context ..) (occupy_mapped ..) (occupy_queue ..))

lemma fetchUops_steady {uop : QueuedUop} {first : Bool} {mop_index : ℕ} {opcodes : List Opcode}
    (h : fetchUops t uop first mop_index opcodes core = some core') : Steady P core core' := by
  induction opcodes generalizing core mop_index with
  | nil =>
    exact Steady.of_some h
  | cons opcode opcodes ih =>
    simp only [fetchUops, Option.bind_eq_bind, Option.bind_eq_some_iff] at h
    obtain ⟨core₁, hfetch, hrest⟩ := h
    exact (fetchUop_steady hfetch).trans (ih hrest)

lemma sameBits_fetch (context : Context) (eip : BitVec 32) (instruction : Instruction)
    (halloc : context.alloc) : SameBits context (Execute instruction (context.setEip eip)) := by
  have heip : SameBits context (context.setEip eip) := by
    unfold Context.setEip
    split_ifs with hpath
    · have hupdate := sameBits_update { context with spec_mode := true }
      exact ⟨hupdate.mapped, hupdate.thread, hupdate.alloc, hupdate.evict_signal,
        fun _ => Or.inr halloc⟩
    · exact ⟨rfl, rfl, rfl, rfl, Or.inl⟩
  have hexecute : SameBits (context.setEip eip) (Execute instruction (context.setEip eip)) := by
    unfold Execute
    have hupdate := sameBits_update { context.setEip eip with
      eip := instruction.eip
      suspended := (context.setEip eip).suspended || instruction.suspends
      finished := (context.setEip eip).finished || instruction.finishes
      zombie := (context.setEip eip).zombie || instruction.exits
      locked := (context.setEip eip).locked || instruction.locks }
    exact ⟨hupdate.mapped, hupdate.thread, hupdate.alloc, hupdate.evict_signal, hupdate.spec_mode⟩
  exact heip.trans hexecute

lemma FetchInstruction_steady {trace : Bool} {instruction : Instruction} (hm : Mapped core t)
    (h : FetchInstruction core t trace instruction = some core') : Steady P core core' := by
  simp only [FetchInstruction, Option.bind_eq_bind, Option.bind_eq_some_iff] at h
  obtain ⟨c, hc, context, hcontext, h⟩ := h
  have halloc : context.alloc := by
    obtain ⟨old, hold, hto⟩ := hm.allocated_context hc
    rw [hcontext, Option.some.injEq] at hold
    rw [hold]
    exact hto.alloc_iff.mpr hc
  have hsame := sameBits_fetch context (core.threads t).fetch_neip instruction halloc
  have hcore : Steady P core (core.setContext c
      (some (Execute instruction (context.setEip (core.threads t).fetch_neip)))) := by
    have hset := (Recovers.setContext (t := t) hcontext hsame).steady
    constructor
    · exact hset.contexts
    · exact hset.absent
    · exact fun _ => rfl
    · exact fun _ => rfl
    · exact fun _ _ hempty => hempty
  exact (hcore.trans (Steady.setThread _ rfl rfl rfl)).trans (fetchUops_steady h)

lemma fetchTrace_steady {entry : List (BitVec 32 × Instruction)} (hm : Mapped core t)
    (h : fetchTrace t entry core = some core') : Steady P core core' := by
  induction entry generalizing core with
  | nil =>
    exact Steady.of_some h
  | cons head entry ih =>
    obtain ⟨eip, instruction⟩ := head
    simp only [fetchTrace, Option.bind_eq_bind, Option.bind_eq_some_iff] at h
    obtain ⟨running, _, h⟩ := h
    cases running with
    | false =>
      simp only [Bool.false_eq_true, if_false] at h
      exact Steady.of_some h
    | true =>
      simp only [if_true, Option.bind_eq_some_iff] at h
      obtain ⟨core₁, hfetch, hrest⟩ := h
      have hneip : Steady P core (core.setThread t fun thread => { thread with fetch_neip := eip }) :=
        Steady.setThread _ rfl rfl rfl
      have hinstruction : Steady P _ core₁ := FetchInstruction_steady (hneip.mapped hm) hfetch
      have hstep := hneip.trans hinstruction
      exact hstep.trans (ih (hstep.mapped hm) hrest)

lemma fetchBlock_steady {block_address : BitVec 32} {instructions : List Instruction}
    (hm : Mapped core t) (h : fetchBlock cfg t block_address instructions core = some core') :
    Steady P core core' := by
  induction instructions generalizing core with
  | nil =>
    exact Steady.of_some h
  | cons instruction instructions ih =>
    rw [fetchBlock] at h
    by_cases hblock : (core.threads t).fetch_neip &&& ~~~(cfg.block_size - 1) ≠ block_address
    · rw [if_pos hblock] at h
      exact Steady.of_some h
    · simp only [hblock, if_false, Option.bind_eq_bind, Option.bind_eq_some_iff] at h
      obtain ⟨running, _, h⟩ := h
      by_cases hstop : (!running || decide (cfg.fetch_queue_size ≤
          (core.threads t).fetch_queue_occupancy)) = true
      · rw [if_pos hstop] at h
        exact Steady.of_some h
      · rw [if_neg hstop, Option.bind_eq_some_iff] at h
        obtain ⟨core₁, hfetch, h⟩ := h
        have hinstruction : Steady P core core₁ := FetchInstruction_steady hm hfetch
        by_cases hsize : instruction.size = 0
        · rw [if_pos hsize, Option.some.injEq] at h
          rw [← h]
          exact hinstruction
        · rw [if_neg hsize] at h
          have hloop : fetchBlock cfg t block_address instructions core₁ = some core' →
              Steady P core core' :=
            fun hrest => hinstruction.trans (ih (hinstruction.mapped hm) hrest)
          cases htarget : instruction.target with
          | none =>
            rw [htarget] at h
            exact hloop h
          | some target =>
            simp only [htarget] at h
            by_cases hctrl : instruction.opcodes.any Opcode.FlagCtrl
            · rw [if_pos hctrl, Option.some.injEq] at h
              rw [← h]
              exact hinstruction.trans (Steady.setThread _ rfl rfl rfl)
            · rw [if_neg hctrl] at h
              exact hloop h

lemma Fetch_steady {entry : Option (List (BitVec 32 × Instruction) × BitVec 32)}
    {instructions : List Instruction} (hm : Mapped core t)
    (h : Fetch cfg core t entry instructions = some core') : Steady P core core' := by
  simp only [Fetch, Option.bind_eq_bind, Option.bind_eq_some_iff, guard_eq_some, exists_const] at h
  obtain ⟨_, h⟩ := h
  cases entry with
  | none => exact fetchBlock_steady hm h
  | some line =>
    obtain ⟨entry, neip⟩ := line
    simp only at h
    by_cases hroom : (core.threads t).trace_cache_queue_occupancy < cfg.trace_cache_queue_size
    · rw [if_pos hroom, Option.bind_eq_some_iff] at h
      obtain ⟨core₁, htrace, h⟩ := h
      rw [← Option.some.inj h]
      exact (fetchTrace_steady hm htrace).trans (Steady.setThread _ rfl rfl rfl)
    · rw [if_neg hroom] at h
      exact fetchBlock_steady hm h

end Thread

end OISA.X86
