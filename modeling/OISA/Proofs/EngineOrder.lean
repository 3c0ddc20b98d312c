import OISA.Proofs.EngineSteps

/-!
# Order of events

The invariant of the heap along any run: each frame scheduled has left the heap once or is in it,
the flag of a frame says which, and a frame that left the heap comes before every frame that was
in the heap at that time.
-/

namespace OISA.Esim

open OISA.Lib

variable {e e' : Engine} {w w' : World}

/-- What identifies one scheduling of a frame. -/
def Ticket.id (t : Ticket) : FrameId × ℕ × ℕ := (t.frame, t.time, t.sequence)

def Engine.ticket (e : Engine) (f : FrameId) : FrameId × ℕ × ℕ :=
  (f, (e.frames f).time, (e.frames f).schedule_sequence)

def Execution.key (r : Execution) : ℕ ×ₗ ℕ := toLex (r.time, r.sequence)

def Precedes (r : Execution) (key : ℕ ×ₗ ℕ) : Prop := r.counter < (ofLex key).2 ∨ r.key ≤ key

structure HeapInv (e : Engine) : Prop where
  nodup : e.heap.Nodup
  in_heap : ∀ f, (e.frames f).in_heap = true ↔ f ∈ e.heap
  named : ∀ f ∈ e.heap, f < e.num_frames
  tickets : (e.scheduled.map Ticket.id).Perm
    (e.ran.map (fun r => r.toTicket.id) ++ e.heap.map e.ticket)
  sequences : e.scheduled.Pairwise fun t u => u.sequence < t.sequence
  counter : ∀ t ∈ e.scheduled, t.sequence ≤ e.schedule_sequence_counter
  counters : ∀ r ∈ e.ran, r.sequence ≤ r.counter ∧ r.counter ≤ e.schedule_sequence_counter
  heap_order : ∀ f ∈ e.heap, ∀ r ∈ e.ran, Precedes r (e.frames f).key
  order : e.ran.Pairwise fun s r => Precedes r s.key

lemma heapInv_empty : HeapInv {} where
  nodup := List.nodup_nil
  in_heap f := by simp
  named f hf := by cases hf
  tickets := .refl _
  sequences := .nil
  counter t ht := by cases ht
  counters r hr := by cases hr
  heap_order f hf := by cases hf
  order := .nil

lemma ticket_eq {f : FrameId} (h : (e'.frames f).key = (e.frames f).key) :
    e'.ticket f = e.ticket f := by
  rw [Frame.key, Frame.key, EmbeddingLike.apply_eq_iff_eq, Prod.mk.injEq] at h
  rw [Engine.ticket, Engine.ticket, h.1, h.2]

lemma HeapInv.quiet (h : HeapInv e) (hq : Quiet e e') : HeapInv e' where
  nodup := by
    rw [hq.heap]
    exact h.nodup
  in_heap f := by
    rw [hq.heap]
    by_cases hf : f < e.num_frames
    · rw [hq.in_heap f hf]
      exact h.in_heap f
    · constructor
      · intro hin
        exact (h.in_heap f).mp (hq.new f (not_lt.mp hf) hin)
      · intro hmem
        exact absurd (h.named f hmem) hf
  named f hf := by
    rw [hq.heap] at hf
    exact (h.named f hf).trans_le hq.num_frames
  tickets := by
    have hmap : e.heap.map e'.ticket = e.heap.map e.ticket := by
      apply List.map_congr_left
      intro f hf
      exact ticket_eq (hq.key f (h.named f hf))
    rw [hq.heap, hq.scheduled, hq.ran, hmap]
    exact h.tickets
  sequences := by
    rw [hq.scheduled]
    exact h.sequences
  counter := by
    rw [hq.scheduled, hq.counter]
    exact h.counter
  counters := by
    rw [hq.ran, hq.counter]
    exact h.counters
  heap_order f hf r hr := by
    rw [hq.heap] at hf
    rw [hq.ran] at hr
    rw [hq.key f (h.named f hf)]
    exact h.heap_order f hf r hr
  order := by
    rw [hq.ran]
    exact h.order

section Insert

variable {f g : FrameId} {event : EventId} {time period : ℕ}

lemma insert_heap : (e.insert event f time period).heap = f :: e.heap := rfl

lemma insert_scheduled : (e.insert event f time period).scheduled =
    ⟨f, time, e.schedule_sequence_counter + 1, e.current_time⟩ :: e.scheduled := rfl

lemma insert_ran : (e.insert event f time period).ran = e.ran := rfl

lemma insert_counter : (e.insert event f time period).schedule_sequence_counter =
    e.schedule_sequence_counter + 1 := rfl

lemma HeapInv.insert (h : HeapInv e) (hfree : (e.frames f).in_heap = false) :
    HeapInv (e.insert event f time period) := by
  have hnot : f ∉ e.heap := by
    intro hmem
    rw [← h.in_heap f, hfree] at hmem
    cases hmem
  have hother : ∀ g ∈ e.heap, (e.insert event f time period).frames g = e.frames g := by
    intro g hg
    apply insert_of_ne
    rintro rfl
    exact hnot hg
  constructor
  case nodup => exact List.nodup_cons.mpr ⟨hnot, h.nodup⟩
  case in_heap =>
    intro g
    rw [insert_heap, List.mem_cons]
    by_cases hg : g = f
    · rw [hg, insert_self]
      exact ⟨fun _ => .inl rfl, fun _ => rfl⟩
    · rw [insert_of_ne _ _ _ _ hg, h.in_heap]
      exact ⟨.inr, fun hor => hor.resolve_left hg⟩
  case named =>
    intro g hg
    rw [insert_heap, List.mem_cons] at hg
    have hnum : (e.insert event f time period).num_frames = max e.num_frames (f + 1) := rfl
    rw [hnum]
    rcases hg with rfl | hg
    · exact lt_max_of_lt_right (Nat.lt_succ_self _)
    · exact lt_max_of_lt_left (h.named g hg)
  case tickets =>
    have hmap : e.heap.map (e.insert event f time period).ticket = e.heap.map e.ticket := by
      apply List.map_congr_left
      intro g hg
      rw [Engine.ticket, Engine.ticket, hother g hg]
    have hself : (e.insert event f time period).ticket f =
        (f, time, e.schedule_sequence_counter + 1) := by
      rw [Engine.ticket, insert_self]
    rw [insert_scheduled, insert_heap, insert_ran, List.map_cons, List.map_cons, hmap, hself]
    exact (h.tickets.cons _).trans List.perm_middle.symm
  case sequences =>
    rw [insert_scheduled, List.pairwise_cons]
    refine ⟨?_, h.sequences⟩
    intro t ht
    exact Nat.lt_succ_of_le (h.counter t ht)
  case counter =>
    intro t ht
    rw [insert_scheduled, List.mem_cons] at ht
    rw [insert_counter]
    rcases ht with rfl | ht
    · exact le_rfl
    · exact (h.counter t ht).trans (Nat.le_succ _)
  case counters =>
    intro r hr
    obtain ⟨hseq, hle⟩ := h.counters r hr
    exact ⟨hseq, hle.trans (Nat.le_succ _)⟩
  case heap_order =>
    intro g hg r hr
    rw [insert_heap, List.mem_cons] at hg
    rw [insert_ran] at hr
    rcases hg with rfl | hg
    · left
      rw [insert_self]
      exact Nat.lt_succ_of_le (h.counters r hr).2
    · rw [hother g hg]
      exact h.heap_order g hg r hr
  case order => exact h.order

end Insert

section Extract

variable {f g : FrameId} {event : EventId} {now : ℕ}

lemma extract_heap : (e.extract f event now).heap = e.heap.erase f := rfl

lemma extract_ran : (e.extract f event now).ran =
    ⟨⟨f, (e.frames f).time, (e.frames f).schedule_sequence, now⟩,
      e.schedule_sequence_counter⟩ :: e.ran := rfl

lemma heapTop_mem (h : e.heapTop = some f) : f ∈ e.heap := List.argmin_mem h

lemma heapTop_le (h : e.heapTop = some f) (hg : g ∈ e.heap) :
    (e.frames f).key ≤ (e.frames g).key :=
  List.le_of_mem_argmin (f := fun f => (e.frames f).key) hg h

lemma compareSharedPointers_iff (lhs rhs : Frame) :
    lhs.CompareSharedPointers rhs = true ↔ rhs.key < lhs.key := by
  rw [Frame.CompareSharedPointers, Frame.key, Frame.key, Prod.Lex.toLex_lt_toLex]
  simp only [Bool.or_eq_true, Bool.and_eq_true, decide_eq_true_eq]
  rw [eq_comm (a := lhs.time)]

/-- The top of the heap comes out after no other frame of the heap. -/
theorem heapTop_first (h : e.heapTop = some f) (hg : g ∈ e.heap) :
    (e.frames f).CompareSharedPointers (e.frames g) = false := by
  rw [Bool.eq_false_iff, ne_eq, compareSharedPointers_iff, not_lt]
  exact heapTop_le h hg

lemma HeapInv.extract (h : HeapInv e) (htop : e.heapTop = some f) :
    HeapInv (e.extract f event now) := by
  have hmem := heapTop_mem htop
  have hne : ∀ g ∈ e.heap.erase f, g ≠ f := by
    intro g hg
    exact (h.nodup.mem_erase_iff.mp hg).1
  have hother : ∀ g ∈ e.heap.erase f, (e.extract f event now).frames g = e.frames g := by
    intro g hg
    exact extract_of_ne _ _ _ (hne g hg)
  constructor
  case nodup => exact h.nodup.erase f
  case in_heap =>
    intro g
    rw [extract_heap, h.nodup.mem_erase_iff]
    by_cases hg : g = f
    · rw [hg, extract_self]
      simp
    · rw [extract_of_ne _ _ _ hg, h.in_heap]
      exact ⟨fun hin => ⟨hg, hin⟩, fun hin => hin.2⟩
  case named =>
    intro g hg
    exact h.named g (List.mem_of_mem_erase hg)
  case tickets =>
    have hmap : (e.heap.erase f).map (e.extract f event now).ticket =
        (e.heap.erase f).map e.ticket := by
      apply List.map_congr_left
      intro g hg
      rw [Engine.ticket, Engine.ticket, hother g hg]
    rw [extract_heap, extract_ran, List.map_cons, hmap]
    have hheap : (e.heap.map e.ticket).Perm (e.ticket f :: (e.heap.erase f).map e.ticket) :=
      (List.perm_cons_erase hmem).map e.ticket
    exact h.tickets.trans ((hheap.append_left _).trans List.perm_middle)
  case sequences => exact h.sequences
  case counter => exact h.counter
  case counters =>
    intro r hr
    rw [extract_ran, List.mem_cons] at hr
    rcases hr with rfl | hr
    · have hid := h.tickets.symm.subset (List.mem_append_right _ (List.mem_map_of_mem hmem))
      obtain ⟨t, ht, hid⟩ := List.mem_map.mp hid
      rw [Engine.ticket, Ticket.id, Prod.mk.injEq, Prod.mk.injEq] at hid
      refine ⟨?_, le_rfl⟩
      rw [← hid.2.2]
      exact h.counter t ht
    · exact h.counters r hr
  case heap_order =>
    intro g hg r hr
    rw [extract_ran, List.mem_cons] at hr
    rw [hother g hg]
    rcases hr with rfl | hr
    · right
      exact heapTop_le htop (List.mem_of_mem_erase hg)
    · exact h.heap_order g (List.mem_of_mem_erase hg) r hr
  case order =>
    rw [extract_ran, List.pairwise_cons]
    exact ⟨fun r hr => h.heap_order f hmem r hr, h.order⟩

end Extract

lemma HeapInv.step {op : Op} (h : HeapInv w.engine) (hstep : World.step op w = some w') :
    HeapInv w'.engine := by
  cases step_change hstep with
  | quiet hq hdrain => exact h.quiet hq
  | insert e₁ f event cycle_time after period hbefore hfree hqueue hnow hmode hcycle hzero
      hreq hafter =>
    exact ((h.quiet hbefore).insert hfree).quiet hafter
  | extract f event now htop hdue hafter => exact (h.extract htop).quiet hafter

lemma HeapInv.run {ops : List Op} (h : HeapInv w.engine) (hrun : run World.step ops w = some w') :
    HeapInv w'.engine :=
  run_invariant (P := fun _ _ => True) (Q := fun w => HeapInv w.engine)
    (fun _ _ _ hinv _ hstep => hinv.step hstep) h (along_of_forall (fun _ _ => trivial) ops w) hrun

def Engine.sequences (e : Engine) : List ℕ :=
  e.ran.map (fun r => r.sequence) ++ e.heap.map fun f => (e.frames f).schedule_sequence

/-- The order of events, in a state of the engine with its history: each scheduling of a frame has
run once or is in the heap once, and it ran for the frame and time it was scheduled with. -/
structure EventOrder (e : Engine) : Prop where
  once : ∀ t ∈ e.scheduled, e.sequences.count t.sequence = 1
  ticket : ∀ r ∈ e.ran, ∃ t ∈ e.scheduled, t.id = r.toTicket.id
  due : e.nextCycle.isSome → ∀ t ∈ e.scheduled, t.time ≤ e.current_time →
    ∃ r ∈ e.ran, r.toTicket.id = t.id
  drained : e.drainEnd.isSome → ∀ t ∈ e.scheduled, ∃ r ∈ e.ran, r.toTicket.id = t.id
  time : e.ran.Pairwise fun s r => r.time ≤ s.time ∨ r.counter < s.sequence
  same_time : e.ran.Pairwise fun s r => r.time = s.time → r.sequence < s.sequence
  in_heap : ∀ f, (e.frames f).in_heap = true ↔ f ∈ e.heap

section Consequences

lemma HeapInv.nodup_sequences (h : HeapInv e) : (e.scheduled.map fun t => t.sequence).Nodup :=
  List.pairwise_map.mpr (h.sequences.imp fun hlt => hlt.ne')

lemma HeapInv.perm_sequences (h : HeapInv e) :
    (e.scheduled.map fun t => t.sequence).Perm e.sequences := by
  have hperm := h.tickets.map fun x => x.2.2
  rw [List.map_append, List.map_map, List.map_map, List.map_map] at hperm
  exact hperm

lemma HeapInv.ran_of_not_mem (h : HeapInv e) {t : Ticket} (ht : t ∈ e.scheduled)
    (hheap : ∀ f ∈ e.heap, (e.frames f).time ≠ t.time) :
    ∃ r ∈ e.ran, r.toTicket.id = t.id := by
  have hmem := h.tickets.subset (List.mem_map_of_mem ht)
  rw [List.mem_append, List.mem_map, List.mem_map] at hmem
  rcases hmem with ⟨r, hr, hid⟩ | ⟨f, hf, hid⟩
  · exact ⟨r, hr, hid⟩
  · rw [Engine.ticket, Ticket.id, Prod.mk.injEq, Prod.mk.injEq] at hid
    exact absurd hid.2.1 (hheap f hf)

lemma HeapInv.scheduled_of_ran (h : HeapInv e) {r : Execution} (hr : r ∈ e.ran) :
    ∃ t ∈ e.scheduled, t.id = r.toTicket.id := by
  have hmem := h.tickets.symm.subset (List.mem_append_left _ (List.mem_map_of_mem hr))
  exact List.mem_map.mp hmem

lemma heapTop_due {f : FrameId} (hf : f ∈ e.heap)
    (hdue : e.heapTop.any (fun f => decide ((e.frames f).time ≤ e.current_time)) = false) :
    e.current_time < (e.frames f).time := by
  cases htop : e.heapTop with
  | none =>
    rw [Engine.heapTop, List.argmin_eq_none] at htop
    rw [htop] at hf
    cases hf
  | some g =>
    rw [htop, Option.any_some, decide_eq_false_iff_not, not_le] at hdue
    have hle := heapTop_le htop hf
    rw [Frame.key, Frame.key, Prod.Lex.toLex_le_toLex] at hle
    rcases hle with hlt | ⟨heq, -⟩
    · exact hdue.trans hlt
    · exact hdue.trans_eq heq

lemma not_due_of_nextCycle (h : e.nextCycle.isSome) {f : FrameId} (hf : f ∈ e.heap) :
    e.current_time < (e.frames f).time := by
  unfold Engine.nextCycle at h
  split at h
  case h_1 =>
    split_ifs at h with hdue
    · cases h
    · exact heapTop_due hf (by simpa using hdue)
  case h_2 => cases h

lemma heap_of_drainEnd (h : e.drainEnd.isSome) : e.heap = [] := by
  unfold Engine.drainEnd at h
  split at h
  case h_1 hheap => exact hheap
  case h_2 => cases h

lemma Precedes.time_le {r s : Execution} (h : Precedes r s.key) :
    r.time ≤ s.time ∨ r.counter < s.sequence := by
  rcases h with h | h
  · exact .inr h
  · left
    rw [Execution.key, Execution.key, Prod.Lex.toLex_le_toLex] at h
    rcases h with h | h
    · exact h.le
    · exact h.1.le

lemma HeapInv.same_time (h : HeapInv e) :
    e.ran.Pairwise fun s r => r.time = s.time → r.sequence < s.sequence := by
  have hnodup : (e.ran.map fun r => r.sequence).Nodup :=
    (List.nodup_append.mp (h.perm_sequences.nodup_iff.mp h.nodup_sequences)).1
  refine (h.order.and (List.pairwise_map.mp hnodup)).imp_of_mem ?_
  rintro s r hs hr ⟨hprec, hne⟩ htime
  rcases hprec with hlt | hle
  · exact (h.counters r hr).1.trans_lt hlt
  · rw [Execution.key, Execution.key, Prod.Lex.toLex_le_toLex] at hle
    rcases hle with hlt | hle
    · exact absurd htime hlt.ne
    · exact lt_of_le_of_ne hle.2 hne.symm

lemma HeapInv.eventOrder (h : HeapInv e) : EventOrder e where
  once t ht := by
    rw [← h.perm_sequences.count_eq]
    exact List.count_eq_one_of_mem h.nodup_sequences (List.mem_map_of_mem ht)
  ticket r hr := h.scheduled_of_ran hr
  due hend t ht htime := by
    apply h.ran_of_not_mem ht
    intro f hf heq
    have := not_due_of_nextCycle hend hf
    omega
  drained hend t ht := by
    apply h.ran_of_not_mem ht
    rw [heap_of_drainEnd hend]
    intro f hf
    cases hf
  time := h.order.imp fun hprec => hprec.time_le
  same_time := h.same_time
  in_heap := h.in_heap

end Consequences

def oneFrame : List Op :=
  [.registerFrequencyDomain 1000, .registerEvent (some 0), .newFrame, .schedule (some 1) 0 1 0,
    .startProcess, .nextCycle, .startProcess, .processEvent, .handlerEnd, .nextCycle]

/-- Two domains with cycles of 1000 and 3333 picoseconds. -/
def slowerDomain : List Op :=
  [.registerFrequencyDomain 1000, .registerFrequencyDomain 300,
    .registerEvent (some 0), .registerEvent (some 1), .newFrame, .newFrame,
    .schedule (some 1) 0 4 0,
    .startProcess, .nextCycle, .startProcess, .nextCycle, .startProcess, .nextCycle,
    .startProcess, .nextCycle,
    .startProcess, .processEvent, .schedule (some 2) 1 0 0, .handlerEnd,
    .processEvent, .handlerEnd, .nextCycle]

end OISA.Esim

/-!
## Simulated time

`ProcessEvents` only moves the time forward.
-/

namespace OISA.Esim

open OISA.Lib

variable {e e' : Engine} {w w' : World} {op : Op}

/-- Scheduling this many cycles ahead cannot give a time before the current one: the cycle of the
event's domain starts now, or one more cycle is waited for. -/
def Aligned (e : Engine) (event : EventId) (after : ℕ) : Prop :=
  0 < after ∨ ∀ cycle_time ∈ e.cycleTime event, cycle_time ∣ e.current_time

/-- When `Drain` starts, no pending frame is before the current time, and while it runs no event
is scheduled for the current cycle of a domain if that cycle began earlier. -/
def DrainSafe (op : Op) (w : World) : Prop :=
  match op with
  | .startDrain _ => ∀ f ∈ w.engine.heap, w.engine.current_time ≤ (w.engine.frames f).time
  | op => w.engine.draining → ∀ x ∈ World.request w op, Aligned w.engine x.1 x.2

instance : Decidable e.draining :=
  match h : e.mode with
  | .draining n max_events => .isTrue ⟨n, max_events, h⟩
  | .outside => .isFalse fun ⟨_, _, hd⟩ => by rw [h] at hd; cases hd
  | .processing => .isFalse fun ⟨_, _, hd⟩ => by rw [h] at hd; cases hd
  | .ending => .isFalse fun ⟨_, _, hd⟩ => by rw [h] at hd; cases hd

instance (event : EventId) (after : ℕ) : Decidable (Aligned e event after) :=
  inferInstanceAs (Decidable (_ ∨ _))

instance : Decidable (DrainSafe op w) := by
  unfold DrainSafe
  split <;> infer_instance

structure TimeInv (e : Engine) : Prop where
  heap : HeapInv e
  tickets : ∀ t ∈ e.scheduled, t.now ≤ e.current_time
  pending : e.draining → ∀ f ∈ e.heap, e.current_time ≤ (e.frames f).time
  ran : ∀ r ∈ e.ran, ∀ t ∈ e.scheduled, t.sequence = r.sequence → t.now ≤ r.now

lemma timeInv_empty : TimeInv {} where
  heap := heapInv_empty
  tickets t ht := by cases ht
  pending _ f hf := by cases hf
  ran r hr := by cases hr

lemma le_timeAfter {cycle_time after : ℕ} (hzero : cycle_time ≠ 0)
    (h : 0 < after ∨ cycle_time ∣ e.current_time) :
    e.current_time ≤ e.timeAfter cycle_time after := by
  unfold Engine.timeAfter
  rcases h with hafter | hdvd
  · have hlt := Nat.lt_div_mul_add (a := e.current_time) (Nat.pos_of_ne_zero hzero)
    have hmul := Nat.le_mul_of_pos_right cycle_time hafter
    omega
  · rw [Nat.div_mul_cancel hdvd]
    exact Nat.le_add_right _ _

lemma Quiet.pending (hq : Quiet e e') (h : HeapInv e)
    (hpending : ∀ f ∈ e.heap, e.current_time ≤ (e.frames f).time)
    (htime : e'.current_time = e.current_time) :
    ∀ f ∈ e'.heap, e'.current_time ≤ (e'.frames f).time := by
  intro f hf
  rw [hq.heap] at hf
  have hkey := hq.key f (h.named f hf)
  rw [Frame.key, Frame.key, EmbeddingLike.apply_eq_iff_eq, Prod.mk.injEq] at hkey
  rw [htime, hkey.1]
  exact hpending f hf

lemma TimeInv.quiet (h : TimeInv e) (hq : Quiet e e')
    (hdrain : e'.draining → ∀ f ∈ e'.heap, e'.current_time ≤ (e'.frames f).time) : TimeInv e' where
  heap := h.heap.quiet hq
  tickets t ht := by
    rw [hq.scheduled] at ht
    exact (h.tickets t ht).trans hq.time
  pending := hdrain
  ran r hr t ht := by
    rw [hq.ran] at hr
    rw [hq.scheduled] at ht
    exact h.ran r hr t ht

section Insert

variable {f : FrameId} {event : EventId} {time period : ℕ}

lemma TimeInv.insert (h : TimeInv e) (hfree : (e.frames f).in_heap = false)
    (htime : e.draining → e.current_time ≤ time) : TimeInv (e.insert event f time period) where
  heap := h.heap.insert hfree
  tickets t ht := by
    rw [insert_scheduled, List.mem_cons] at ht
    rcases ht with rfl | ht
    · exact le_rfl
    · exact h.tickets t ht
  pending hdrain g hg := by
    have hdrain : e.draining := hdrain
    rw [insert_heap, List.mem_cons] at hg
    by_cases hgf : g = f
    · rw [hgf, insert_self]
      exact htime hdrain
    · rw [insert_of_ne _ _ _ _ hgf]
      exact h.pending hdrain g (hg.resolve_left hgf)
  ran r hr t ht hseq := by
    rw [insert_scheduled, List.mem_cons] at ht
    rcases ht with rfl | ht
    · obtain ⟨hle, hcounter⟩ := h.heap.counters r hr
      have hseq : e.schedule_sequence_counter + 1 = r.sequence := hseq
      omega
    · exact h.ran r hr t ht hseq

end Insert

section Extract

variable {f : FrameId} {event : EventId} {now : ℕ}

lemma TimeInv.extract (h : TimeInv e) (htop : e.heapTop = some f) (hnow : e.current_time ≤ now)
    (hdrain : e.draining → now = (e.frames f).time) : TimeInv (e.extract f event now) where
  heap := h.heap.extract htop
  tickets t ht := (h.tickets t ht).trans hnow
  pending hd g hg := by
    have hmem := h.heap.nodup.mem_erase_iff.mp hg
    have hkey := heapTop_le htop hmem.2
    have htime : (e.extract f event now).current_time = now := rfl
    rw [htime, hdrain hd, extract_of_ne _ _ _ hmem.1]
    rw [Frame.key, Frame.key, Prod.Lex.toLex_le_toLex] at hkey
    rcases hkey with hlt | heq
    · exact hlt.le
    · exact heq.1.le
  ran r hr t ht hseq := by
    rw [extract_ran, List.mem_cons] at hr
    rcases hr with rfl | hr
    · exact (h.tickets t ht).trans hnow
    · exact h.ran r hr t ht hseq

end Extract

lemma DrainSafe.aligned (h : DrainSafe op w) (hdrain : w.engine.draining) {event : EventId}
    {after : ℕ} (hreq : World.request w op = some (event, after)) :
    Aligned w.engine event after := by
  cases op with
  | startDrain max_events => cases hreq
  | _ => exact h hdrain (event, after) hreq

lemma TimeInv.step (h : TimeInv w.engine) (hsafe : DrainSafe op w)
    (hstep : World.step op w = some w') :
    TimeInv w'.engine ∧ w.engine.current_time ≤ w'.engine.current_time := by
  cases step_change hstep with
  | quiet hq hdrain =>
    refine ⟨h.quiet hq fun hd => ?_, hq.time⟩
    obtain ⟨htime, hd | ⟨m, rfl⟩⟩ := hdrain hd
    · exact hq.pending h.heap (h.pending hd) htime
    · exact hq.pending h.heap hsafe htime
  | insert e₁ f event cycle_time after period hbefore hfree hqueue hnow hmode₁ hcycle hzero hreq hafter
      hsame hmode =>
    have hdraining : ∀ {e₂ : Engine}, e₂.mode = w.engine.mode → e₂.draining → w.engine.draining :=
      fun heq ⟨n, m, hd⟩ => ⟨n, m, heq.symm.trans hd⟩
    have h₁ : TimeInv e₁ := h.quiet hbefore fun hd =>
      hbefore.pending h.heap (h.pending (hdraining hmode₁ hd)) hnow
    have htime : e₁.draining → e₁.current_time ≤ e₁.timeAfter cycle_time after := by
      intro hd
      have hd := hdraining hmode₁ hd
      apply le_timeAfter hzero
      rcases hsafe.aligned hd (hreq.resolve_right (not_not.mpr hd)) with hafter | hcycles
      · exact .inl hafter
      · rw [hnow]
        exact .inr (hcycles cycle_time hcycle)
    have h₂ : TimeInv (e₁.insert event f (e₁.timeAfter cycle_time after) period) :=
      h₁.insert hfree htime
    refine ⟨h₂.quiet hafter fun hd => ?_, hsame.ge⟩
    obtain ⟨n, m, hd⟩ := hdraining hmode hd
    exact hafter.pending h₂.heap (h₂.pending ⟨n, m, hmode₁.trans hd⟩) (hsame.trans hnow.symm)
  | extract f event now htop hdue hafter hsame hmode =>
    have hpending : w.engine.draining → w.engine.current_time ≤ (w.engine.frames f).time :=
      fun hd => h.pending hd f (heapTop_mem htop)
    have hnow : w.engine.current_time ≤ now := by
      rcases hdue with ⟨rfl, -⟩ | ⟨hd, rfl⟩
      · exact le_rfl
      · exact hpending hd
    have hdrain : w.engine.draining → now = (w.engine.frames f).time := by
      intro hd
      rcases hdue with ⟨rfl, hle⟩ | ⟨-, rfl⟩
      · exact le_antisymm (hpending hd) hle
      · rfl
    have h₁ : TimeInv (w.engine.extract f event now) := h.extract htop hnow hdrain
    refine ⟨h₁.quiet hafter fun hd => ?_, hsame ▸ hnow⟩
    exact hafter.pending h₁.heap (h₁.pending (hmode hd)) hsame

lemma TimeInv.run {ops : List Op} (h : TimeInv w.engine) (hsafe : Along World.step DrainSafe ops w)
    (hrun : run World.step ops w = some w') :
    TimeInv w'.engine ∧ w.engine.current_time ≤ w'.engine.current_time := by
  have hinv := run_invariant (P := DrainSafe)
    (Q := fun s => TimeInv s.engine ∧ w.engine.current_time ≤ s.engine.current_time)
    (fun op s s' hinv hsafe hstep => by
      obtain ⟨hs', hle⟩ := hinv.1.step hsafe hstep
      exact ⟨hs', hinv.2.trans hle⟩) ⟨h, le_rfl⟩ hsafe hrun
  exact hinv

/-- In a run whose operations are all `DrainSafe`, time never goes back, and no frame runs before
the time at which it was scheduled. -/
theorem run_time_monotone (ops more : List Op) (w w' : World)
    (hsafe : Along World.step DrainSafe (ops ++ more) {})
    (hrun : run World.step ops {} = some w) (hmore : run World.step more w = some w') :
    w.engine.current_time ≤ w'.engine.current_time ∧
      ∀ r ∈ w'.engine.ran, ∀ t ∈ w'.engine.scheduled, t.sequence = r.sequence → t.now ≤ r.now := by
  obtain ⟨hops, hrest⟩ := hsafe.append
  rw [hrun, Option.elim_some] at hrest
  have hw := TimeInv.run timeInv_empty hops hrun
  obtain ⟨hw', hle⟩ := hw.1.run hrest hmore
  exact ⟨hle, hw'.ran⟩

def twoCycles (event : EventId) : List Op :=
  [.registerFrequencyDomain 1000, .registerFrequencyDomain 700,
    .registerEvent (some 0), .registerEvent (some 1), .newFrame,
    .schedule (some event) 0 (if event = 1 then 2 else 1) 0,
    .startProcess, .nextCycle, .startProcess, .nextCycle]

def drainFrame : List Op := [.startDrain 10, .drainEvent, .handlerEnd, .drainEnd]

/-- The frame of the faster domain is drained at 2000, the current time. -/
theorem run_time_monotone_faster : ∃ w w', run World.step (twoCycles 1) {} = some w ∧
    run World.step drainFrame w = some w' ∧ w.engine.current_time ≤ w'.engine.current_time := by
  have hsome : (run World.step (twoCycles 1 ++ drainFrame) {}).isSome := by decide +kernel
  rw [run_append] at hsome
  obtain ⟨w', hrun⟩ := Option.isSome_iff_exists.mp hsome
  obtain ⟨w, hw, hw'⟩ := Option.bind_eq_some_iff.mp hrun
  have hsafe : Along World.step DrainSafe (twoCycles 1 ++ drainFrame) {} := by decide +kernel
  exact ⟨w, w', hw, hw', (run_time_monotone (twoCycles 1) drainFrame w w' hsafe hw hw').1⟩

/-- The frame of the slower domain was due at 1428, between two cycles of the faster one. -/
theorem time_goes_back : ¬ ∀ ops more w w', run World.step ops {} = some w →
    run World.step more w = some w' → w.engine.current_time ≤ w'.engine.current_time := by
  intro hmono
  have hbefore : (run World.step (twoCycles 2) {}).map (fun w => w.engine.current_time) =
      some 2000 := by decide +kernel
  have hafter : (run World.step (twoCycles 2 ++ drainFrame) {}).map
      (fun w => w.engine.current_time) = some 1428 := by decide +kernel
  obtain ⟨w', hrun, hw'⟩ := Option.map_eq_some_iff.mp hafter
  rw [run_append] at hrun
  obtain ⟨w, hw, hrun⟩ := Option.bind_eq_some_iff.mp hrun
  rw [hw, Option.map_some, Option.some.injEq] at hbefore
  have hle := hmono (twoCycles 2) drainFrame w w' hw hrun
  rw [hbefore, hw'] at hle
  omega

end OISA.Esim
