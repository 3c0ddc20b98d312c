import OISA.Proofs.EngineChanges
import OISA.Proofs.EngineOrder

/-!
# Frames that wait in queues

Only `wait` and `wakeupOne` move a frame into or out of a queue.
-/

namespace OISA.Esim

open OISA.Lib

variable {e e' e₁ : Engine} {w w' : World} {op : Op}

/-- No frame was suspended or woken up, and no suspended frame was put in the heap. -/
structure Still (e e' : Engine) : Prop where
  num_frames : e.num_frames ≤ e'.num_frames
  in_queue : ∀ f < e.num_frames, (e'.frames f).in_queue = (e.frames f).in_queue
  wakeup : ∀ f < e.num_frames, (e'.frames f).wakeup_event = (e.frames f).wakeup_event
  in_heap : ∀ f < e.num_frames, (e.frames f).in_queue = true → (e.frames f).in_heap = false →
    (e'.frames f).in_heap = false

lemma Still.refl (e : Engine) : Still e e :=
  ⟨le_rfl, fun _ _ => rfl, fun _ _ => rfl, fun _ _ _ h => h⟩

lemma Still.trans {e₂ : Engine} (h : Still e e₁) (h' : Still e₁ e₂) : Still e e₂ where
  num_frames := h.num_frames.trans h'.num_frames
  in_queue f hf := (h'.in_queue f (hf.trans_le h.num_frames)).trans (h.in_queue f hf)
  wakeup f hf := (h'.wakeup f (hf.trans_le h.num_frames)).trans (h.wakeup f hf)
  in_heap f hf hqueue hheap := h'.in_heap f (hf.trans_le h.num_frames)
    ((h.in_queue f hf).trans hqueue) (h.in_heap f hf hqueue hheap)

lemma still_of_eq (hframes : e'.frames = e.frames) (hnum : e.num_frames ≤ e'.num_frames) :
    Still e e' := by
  refine ⟨hnum, ?_, ?_, ?_⟩ <;> intro f _ <;> rw [hframes]
  exact fun _ h => h

lemma still_of_frame (f : FrameId) (hnum : e.num_frames ≤ e'.num_frames)
    (hne : ∀ g, g ≠ f → e'.frames g = e.frames g)
    (hqueue : (e'.frames f).in_queue = (e.frames f).in_queue)
    (hwakeup : (e'.frames f).wakeup_event = (e.frames f).wakeup_event)
    (hheap : (e.frames f).in_queue = true → (e.frames f).in_heap = false →
      (e'.frames f).in_heap = false) : Still e e' := by
  refine ⟨hnum, ?_, ?_, ?_⟩ <;> intro g _ <;> by_cases hg : g = f
  · rw [hg, hqueue]
  · rw [hne g hg]
  · rw [hg, hwakeup]
  · rw [hne g hg]
  · rw [hg]
    exact hheap
  · rw [hne g hg]
    exact fun _ h => h

lemma still_updateFrame (f : FrameId) (u : Frame → Frame)
    (hu : ∀ x, (u x).in_queue = x.in_queue ∧ (u x).wakeup_event = x.wakeup_event ∧
      (u x).in_heap = x.in_heap) : Still e (e.updateFrame f u) := by
  apply still_of_frame f
  · exact le_rfl
  · exact fun g hg => updateFrame_of_ne e u hg
  · rw [updateFrame_self, (hu _).1]
  · rw [updateFrame_self, (hu _).2.1]
  · rw [updateFrame_self, (hu _).2.2]
    exact fun _ h => h

lemma still_newFrame (e : Engine) : Still e e.newFrame.1 := by
  have hframe : ∀ f < e.num_frames, e.newFrame.1.frames f = e.frames f := by
    intro f hf
    apply Function.update_of_ne hf.ne
  refine ⟨Nat.le_succ _, ?_, ?_, ?_⟩ <;> intro f hf <;> rw [hframe f hf]
  exact fun _ h => h

lemma still_linkFrame (f : FrameId) (event : Option EventId) (parent : Option FrameId) :
    Still e (e.linkFrame f event parent) :=
  still_updateFrame f _ fun _ => ⟨rfl, rfl, rfl⟩

lemma still_setEvent (f : FrameId) (event : EventId) : Still e (e.setEvent f event) :=
  still_updateFrame f _ fun _ => ⟨rfl, rfl, rfl⟩

lemma still_insert (event : EventId) {f : FrameId} (time period : ℕ)
    (hqueue : (e.frames f).in_queue = false) : Still e (e.insert event f time period) := by
  apply still_of_frame f
  · exact le_max_left _ _
  · exact fun g hg => insert_of_ne e event time period hg
  · rw [insert_self]
  · rw [insert_self]
  · rw [hqueue]
    intro h
    cases h

lemma still_extract (f : FrameId) (event : EventId) (now : ℕ) :
    Still e (e.extract f event now) := by
  apply still_of_frame f
  · exact le_rfl
  · exact fun g hg => extract_of_ne e event now hg
  · rw [extract_self]
  · rw [extract_self]
  · rw [extract_self]
    exact fun _ _ => rfl

lemma still_schedule {event : Option EventId} {frame : Option FrameId} {after period : ℕ}
    (h : e.Schedule event frame after period = some e') : Still e e' := by
  rcases schedule_cases h with rfl | ⟨f, ev, cycle_time, -, -, -, hqueue, -, -, rfl⟩
  · exact .refl _
  · exact still_insert _ _ _ hqueue

lemma still_of_outside (h : Outside e e') : Still e e' := still_of_eq h.frames h.num_frames.ge

lemma closed_still : Closed Still where
  trans := Still.trans
  outside := still_of_outside
  registerEvent _ _ := still_of_eq rfl le_rfl
  newFrame := still_newFrame
  linkFrame _ := still_linkFrame
  endFrame e event := (still_newFrame e).trans (still_setEvent _ event)
  schedule := still_schedule
  process {e f event} _ _ :=
    (still_extract f event e.current_time).trans (still_of_eq rfl le_rfl)

lemma still_of_call (h : World.call e op = some e') : Still e e' := closed_still.call h

lemma still_of_loop (h : World.loop e op = some e') : Still e e' := by
  apply closed_still.loop _ h
  intro _ hdrain
  obtain ⟨f, event, -, -, houtside⟩ := drainEvent_cases hdrain
  exact (still_extract f event _).trans (still_of_outside houtside)

/-- A frame in a queue is in no other place of a queue and not in the heap, and it has an event
to be woken up with. -/
structure QueueInv (w : World) : Prop where
  nodup : ∀ q, (w.queues q).Nodup
  disjoint : ∀ q r, q ≠ r → ∀ f ∈ w.queues q, f ∉ w.queues r
  named : ∀ q, ∀ f ∈ w.queues q, f < w.engine.num_frames
  in_queue : ∀ q, ∀ f ∈ w.queues q, (w.engine.frames f).in_queue = true
  wakeup : ∀ q, ∀ f ∈ w.queues q, (w.engine.frames f).wakeup_event.isSome
  in_heap : ∀ q, ∀ f ∈ w.queues q, (w.engine.frames f).in_heap = false

lemma queueInv_empty : QueueInv {} where
  nodup q := List.nodup_nil
  disjoint q r _ f hf := by cases hf
  named q f hf := by cases hf
  in_queue q f hf := by cases hf
  wakeup q f hf := by cases hf
  in_heap q f hf := by cases hf

lemma QueueInv.still (h : QueueInv w) (hq : w'.queues = w.queues)
    (hstill : Still w.engine w'.engine) : QueueInv w' := by
  constructor <;> rw [hq]
  case nodup => exact h.nodup
  case disjoint => exact h.disjoint
  case named =>
    intro q f hf
    exact (h.named q f hf).trans_le hstill.num_frames
  case in_queue =>
    intro q f hf
    rw [hstill.in_queue f (h.named q f hf)]
    exact h.in_queue q f hf
  case wakeup =>
    intro q f hf
    rw [hstill.wakeup f (h.named q f hf)]
    exact h.wakeup q f hf
  case in_heap =>
    intro q f hf
    exact hstill.in_heap f (h.named q f hf) (h.in_queue q f hf) (h.in_heap q f hf)

def Op.isQueue : Op → Bool
  | .wait _ _ _ | .wakeupOne _ => true
  | _ => false

lemma step_of_not_isQueue (hop : op.isQueue = false) (hstep : World.step op w = some w') :
    w'.queues = w.queues ∧ Still w.engine w'.engine := by
  unfold World.step at hstep
  split at hstep
  case h_1 => cases hop
  case h_2 => cases hop
  case h_3 =>
    split_ifs at hstep with hcallable
    · obtain ⟨e, he, rfl⟩ := Option.map_eq_some_iff.mp hstep
      exact ⟨rfl, still_of_call he⟩
    · obtain ⟨e, he, rfl⟩ := Option.map_eq_some_iff.mp hstep
      exact ⟨rfl, still_of_loop he⟩

lemma wait_cases {q : QueueId} {event : Option EventId} {priority : Bool}
    (hstep : World.step (.wait q event priority) w = some w') :
    ∃ f ev, w.engine.current_frame = some f ∧ event = some ev ∧
      (w.engine.frames f).in_heap = false ∧ (w.engine.frames f).in_queue = false ∧
      w'.engine = w.engine.queueFrame f (some ev) ∧
      w'.queues = Function.update w.queues q
        (if priority then f :: w.queues q else w.queues q ++ [f]) := by
  rw [World.step] at hstep
  split_ifs at hstep with hcallable
  obtain ⟨x, hx, rfl⟩ := Option.map_eq_some_iff.mp hstep
  unfold Engine.wait at hx
  split at hx
  case h_1 f ev hcurrent =>
    by_cases hheap : (w.engine.frames f).in_heap
    · rw [if_pos hheap] at hx
      cases hx
    · rw [if_neg hheap] at hx
      by_cases hbusy : (w.engine.frames f).wakeup_event.isSome || (w.engine.frames f).in_queue
      · rw [if_pos hbusy] at hx
        cases hx
      · rw [if_neg hbusy] at hx
        obtain rfl := Option.some.inj hx
        rw [Bool.or_eq_true, not_or] at hbusy
        exact ⟨f, ev, hcurrent, rfl, by simpa using hheap, by simpa using hbusy.2, rfl, rfl⟩
  case h_2 => cases hx

lemma wakeupOne_cases {q : QueueId} (hstep : World.step (.wakeupOne q) w = some w') :
    ∃ f rest event, w.queues q = f :: rest ∧ (w.engine.frames f).wakeup_event = some event ∧
      (w.engine.queueFrame f none).Schedule (some event) (some f) 0 0 = some w'.engine ∧
      w'.queues = Function.update w.queues q rest := by
  rw [World.step] at hstep
  split_ifs at hstep with hcallable
  obtain ⟨x, hx, rfl⟩ := Option.map_eq_some_iff.mp hstep
  unfold Engine.wakeupOne at hx
  split at hx
  case h_1 => cases hx
  case h_2 f rest hqueue =>
    split at hx
    case h_1 => cases hx
    case h_2 event hevent =>
      obtain ⟨e, he, rfl⟩ := Option.map_eq_some_iff.mp hx
      exact ⟨f, rest, event, hqueue, hevent, he, rfl⟩

lemma queueFrame_self (f : FrameId) (event : Option EventId) :
    (e.queueFrame f event).frames f =
      { e.frames f with wakeup_event := event, in_queue := event.isSome } := by
  apply Function.update_self

lemma queueFrame_of_ne {f g : FrameId} (h : g ≠ f) (event : Option EventId) :
    (e.queueFrame f event).frames g = e.frames g := by
  apply Function.update_of_ne h

lemma queueFrame_num_frames (f : FrameId) (event : Option EventId) :
    (e.queueFrame f event).num_frames = max e.num_frames (f + 1) := rfl

/-- A frame that was in no queue goes into queue `q`, whose frames become `frames`. -/
lemma QueueInv.push (h : QueueInv w) {q : QueueId} {f : FrameId} {ev : EventId}
    {frames : List FrameId} (hheap : (w.engine.frames f).in_heap = false)
    (hfree : (w.engine.frames f).in_queue = false) (hperm : frames.Perm (f :: w.queues q)) :
    QueueInv ⟨w.engine.queueFrame f (some ev), Function.update w.queues q frames⟩ := by
  have hnot : ∀ r, f ∉ w.queues r := by
    intro r hmem
    rw [h.in_queue r f hmem] at hfree
    cases hfree
  have hmem : ∀ r, ∀ g ∈ (Function.update w.queues q frames) r,
      (g = f ∧ r = q) ∨ (g ≠ f ∧ g ∈ w.queues r) := by
    intro r g hg
    by_cases hr : r = q
    · rw [hr, Function.update_self, hperm.mem_iff, List.mem_cons] at hg
      by_cases hgf : g = f
      · exact .inl ⟨hgf, hr⟩
      · rw [hr]
        exact .inr ⟨hgf, hg.resolve_left hgf⟩
    · rw [Function.update_of_ne hr] at hg
      refine .inr ⟨?_, hg⟩
      rintro rfl
      exact hnot r hg
  constructor
  case nodup =>
    intro r
    by_cases hr : r = q
    · simp only [hr, Function.update_self]
      exact hperm.nodup_iff.mpr (List.nodup_cons.mpr ⟨hnot q, h.nodup q⟩)
    · simp only [Function.update_of_ne hr]
      exact h.nodup r
  case disjoint =>
    intro r s hrs g hg hg'
    rcases hmem r g hg with ⟨rfl, rfl⟩ | ⟨hne, hgr⟩
    · rcases hmem s g hg' with ⟨-, rfl⟩ | ⟨hne, -⟩
      · exact hrs rfl
      · exact hne rfl
    · rcases hmem s g hg' with ⟨heq, -⟩ | ⟨-, hgs⟩
      · exact hne heq
      · exact h.disjoint r s hrs g hgr hgs
  case named =>
    intro r g hg
    rw [queueFrame_num_frames]
    rcases hmem r g hg with ⟨rfl, -⟩ | ⟨-, hgr⟩
    · exact lt_max_of_lt_right (Nat.lt_succ_self _)
    · exact lt_max_of_lt_left (h.named r g hgr)
  case in_queue =>
    intro r g hg
    rcases hmem r g hg with ⟨rfl, -⟩ | ⟨hne, hgr⟩
    · rw [queueFrame_self]
      rfl
    · rw [queueFrame_of_ne hne]
      exact h.in_queue r g hgr
  case wakeup =>
    intro r g hg
    rcases hmem r g hg with ⟨rfl, -⟩ | ⟨hne, hgr⟩
    · rw [queueFrame_self]
      rfl
    · rw [queueFrame_of_ne hne]
      exact h.wakeup r g hgr
  case in_heap =>
    intro r g hg
    rcases hmem r g hg with ⟨rfl, -⟩ | ⟨hne, hgr⟩
    · rw [queueFrame_self]
      exact hheap
    · rw [queueFrame_of_ne hne]
      exact h.in_heap r g hgr

/-- The head of queue `q` leaves it. -/
lemma QueueInv.pop (h : QueueInv w) {q : QueueId} {f : FrameId} {rest : List FrameId}
    (hqueue : w.queues q = f :: rest) :
    QueueInv ⟨w.engine.queueFrame f none, Function.update w.queues q rest⟩ ∧
      ∀ r, f ∉ (Function.update w.queues q rest) r := by
  have hnodup : f ∉ rest ∧ rest.Nodup := by
    have := h.nodup q
    rw [hqueue, List.nodup_cons] at this
    exact this
  have hmem : ∀ r, ∀ g ∈ (Function.update w.queues q rest) r, g ≠ f ∧ g ∈ w.queues r := by
    intro r g hg
    by_cases hr : r = q
    · rw [hr, Function.update_self] at hg
      rw [hr, hqueue]
      refine ⟨?_, List.mem_cons_of_mem _ hg⟩
      rintro rfl
      exact hnodup.1 hg
    · rw [Function.update_of_ne hr] at hg
      refine ⟨?_, hg⟩
      rintro rfl
      exact h.disjoint q r (Ne.symm hr) g (by rw [hqueue]; exact List.mem_cons_self) hg
  refine ⟨?_, fun r hf => (hmem r f hf).1 rfl⟩
  constructor
  case nodup =>
    intro r
    by_cases hr : r = q
    · simp only [hr, Function.update_self]
      exact hnodup.2
    · simp only [Function.update_of_ne hr]
      exact h.nodup r
  case disjoint =>
    intro r s hrs g hg hg'
    exact h.disjoint r s hrs g (hmem r g hg).2 (hmem s g hg').2
  case named =>
    intro r g hg
    exact lt_max_of_lt_left (h.named r g (hmem r g hg).2)
  case in_queue =>
    intro r g hg
    rw [queueFrame_of_ne (hmem r g hg).1]
    exact h.in_queue r g (hmem r g hg).2
  case wakeup =>
    intro r g hg
    rw [queueFrame_of_ne (hmem r g hg).1]
    exact h.wakeup r g (hmem r g hg).2
  case in_heap =>
    intro r g hg
    rw [queueFrame_of_ne (hmem r g hg).1]
    exact h.in_heap r g (hmem r g hg).2

lemma QueueInv.step (h : QueueInv w) (hstep : World.step op w = some w') : QueueInv w' := by
  by_cases hop : op.isQueue = false
  · obtain ⟨hqueues, hstill⟩ := step_of_not_isQueue hop hstep
    exact h.still hqueues hstill
  · cases op with
    | wait q event priority =>
      obtain ⟨f, ev, -, -, hheap, hfree, hengine, hqueues⟩ := wait_cases hstep
      have hperm : (if priority then f :: w.queues q else w.queues q ++ [f]).Perm
          (f :: w.queues q) := by
        split_ifs
        · exact .refl _
        · exact List.perm_append_singleton f (w.queues q)
      have hpush : QueueInv ⟨w.engine.queueFrame f (some ev), Function.update w.queues q
          (if priority then f :: w.queues q else w.queues q ++ [f])⟩ := h.push hheap hfree hperm
      rwa [← hengine, ← hqueues] at hpush
    | wakeupOne q =>
      obtain ⟨f, rest, event, hqueue, -, hschedule, hqueues⟩ := wakeupOne_cases hstep
      exact (h.pop hqueue).1.still hqueues (still_schedule hschedule)
    | _ => exact absurd rfl hop

lemma QueueInv.run {ops : List Op} (h : QueueInv w) (hrun : run World.step ops w = some w') :
    QueueInv w' :=
  run_invariant (P := fun _ _ => True) (fun _ _ _ hinv _ hstep => hinv.step hstep) h
    (along_of_forall (fun _ _ => trivial) ops w) hrun

end OISA.Esim
