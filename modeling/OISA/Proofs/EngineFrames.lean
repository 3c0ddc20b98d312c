import OISA.Proofs.EngineQueues

/-!
# What one operation does to a frame

The operations that schedule a frame leave the other frames alone and keep its links. No operation
locks the engine.
-/

namespace OISA.Esim

variable {e e' : Engine} {w w' : World} {f g : FrameId} {op : Op}

/-- Only one frame changed, and only in its place in the heap. -/
structure Scheduled (f : FrameId) (e e' : Engine) : Prop where
  others : ∀ g, g ≠ f → e'.frames g = e.frames g
  return_event : (e'.frames f).return_event = (e.frames f).return_event
  parent_frame : (e'.frames f).parent_frame = (e.frames f).parent_frame
  in_queue : (e'.frames f).in_queue = (e.frames f).in_queue
  locked : e'.locked = e.locked
  current_frame : e'.current_frame = e.current_frame
  running : e'.running = e.running
  num_frames : e.num_frames ≤ e'.num_frames

lemma Scheduled.refl (f : FrameId) (e : Engine) : Scheduled f e e :=
  ⟨fun _ _ => rfl, rfl, rfl, rfl, rfl, rfl, rfl, le_rfl⟩

lemma Scheduled.links (h : Scheduled f e e') (g : FrameId) :
    (e'.frames g).return_event = (e.frames g).return_event ∧
      (e'.frames g).parent_frame = (e.frames g).parent_frame := by
  by_cases hg : g = f
  · rw [hg]
    exact ⟨h.return_event, h.parent_frame⟩
  · rw [h.others g hg]
    exact ⟨rfl, rfl⟩

lemma scheduled_insert (event : EventId) (f : FrameId) (time period : ℕ) :
    Scheduled f e (e.insert event f time period) where
  others g hg := insert_of_ne e event time period hg
  return_event := by rw [insert_self]
  parent_frame := by rw [insert_self]
  in_queue := by rw [insert_self]
  locked := rfl
  current_frame := rfl
  running := rfl
  num_frames := le_max_left _ _

lemma scheduled_of_schedule {event : Option EventId} {after period : ℕ}
    (h : e.Schedule event (some f) after period = some e') : Scheduled f e e' := by
  rcases schedule_cases h with rfl | ⟨g, ev, cycle_time, hg, -, -, -, -, -, rfl⟩
  · exact .refl f e'
  · obtain rfl := Option.some.inj hg
    exact scheduled_insert ev f _ period

lemma schedule_registered {event : EventId} {after period : ℕ} (hlocked : e.locked = false)
    (hnull : event ≠ null_event) (h : e.Schedule (some event) (some f) after period = some e') :
    ∃ time, e' = e.insert event f time period ∧ (e.frames f).in_heap = false ∧
      (e.frames f).in_queue = false := by
  unfold Engine.Schedule at h
  simp only [hlocked, hnull, if_false, Bool.false_eq_true] at h
  split_ifs at h with hqueue hheap
  obtain ⟨cycle_time, -, h⟩ := Option.bind_eq_some_iff.mp h
  split_ifs at h with hzero
  exact ⟨_, (Option.some.inj h).symm, by simpa using hheap, by simpa using hqueue⟩

lemma call_or_loop (hop : op.isQueue = false) (h : World.step op w = some w') :
    ∃ e, (World.call w.engine op = some e ∨ World.loop w.engine op = some e) ∧
      w' = { w with engine := e } := by
  unfold World.step at h
  split at h
  case h_1 => cases hop
  case h_2 => cases hop
  case h_3 =>
    split_ifs at h with hcallable
    · obtain ⟨e, he, rfl⟩ := Option.map_eq_some_iff.mp h
      exact ⟨e, .inl he, rfl⟩
    · obtain ⟨e, he, rfl⟩ := Option.map_eq_some_iff.mp h
      exact ⟨e, .inr he, rfl⟩

section Handlers

lemma call_cases {p : FrameId} {event return_event : EventId}
    (hcurrent : w.engine.current_frame = some p)
    (h : World.step (.call (some event) none (some return_event) 0 0) w = some w') :
    (∀ g, g ≠ w.engine.num_frames → w'.engine.frames g = w.engine.frames g) ∧
      (w'.engine.frames w.engine.num_frames).return_event = some return_event ∧
      (w'.engine.frames w.engine.num_frames).parent_frame = some p ∧
      w'.engine.locked = w.engine.locked ∧ w'.engine.current_frame = some p ∧
      w'.engine.running = w.engine.running ∧ w.engine.num_frames < w'.engine.num_frames := by
  obtain ⟨e, he | he, rfl⟩ := call_or_loop rfl h
  · have hcall : (w.engine.newFrame.1.linkFrame w.engine.num_frames (some return_event)
        w.engine.current_frame).Schedule (some event) (some w.engine.num_frames) 0 0 = some e := he
    have hsched := scheduled_of_schedule hcall
    have hself : (w.engine.newFrame.1.linkFrame w.engine.num_frames (some return_event)
        w.engine.current_frame).frames w.engine.num_frames =
        { return_event := some return_event, parent_frame := w.engine.current_frame } := by
      rw [Engine.linkFrame, updateFrame_self, newFrame_self]
    have hothers : ∀ g, g ≠ w.engine.num_frames →
        (w.engine.newFrame.1.linkFrame w.engine.num_frames (some return_event)
          w.engine.current_frame).frames g = w.engine.frames g := by
      intro g hg
      rw [Engine.linkFrame, updateFrame_of_ne _ _ hg]
      apply Function.update_of_ne hg
    refine ⟨?_, ?_, ?_, hsched.locked, hsched.current_frame.trans hcurrent, hsched.running,
      hsched.num_frames⟩
    · intro g hg
      exact (hsched.others g hg).trans (hothers g hg)
    · exact hsched.return_event.trans (by rw [hself])
    · exact hsched.parent_frame.trans (by rw [hself]; exact hcurrent)
  · cases he

lemma next_cases {p : FrameId} {event : EventId} (hcurrent : w.engine.current_frame = some p)
    (hlocked : w.engine.locked = false) (hnull : event ≠ null_event)
    (h : World.step (.next (some event) 0 0) w = some w') :
    ∃ time, w'.engine = w.engine.insert event p time 0 ∧
      (w.engine.frames p).in_heap = false ∧ (w.engine.frames p).in_queue = false := by
  obtain ⟨e, he | he, rfl⟩ := call_or_loop rfl h
  · have hnext : w.engine.Next (some event) 0 0 = some e := he
    rw [Engine.Next, hcurrent] at hnext
    exact schedule_registered hlocked hnull hnext
  · cases he

lemma return_cases {c p : FrameId} {event : EventId} (hcurrent : w.engine.current_frame = some c)
    (hreturn : (w.engine.frames c).return_event = some event)
    (hparent : (w.engine.frames c).parent_frame = some p) (hlocked : w.engine.locked = false)
    (hnull : event ≠ null_event) (h : World.step (.ret 0) w = some w') :
    ∃ time, w'.engine = w.engine.insert event p time 0 ∧
      (w.engine.frames p).in_heap = false ∧ (w.engine.frames p).in_queue = false := by
  obtain ⟨e, he | he, rfl⟩ := call_or_loop rfl h
  · have hret : w.engine.Return 0 = some e := he
    rw [Engine.Return, hcurrent] at hret
    simp only [hreturn, hparent] at hret
    exact schedule_registered hlocked hnull hret
  · cases he

end Handlers

section Loops

lemma take_cases (hop : op = .processEvent ∨ op = .drainEvent)
    (h : World.step op w = some w') :
    ∃ f event, w.engine.current_frame = none ∧ (w.engine.frames f).in_heap = true ∧
      (w.engine.frames f).event = some event ∧
      w'.engine.frames = Function.update w.engine.frames f
        { w.engine.frames f with in_heap := false } ∧
      w'.engine.current_frame = some f ∧ w'.engine.running = some event ∧
      w'.engine.locked = w.engine.locked ∧ w'.engine.num_frames = w.engine.num_frames := by
  rcases hop with rfl | rfl
  · obtain ⟨e, hcall | he, rfl⟩ := call_or_loop rfl h
    · cases hcall
    change w.engine.processEvent = some e at he
    unfold Engine.processEvent at he
    split at he
    case h_1 f hmode hrunning htop =>
      split_ifs at he with hlt hbusy
      obtain ⟨event, hevent, rfl⟩ := Option.map_eq_some_iff.mp he
      rw [Bool.or_eq_true, not_or, Bool.not_eq_true, Option.isSome_eq_false_iff,
        Option.isNone_iff_eq_none] at hbusy
      exact ⟨f, event, hbusy.1, by simpa using hbusy.2, hevent, rfl, rfl, rfl, rfl, rfl⟩
    case h_2 => cases he
  · obtain ⟨e, hcall | he, rfl⟩ := call_or_loop rfl h
    · cases hcall
    change w.engine.drainEvent = some e at he
    unfold Engine.drainEvent at he
    split at he
    case h_1 n m f hmode hrunning htop =>
      split_ifs at he with hbusy
      obtain ⟨event, hevent, rfl⟩ := Option.map_eq_some_iff.mp he
      rw [Bool.or_eq_true, not_or, Bool.not_eq_true, Option.isSome_eq_false_iff,
        Option.isNone_iff_eq_none] at hbusy
      exact ⟨f, event, hbusy.1, by simpa using hbusy.2, hevent, rfl, rfl, rfl, rfl, rfl⟩
    case h_2 => cases he

lemma handlerEnd_cases (h : World.step .handlerEnd w = some w') :
    w'.engine.current_frame = none ∧
      (∀ f, (w'.engine.frames f).return_event = (w.engine.frames f).return_event ∧
        (w'.engine.frames f).parent_frame = (w.engine.frames f).parent_frame) ∧
      ∀ f, (w.engine.current_frame = some f → (w.engine.frames f).period = 0) →
        w'.engine.frames f = w.engine.frames f := by
  obtain ⟨e, hcall | he, rfl⟩ := call_or_loop rfl h
  · cases hcall
  change w.engine.handlerEnd = some e at he
  unfold Engine.handlerEnd at he
  split at he
  case h_1 event hrunning hsaved =>
    obtain ⟨e₁, he₁, rfl⟩ := Option.map_eq_some_iff.mp he
    refine ⟨rfl, ?_⟩
    change (∀ f, (e₁.frames f).return_event = _ ∧ (e₁.frames f).parent_frame = _) ∧
      ∀ f, _ → e₁.frames f = _
    have hsame : e₁.frames = w.engine.frames →
        (∀ f, (e₁.frames f).return_event = (w.engine.frames f).return_event ∧
          (e₁.frames f).parent_frame = (w.engine.frames f).parent_frame) ∧
        ∀ f, (w.engine.current_frame = some f → (w.engine.frames f).period = 0) →
          e₁.frames f = w.engine.frames f := by
      intro heq
      rw [heq]
      exact ⟨fun _ => ⟨rfl, rfl⟩, fun _ _ => rfl⟩
    unfold Engine.afterHandler at he₁
    split at he₁
    case h_1 g hmode hcurrent =>
      split_ifs at he₁ with hpos
      · have hsched := scheduled_of_schedule he₁
        constructor
        · exact hsched.links
        · intro f hperiod
          have hne : f ≠ g := by
            rintro rfl
            rw [hperiod hcurrent] at hpos
            exact Nat.lt_irrefl 0 hpos
          exact hsched.others f hne
      · obtain rfl := Option.some.inj he₁
        exact hsame rfl
    case h_2 n m hmode =>
      split_ifs at he₁ <;> obtain rfl := Option.some.inj he₁ <;> exact hsame rfl
    case h_3 =>
      obtain rfl := Option.some.inj he₁
      exact hsame rfl
  case h_2 => cases he

end Loops

section Locked

lemma locked_schedule {event : Option EventId} {frame : Option FrameId} {after period : ℕ}
    (h : e.Schedule event frame after period = some e') : e'.locked = e.locked := by
  cases frame with
  | none => cases h
  | some f => exact (scheduled_of_schedule h).locked

lemma closed_locked : Closed fun e e' => e'.locked = e.locked where
  trans h h' := h'.trans h
  outside h := h.locked
  registerEvent _ _ := rfl
  newFrame _ := rfl
  linkFrame _ _ _ _ := rfl
  endFrame _ _ := rfl
  schedule := locked_schedule
  process _ _ := rfl

lemma locked_loop (h : World.loop e op = some e') : e'.locked = e.locked := by
  apply closed_locked.loop _ h
  intro _ hdrain
  obtain ⟨f, event, -, -, houtside⟩ := drainEvent_cases hdrain
  exact houtside.locked

/-- No operation locks the engine. -/
theorem locked_step (h : World.step op w = some w') : w'.engine.locked = w.engine.locked := by
  by_cases hop : op.isQueue = false
  · obtain ⟨e, he | he, rfl⟩ := call_or_loop hop h
    · exact closed_locked.call he
    · exact locked_loop he
  · cases op with
    | wait q event priority =>
      obtain ⟨f, ev, -, -, -, -, hengine, -⟩ := wait_cases h
      rw [hengine]
      rfl
    | wakeupOne q =>
      obtain ⟨f, rest, event, -, -, hschedule, -⟩ := wakeupOne_cases h
      exact (locked_schedule hschedule).trans rfl
    | _ => exact absurd rfl hop

lemma num_frames_step (h : World.step op w = some w') :
    w.engine.num_frames ≤ w'.engine.num_frames := by
  cases step_change h with
  | quiet hq hdrain => exact hq.num_frames
  | insert e₁ f event cycle_time after period hbefore hfree hqueue hnow hmode₁ hcycle hzero hreq
      hafter hsame hmode =>
    have hinsert : e₁.num_frames ≤ (e₁.insert event f (e₁.timeAfter cycle_time after)
      period).num_frames := le_max_left _ _
    exact (hbefore.num_frames.trans hinsert).trans hafter.num_frames
  | extract f event now htop hdue hafter hsame hmode => exact hafter.num_frames

end Locked

end OISA.Esim
