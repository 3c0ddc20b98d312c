import OISA.Esim.Run

/-!
# What one operation of the engine can do

An operation leaves the heap alone, puts one frame into it, or takes the first frame out of it;
around that it changes only what the heap order does not depend on.
-/

namespace OISA.Esim

open OISA.Lib

variable {e e' e₁ : Engine} {w w' : World} {f g : FrameId} {op : Op}

def Engine.draining (e : Engine) : Prop := ∃ n max_events, e.mode = .draining n max_events

section Frames

variable (e : Engine) (u : Frame → Frame)

@[simp] lemma updateFrame_self : (e.updateFrame f u).frames f = u (e.frames f) :=
  Function.update_self ..

lemma updateFrame_of_ne (h : g ≠ f) : (e.updateFrame f u).frames g = e.frames g :=
  Function.update_of_ne h ..

variable (event time period : ℕ)

lemma insert_self : (e.insert event f time period).frames f =
    { e.frames f with event := some event, time := time, period := period,
                      schedule_sequence := e.schedule_sequence_counter + 1, in_heap := true } := by
  apply Function.update_self

lemma insert_of_ne (h : g ≠ f) : (e.insert event f time period).frames g = e.frames g := by
  apply Function.update_of_ne h

lemma extract_self : (e.extract f event time).frames f = { e.frames f with in_heap := false } := by
  apply Function.update_self

lemma extract_of_ne (h : g ≠ f) : (e.extract f event time).frames g = e.frames g := by
  apply Function.update_of_ne h

end Frames

/-- The heap, its frames and the history are the same, and time has not gone back. -/
structure Quiet (e e' : Engine) : Prop where
  heap : e'.heap = e.heap
  scheduled : e'.scheduled = e.scheduled
  ran : e'.ran = e.ran
  counter : e'.schedule_sequence_counter = e.schedule_sequence_counter
  num_frames : e.num_frames ≤ e'.num_frames
  key : ∀ f < e.num_frames, (e'.frames f).key = (e.frames f).key
  in_heap : ∀ f < e.num_frames, (e'.frames f).in_heap = (e.frames f).in_heap
  new : ∀ f, e.num_frames ≤ f → (e'.frames f).in_heap = true → (e.frames f).in_heap = true
  time : e.current_time ≤ e'.current_time

lemma Quiet.refl (e : Engine) : Quiet e e :=
  ⟨rfl, rfl, rfl, rfl, le_rfl, fun _ _ => rfl, fun _ _ => rfl, fun _ _ h => h, le_rfl⟩

lemma Quiet.trans {e₂ : Engine} (h : Quiet e e₁) (h' : Quiet e₁ e₂) : Quiet e e₂ where
  heap := h'.heap.trans h.heap
  scheduled := h'.scheduled.trans h.scheduled
  ran := h'.ran.trans h.ran
  counter := h'.counter.trans h.counter
  num_frames := h.num_frames.trans h'.num_frames
  key f hf := (h'.key f (hf.trans_le h.num_frames)).trans (h.key f hf)
  in_heap f hf := (h'.in_heap f (hf.trans_le h.num_frames)).trans (h.in_heap f hf)
  new f hf hin := by
    by_cases hlt : f < e₁.num_frames
    · rw [h'.in_heap f hlt] at hin
      exact h.new f hf hin
    · exact h.new f hf (h'.new f (not_lt.mp hlt) hin)
  time := h.time.trans h'.time

lemma quiet_updateFrame (f : FrameId) (u : Frame → Frame) (hkey : ∀ x, (u x).key = x.key)
    (hin : ∀ x, (u x).in_heap = x.in_heap) : Quiet e (e.updateFrame f u) := by
  have hframe : ∀ g, ((e.updateFrame f u).frames g).key = (e.frames g).key ∧
      ((e.updateFrame f u).frames g).in_heap = (e.frames g).in_heap := by
    intro g
    by_cases hg : g = f
    · rw [hg, updateFrame_self]
      exact ⟨hkey _, hin _⟩
    · rw [updateFrame_of_ne _ _ hg]
      exact ⟨rfl, rfl⟩
  refine ⟨rfl, rfl, rfl, rfl, le_rfl, fun g _ => (hframe g).1, fun g _ => (hframe g).2, ?_,
    le_rfl⟩
  intro g _ h
  rwa [(hframe g).2] at h

lemma newFrame_self (e : Engine) : e.newFrame.1.frames e.num_frames = {} := by
  apply Function.update_self

lemma quiet_newFrame (e : Engine) : Quiet e e.newFrame.1 := by
  have hframe : ∀ f, f ≠ e.num_frames → e.newFrame.1.frames f = e.frames f := by
    intro f hf
    apply Function.update_of_ne hf
  refine ⟨rfl, rfl, rfl, rfl, Nat.le_succ _, ?_, ?_, ?_, le_rfl⟩
  · intro f hf
    rw [hframe f hf.ne]
  · intro f hf
    rw [hframe f hf.ne]
  · intro f _ h
    by_cases hf : f = e.num_frames
    · rw [hf, newFrame_self] at h
      cases h
    · rwa [hframe f hf] at h

lemma quiet_linkFrame (f : FrameId) (event : Option EventId) (parent : Option FrameId) :
    Quiet e (e.linkFrame f event parent) :=
  quiet_updateFrame f _ (fun _ => rfl) fun _ => rfl

lemma Quiet.named (hq : Quiet e e') {n : ℕ} (hn : e'.num_frames ≤ n) :
    Quiet e { e' with num_frames := n } :=
  ⟨hq.heap, hq.scheduled, hq.ran, hq.counter, hq.num_frames.trans hn, hq.key, hq.in_heap, hq.new,
    hq.time⟩

lemma quiet_queueFrame (f : FrameId) (event : Option EventId) : Quiet e (e.queueFrame f event) :=
  (quiet_updateFrame f (fun frame =>
    { frame with wakeup_event := event, in_queue := event.isSome }) (fun _ => rfl)
    fun _ => rfl).named (le_max_left _ _)

lemma quiet_setEvent (f : FrameId) (event : EventId) : Quiet e (e.setEvent f event) :=
  quiet_updateFrame f _ (fun _ => rfl) fun _ => rfl

lemma quiet_of_eq (hframes : e'.frames = e.frames) (hheap : e'.heap = e.heap)
    (hscheduled : e'.scheduled = e.scheduled) (hran : e'.ran = e.ran)
    (hcounter : e'.schedule_sequence_counter = e.schedule_sequence_counter)
    (hnum : e'.num_frames = e.num_frames) (htime : e.current_time ≤ e'.current_time) :
    Quiet e e' := by
  refine ⟨hheap, hscheduled, hran, hcounter, hnum.ge, ?_, ?_, ?_, htime⟩ <;> intro f _ <;>
    rw [hframes]
  exact id

inductive Change (op : Op) (w : World) (e' : Engine) : Prop
  | quiet (h : Quiet w.engine e')
      (hdrain : e'.draining → e'.current_time = w.engine.current_time ∧
        (w.engine.draining ∨ ∃ max_events, op = .startDrain max_events))
  | insert (e₁ : Engine) (f : FrameId) (event : EventId) (cycle_time after period : ℕ)
      (before : Quiet w.engine e₁) (free : (e₁.frames f).in_heap = false)
      (notQueued : (e₁.frames f).in_queue = false)
      (now : e₁.current_time = w.engine.current_time) (mode₁ : e₁.mode = w.engine.mode)
      (cycle : w.engine.cycleTime event = some cycle_time) (positive : cycle_time ≠ 0)
      (requested : World.request w op = some (event, after) ∨ ¬ w.engine.draining)
      (after : Quiet (e₁.insert event f (e₁.timeAfter cycle_time after) period) e')
      (same : e'.current_time = w.engine.current_time) (mode : e'.mode = w.engine.mode)
  | extract (f : FrameId) (event : EventId) (now : ℕ) (top : w.engine.heapTop = some f)
      (due : (now = w.engine.current_time ∧ (w.engine.frames f).time ≤ now) ∨
        (w.engine.draining ∧ now = (w.engine.frames f).time))
      (after : Quiet (w.engine.extract f event now) e') (same : e'.current_time = now)
      (mode : e'.draining → w.engine.draining)

lemma schedule_cases {event : Option EventId} {frame : Option FrameId} {after period : ℕ}
    (h : e.Schedule event frame after period = some e') :
    e' = e ∨ ∃ f ev cycle_time, frame = some f ∧ event = some ev ∧ (e.frames f).in_heap = false ∧
      (e.frames f).in_queue = false ∧ e.cycleTime ev = some cycle_time ∧ cycle_time ≠ 0 ∧
      e' = e.insert ev f (e.timeAfter cycle_time after) period := by
  unfold Engine.Schedule at h
  cases frame with
  | none => cases h
  | some f =>
    simp only [] at h
    split_ifs at h with hqueue hheap hlocked
    · exact .inl (Option.some.inj h).symm
    · cases event with
      | none => exact .inl (Option.some.inj h).symm
      | some ev =>
        simp only [] at h
        split_ifs at h with hnull
        · exact .inl (Option.some.inj h).symm
        · right
          obtain ⟨cycle_time, hcycle, h⟩ := Option.bind_eq_some_iff.mp h
          split_ifs at h with hzero
          exact ⟨f, ev, cycle_time, rfl, rfl, by simpa using hheap, by simpa using hqueue, hcycle,
            hzero, (Option.some.inj h).symm⟩

lemma change_of_schedule {event : Option EventId} {frame : Option FrameId} {after period : ℕ}
    (hquiet : Quiet w.engine e₁) (htime : e₁.current_time = w.engine.current_time)
    (hmode₁ : e₁.mode = w.engine.mode)
    (hcycle : ∀ ev, e₁.cycleTime ev = w.engine.cycleTime ev)
    (hreq : ∀ ev, event = some ev →
      World.request w op = some (ev, after) ∨ ¬ w.engine.draining)
    (h : e₁.Schedule event frame after period = some e) (hafter : Quiet e e')
    (hsame : e'.current_time = e.current_time) (hmode : e'.mode = e.mode) : Change op w e' := by
  rcases schedule_cases h with rfl | ⟨f, ev, cycle_time, rfl, rfl, hfree, hqueue, hct, hzero, rfl⟩
  · refine .quiet (hquiet.trans hafter) fun ⟨n, m, hdrain⟩ => ⟨hsame.trans htime, .inl ⟨n, m, ?_⟩⟩
    rw [← hmode₁, ← hmode, hdrain]
  · exact .insert e₁ f ev cycle_time after period hquiet hfree hqueue htime hmode₁
      ((hcycle ev).symm.trans hct) hzero (hreq ev rfl) hafter (hsame.trans htime)
      (hmode.trans hmode₁)

lemma change_of_quiet (hquiet : Quiet w.engine e') (htime : e'.current_time = w.engine.current_time)
    (hmode : e'.draining → w.engine.draining) : Change op w e' :=
  .quiet hquiet fun h => ⟨htime, .inl (hmode h)⟩

section Register

lemma quiet_body (d : FrequencyDomain) :
    Quiet e (Engine.UpdateFastestFrequency.body e d) ∧
      (Engine.UpdateFastestFrequency.body e d).current_time = e.current_time ∧
      (Engine.UpdateFastestFrequency.body e d).mode = e.mode := by
  unfold Engine.UpdateFastestFrequency.body
  by_cases h : e.fastest_frequency < d.frequency
  · rw [if_pos h]
    exact ⟨quiet_of_eq rfl rfl rfl rfl rfl rfl le_rfl, rfl, rfl⟩
  · rw [if_neg h]
    exact ⟨.refl e, rfl, rfl⟩

lemma quiet_foldl_body (domains : List FrequencyDomain) (e : Engine) :
    Quiet e (domains.foldl Engine.UpdateFastestFrequency.body e) ∧
      (domains.foldl Engine.UpdateFastestFrequency.body e).current_time = e.current_time ∧
      (domains.foldl Engine.UpdateFastestFrequency.body e).mode = e.mode := by
  induction domains generalizing e with
  | nil => exact ⟨.refl e, rfl, rfl⟩
  | cons d domains ih =>
    obtain ⟨hquiet, htime, hmode⟩ := quiet_body (e := e) d
    obtain ⟨hrest, htimes, hmodes⟩ := ih (Engine.UpdateFastestFrequency.body e d)
    exact ⟨hquiet.trans hrest, htimes.trans htime, hmodes.trans hmode⟩

lemma change_registerFrequencyDomain {frequency : ℕ}
    (h : w.engine.RegisterFrequencyDomain frequency = some e') : Change op w e' := by
  unfold Engine.RegisterFrequencyDomain at h
  simp only [] at h
  split_ifs at h with hzero hlt
  · obtain rfl := Option.some.inj h
    exact change_of_quiet (quiet_of_eq rfl rfl rfl rfl rfl rfl le_rfl) rfl id
  · obtain rfl := Option.some.inj h
    exact change_of_quiet (quiet_of_eq rfl rfl rfl rfl rfl rfl le_rfl) rfl id

lemma change_setFrequency {domain : DomainId} {frequency : ℕ}
    (h : w.engine.setFrequency domain frequency = some e') : Change op w e' := by
  unfold Engine.setFrequency at h
  split_ifs at h with hzero
  obtain rfl := Option.some.inj h
  obtain ⟨hquiet, htime, hmode⟩ := quiet_foldl_body
    (w.engine.frequency_domains.set domain (FrequencyDomain.new frequency))
    { w.engine with
      frequency_domains := w.engine.frequency_domains.set domain (FrequencyDomain.new frequency)
      fastest_frequency := 0, shortest_cycle_time := 0 }
  have hreset : Quiet w.engine { w.engine with
      frequency_domains := w.engine.frequency_domains.set domain (FrequencyDomain.new frequency)
      fastest_frequency := 0, shortest_cycle_time := 0 } :=
    quiet_of_eq rfl rfl rfl rfl rfl rfl le_rfl
  refine change_of_quiet (hreset.trans hquiet) htime ?_
  rintro ⟨n, m, hdrain⟩
  exact ⟨n, m, hmode.symm.trans hdrain⟩

end Register

section Calls

lemma change_next {event : Option EventId} {after period : ℕ}
    (h : w.engine.Next event after period = some e') : Change (.next event after period) w e' := by
  have hreq : ∀ ev, event = some ev →
      World.request w (.next event after period) = some (ev, after) ∨ ¬ w.engine.draining := by
    intro ev hev
    left
    rw [hev]
    rfl
  unfold Engine.Next at h
  cases hcurrent : w.engine.current_frame with
  | some f =>
    rw [hcurrent] at h
    exact change_of_schedule (.refl _) rfl rfl (fun _ => rfl) hreq h (.refl _) rfl rfl
  | none =>
    rw [hcurrent] at h
    exact change_of_schedule (quiet_newFrame _) rfl rfl (fun _ => rfl) hreq h (.refl _) rfl rfl

lemma change_call {event return_event : Option EventId} {frame : Option FrameId} {after period : ℕ}
    (h : w.engine.Call event frame return_event after period = some e') :
    Change (.call event frame return_event after period) w e' := by
  have hreq : ∀ ev, event = some ev →
      World.request w (.call event frame return_event after period) = some (ev, after) ∨
        ¬ w.engine.draining := by
    intro ev hev
    left
    rw [hev]
    rfl
  unfold Engine.Call at h
  cases frame with
  | some f =>
    exact change_of_schedule (quiet_linkFrame f _ _) rfl rfl (fun _ => rfl) hreq h (.refl _) rfl rfl
  | none =>
    exact change_of_schedule
      ((quiet_newFrame _).trans (quiet_linkFrame _ _ _)) rfl rfl (fun _ => rfl) hreq h (.refl _) rfl rfl

lemma change_return {after : ℕ} (h : w.engine.Return after = some e') :
    Change (.ret after) w e' := by
  unfold Engine.Return at h
  cases hcurrent : w.engine.current_frame with
  | none =>
    rw [hcurrent] at h
    cases h
  | some f =>
    rw [hcurrent] at h
    simp only [] at h
    cases hret : (w.engine.frames f).return_event with
    | none =>
      rw [hret] at h
      obtain rfl := Option.some.inj h
      exact change_of_quiet (.refl _) rfl id
    | some event =>
      rw [hret] at h
      refine change_of_schedule (.refl _) rfl rfl (fun _ => rfl) ?_ h (.refl _) rfl rfl
      intro ev hev
      left
      rw [World.request, hcurrent, Option.bind_eq_bind, Option.bind_some, hret, hev]
      rfl

lemma change_execute {event receive_event : Option EventId} {f : FrameId}
    (h : w.engine.Execute event f receive_event = some e') : Change op w e' := by
  unfold Engine.Execute at h
  cases event with
  | none =>
    obtain rfl := Option.some.inj h
    exact change_of_quiet (.refl _) rfl id
  | some event =>
    simp only [] at h
    split_ifs at h with hnull
    · obtain rfl := Option.some.inj h
      exact change_of_quiet (.refl _) rfl id
    · obtain rfl := Option.some.inj h
      exact change_of_quiet ((quiet_linkFrame f receive_event w.engine.current_frame).trans
        (quiet_of_eq rfl rfl rfl rfl rfl rfl le_rfl)) rfl id

lemma change_executeEnd (h : w.engine.executeEnd = some e') : Change op w e' := by
  unfold Engine.executeEnd at h
  cases hsaved : w.engine.saved with
  | nil =>
    rw [hsaved] at h
    cases h
  | cons old saved =>
    rw [hsaved] at h
    obtain rfl := Option.some.inj h
    exact change_of_quiet (quiet_of_eq rfl rfl rfl rfl rfl rfl le_rfl) rfl id

lemma change_EndEvent {event : Option EventId} (h : w.engine.EndEvent event = some e') :
    Change op w e' := by
  unfold Engine.EndEvent at h
  cases event with
  | none =>
    obtain rfl := Option.some.inj h
    exact change_of_quiet (.refl _) rfl id
  | some event =>
    simp only [] at h
    split_ifs at h with hnull
    · obtain rfl := Option.some.inj h
      exact change_of_quiet (.refl _) rfl id
    · obtain rfl := Option.some.inj h
      exact change_of_quiet ((quiet_newFrame _).trans
        ((quiet_setEvent w.engine.newFrame.2 event).trans
          (quiet_of_eq rfl rfl rfl rfl rfl rfl le_rfl))) rfl id

lemma change_of_call (h : World.call w.engine op = some e') : Change op w e' := by
  cases op with
  | registerFrequencyDomain frequency => exact change_registerFrequencyDomain h
  | setFrequency domain frequency => exact change_setFrequency h
  | registerEvent domain =>
    obtain rfl := Option.some.inj h
    exact change_of_quiet (quiet_of_eq rfl rfl rfl rfl rfl rfl le_rfl) rfl id
  | newFrame =>
    obtain rfl := Option.some.inj h
    exact change_of_quiet (quiet_newFrame _) rfl id
  | schedule event f after period =>
    rw [World.call] at h
    refine change_of_schedule (.refl _) rfl rfl (fun _ => rfl) ?_ h (.refl _) rfl rfl
    intro ev hev
    left
    rw [hev]
    rfl
  | next event after period => exact change_next h
  | call event frame return_event after period => exact change_call h
  | ret after => exact change_return h
  | execute event f receive_event => exact change_execute h
  | executeEnd => exact change_executeEnd h
  | atEnd event => exact change_EndEvent h
  | _ => cases h

end Calls

section Loops

lemma not_draining_of_mode {mode : Mode} (h : e.mode = mode)
    (hmode : ∀ n m, mode ≠ .draining n m) : ¬ e.draining := by
  rintro ⟨n, m, hdrain⟩
  exact hmode n m (h.symm.trans hdrain)

lemma change_processEvent (h : w.engine.processEvent = some e') : Change op w e' := by
  unfold Engine.processEvent at h
  split at h
  case h_1 f hmode hrunning htop =>
    split_ifs at h with hlt hbusy
    obtain ⟨event, -, rfl⟩ := Option.map_eq_some_iff.mp h
    exact .extract f event w.engine.current_time htop (.inl ⟨rfl, not_lt.mp hlt⟩)
      (quiet_of_eq rfl rfl rfl rfl rfl rfl le_rfl) rfl id
  case h_2 => cases h

lemma change_nextCycle (h : w.engine.nextCycle = some e') : Change op w e' := by
  unfold Engine.nextCycle at h
  split at h
  case h_1 hmode hrunning =>
    split_ifs at h with hdue
    obtain rfl := Option.some.inj h
    refine .quiet (quiet_of_eq rfl rfl rfl rfl rfl rfl (Nat.le_add_right _ _)) fun hdrain => ?_
    exact absurd hdrain (not_draining_of_mode rfl (by simp))
  case h_2 => cases h

lemma change_drainEvent (h : w.engine.drainEvent = some e') : Change op w e' := by
  unfold Engine.drainEvent at h
  split at h
  case h_1 n m f hmode hrunning htop =>
    split_ifs at h with hbusy
    obtain ⟨event, -, rfl⟩ := Option.map_eq_some_iff.mp h
    exact .extract f event (w.engine.frames f).time htop (.inr ⟨⟨n, m, hmode⟩, rfl⟩)
      (quiet_of_eq rfl rfl rfl rfl rfl rfl le_rfl) rfl fun _ => ⟨n, m, hmode⟩
  case h_2 => cases h

lemma change_handlerEnd (h : w.engine.handlerEnd = some e') : Change op w e' := by
  have hend : ∀ e₂ : Engine, Quiet e₂ { e₂ with current_frame := none, running := none } :=
    fun _ => quiet_of_eq rfl rfl rfl rfl rfl rfl le_rfl
  unfold Engine.handlerEnd at h
  split at h
  case h_1 event hrunning hsaved =>
    obtain ⟨e₁, he₁, rfl⟩ := Option.map_eq_some_iff.mp h
    unfold Engine.afterHandler at he₁
    split at he₁
    case h_1 f hmode hcurrent =>
      split_ifs at he₁ with hperiod
      · exact change_of_schedule (.refl _) rfl rfl (fun _ => rfl)
          (fun _ _ => .inr (not_draining_of_mode hmode (by simp))) he₁ (hend _) rfl rfl
      · obtain rfl := Option.some.inj he₁
        exact change_of_quiet (hend _) rfl id
    case h_2 n m hmode =>
      split_ifs at he₁ with hmax
      · obtain rfl := Option.some.inj he₁
        exact change_of_quiet (quiet_of_eq rfl rfl rfl rfl rfl rfl le_rfl) rfl
          fun _ => ⟨n, m, hmode⟩
      · obtain rfl := Option.some.inj he₁
        exact change_of_quiet (hend _) rfl id
    case h_3 =>
      obtain rfl := Option.some.inj he₁
      exact change_of_quiet (hend _) rfl id
  case h_2 => cases h

lemma change_of_mode {mode : Mode} (hmode : ∀ n m, mode ≠ .draining n m) :
    Change op w { w.engine with mode := mode } :=
  change_of_quiet (quiet_of_eq rfl rfl rfl rfl rfl rfl le_rfl) rfl
    fun h => absurd h (not_draining_of_mode rfl hmode)

lemma change_of_loop (h : World.loop w.engine op = some e') : Change op w e' := by
  cases op with
  | startProcess =>
    rw [World.loop] at h
    split_ifs at h with hout
    obtain rfl := Option.some.inj h
    exact change_of_mode (by simp)
  | processEvent => exact change_processEvent h
  | nextCycle => exact change_nextCycle h
  | startDrain max_events =>
    rw [World.loop] at h
    split_ifs at h with hout
    obtain rfl := Option.some.inj h
    exact .quiet (quiet_of_eq rfl rfl rfl rfl rfl rfl le_rfl) fun _ => ⟨rfl, .inr ⟨_, rfl⟩⟩
  | drainEvent => exact change_drainEvent h
  | drainEnd =>
    rw [World.loop, Engine.drainEnd] at h
    split at h
    case h_1 =>
      obtain rfl := Option.some.inj h
      exact change_of_mode (by simp)
    case h_2 => cases h
  | startEnd =>
    rw [World.loop] at h
    split_ifs at h with hout
    obtain rfl := Option.some.inj h
    exact change_of_mode (by simp)
  | endEvent =>
    rw [World.loop, Engine.endEvent] at h
    split at h
    case h_1 f end_frames hmode' hrunning hframes =>
      split_ifs at h with hbusy
      obtain ⟨event, -, rfl⟩ := Option.map_eq_some_iff.mp h
      exact change_of_quiet (quiet_of_eq rfl rfl rfl rfl rfl rfl le_rfl) rfl id
    case h_2 => cases h
  | endEnd =>
    rw [World.loop] at h
    split_ifs at h with hout
    obtain rfl := Option.some.inj h
    exact change_of_mode (by simp)
  | handlerEnd => exact change_handlerEnd h
  | _ => cases h

end Loops

section Queues

variable {queue : QueueId} {frames : List FrameId} {x : Engine × List FrameId}

lemma change_wait {event : Option EventId} {priority : Bool}
    (h : w.engine.wait frames event priority = some x) : Change op w x.1 := by
  unfold Engine.wait at h
  split at h
  case h_1 f event hcurrent =>
    split_ifs at h with hheap hwakeup <;> obtain rfl := Option.some.inj h <;>
      exact change_of_quiet (quiet_queueFrame f (some event)) rfl id
  case h_2 => cases h

lemma change_wakeupOne (h : w.engine.wakeupOne (w.queues queue) = some x) :
    Change (.wakeupOne queue) w x.1 := by
  unfold Engine.wakeupOne at h
  split at h
  case h_1 => cases h
  case h_2 f rest hqueue =>
    split at h
    case h_1 => cases h
    case h_2 event hevent =>
      obtain ⟨e₁, he₁, rfl⟩ := Option.map_eq_some_iff.mp h
      refine change_of_schedule (quiet_queueFrame f none) rfl rfl (fun _ => rfl) ?_ he₁
        (.refl _) rfl rfl
      intro ev hev
      left
      rw [World.request, hqueue, List.head?_cons, Option.bind_eq_bind, Option.bind_some, hevent,
        Option.some.inj hev]
      rfl

end Queues

/-- Every step is one change. -/
theorem step_change (h : World.step op w = some w') : Change op w w'.engine := by
  unfold World.step at h
  split at h
  case h_1 queue event priority =>
    split_ifs at h with hcallable
    obtain ⟨x, hx, rfl⟩ := Option.map_eq_some_iff.mp h
    exact change_wait hx
  case h_2 queue =>
    split_ifs at h with hcallable
    obtain ⟨x, hx, rfl⟩ := Option.map_eq_some_iff.mp h
    exact change_wakeupOne hx
  case h_3 =>
    split_ifs at h with hcallable
    · obtain ⟨e, he, rfl⟩ := Option.map_eq_some_iff.mp h
      exact change_of_call he
    · obtain ⟨e, he, rfl⟩ := Option.map_eq_some_iff.mp h
      exact change_of_loop he

end OISA.Esim
