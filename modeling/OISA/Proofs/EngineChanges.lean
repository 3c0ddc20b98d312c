import OISA.Proofs.EngineSteps

/-!
# What operations of the engine are made of

The operations that work on no queue are made of few elementary changes.
-/

namespace OISA.Esim

variable {R : Engine → Engine → Prop} {e e' : Engine} {w w' : World} {op : Op}

/-- The frames, the heap, the event types and the history are the same, and time has not gone
back. -/
structure Outside (e e' : Engine) : Prop where
  frames : e'.frames = e.frames
  num_frames : e'.num_frames = e.num_frames
  heap : e'.heap = e.heap
  events : e'.events = e.events
  locked : e'.locked = e.locked
  scheduled : e'.scheduled = e.scheduled
  ran : e'.ran = e.ran
  counter : e'.schedule_sequence_counter = e.schedule_sequence_counter
  time : e.current_time ≤ e'.current_time

lemma Outside.quiet (h : Outside e e') : Quiet e e' :=
  quiet_of_eq h.frames h.heap h.scheduled h.ran h.counter h.num_frames h.time

/-- The elementary changes are in the relation, and it can be chained. -/
structure Closed (R : Engine → Engine → Prop) : Prop where
  trans : ∀ {e e₁ e₂}, R e e₁ → R e₁ e₂ → R e e₂
  outside : ∀ {e e'}, Outside e e' → R e e'
  registerEvent : ∀ e domain, R e (e.RegisterEvent domain)
  newFrame : ∀ e, R e e.newFrame.1
  linkFrame : ∀ e f return_event parent_frame, R e (e.linkFrame f return_event parent_frame)
  endFrame : ∀ e event, R e (e.newFrame.1.setEvent e.newFrame.2 event)
  schedule : ∀ {e e' event frame after period},
    e.Schedule event frame after period = some e' → R e e'
  process : ∀ {e f event}, e.heapTop = some f → (e.frames f).event = some event →
    R e ((e.extract f event e.current_time).addInFlight event (-1))

namespace Closed

lemma refl (hR : Closed R) (e : Engine) : R e e :=
  hR.outside ⟨rfl, rfl, rfl, rfl, rfl, rfl, rfl, rfl, le_rfl⟩

lemma foldl_body (hR : Closed R) (domains : List FrequencyDomain) (e : Engine) :
    R e (domains.foldl Engine.UpdateFastestFrequency.body e) := by
  induction domains generalizing e with
  | nil => exact hR.refl e
  | cons d domains ih =>
    refine hR.trans ?_ (ih (Engine.UpdateFastestFrequency.body e d))
    unfold Engine.UpdateFastestFrequency.body
    split_ifs
    · exact hR.outside ⟨rfl, rfl, rfl, rfl, rfl, rfl, rfl, rfl, le_rfl⟩
    · exact hR.refl e

lemma call (hR : Closed R) (h : World.call e op = some e') : R e e' := by
  cases op with
  | registerFrequencyDomain frequency =>
    rw [World.call, Engine.RegisterFrequencyDomain] at h
    simp only [] at h
    split_ifs at h <;> obtain rfl := Option.some.inj h <;>
      exact hR.outside ⟨rfl, rfl, rfl, rfl, rfl, rfl, rfl, rfl, le_rfl⟩
  | setFrequency domain frequency =>
    rw [World.call, Engine.setFrequency] at h
    split_ifs at h
    obtain rfl := Option.some.inj h
    have hreset : R e { e with
        frequency_domains := e.frequency_domains.set domain (FrequencyDomain.new frequency)
        fastest_frequency := 0, shortest_cycle_time := 0 } :=
      hR.outside ⟨rfl, rfl, rfl, rfl, rfl, rfl, rfl, rfl, le_rfl⟩
    exact hR.trans hreset (hR.foldl_body _ _)
  | registerEvent domain =>
    obtain rfl := Option.some.inj h
    exact hR.registerEvent e domain
  | newFrame =>
    obtain rfl := Option.some.inj h
    exact hR.newFrame e
  | schedule event f after period =>
    rw [World.call] at h
    exact hR.schedule h
  | next event after period =>
    rw [World.call, Engine.Next] at h
    split at h
    · exact hR.schedule h
    · exact hR.trans (hR.newFrame e) (hR.schedule h)
  | call event frame return_event after period =>
    rw [World.call] at h
    unfold Engine.Call at h
    split at h
    · exact hR.trans (hR.linkFrame ..) (hR.schedule h)
    · exact hR.trans (hR.newFrame e) (hR.trans (hR.linkFrame ..) (hR.schedule h))
  | ret after =>
    rw [World.call, Engine.Return] at h
    split at h
    · cases h
    · split at h
      · obtain rfl := Option.some.inj h
        exact hR.refl _
      · exact hR.schedule h
  | execute event f receive_event =>
    rw [World.call] at h
    unfold Engine.Execute at h
    split at h
    · obtain rfl := Option.some.inj h
      exact hR.refl _
    · split_ifs at h <;> obtain rfl := Option.some.inj h
      · exact hR.refl _
      · exact hR.trans (hR.linkFrame e f receive_event e.current_frame)
          (hR.outside ⟨rfl, rfl, rfl, rfl, rfl, rfl, rfl, rfl, le_rfl⟩)
  | executeEnd =>
    rw [World.call, Engine.executeEnd] at h
    split at h
    · cases h
    · obtain rfl := Option.some.inj h
      exact hR.outside ⟨rfl, rfl, rfl, rfl, rfl, rfl, rfl, rfl, le_rfl⟩
  | atEnd event =>
    rw [World.call] at h
    unfold Engine.EndEvent at h
    split at h
    · obtain rfl := Option.some.inj h
      exact hR.refl _
    · split_ifs at h <;> obtain rfl := Option.some.inj h
      · exact hR.refl _
      · exact hR.trans (hR.endFrame e _)
          (hR.outside ⟨rfl, rfl, rfl, rfl, rfl, rfl, rfl, rfl, le_rfl⟩)
  | _ => cases h

lemma handlerEnd (hR : Closed R) (h : e.handlerEnd = some e') : R e e' := by
  unfold Engine.handlerEnd at h
  split at h
  case h_1 event hrunning hsaved =>
    obtain ⟨e₁, he₁, rfl⟩ := Option.map_eq_some_iff.mp h
    have hlast : R e₁ { e₁ with current_frame := none, running := none } :=
      hR.outside ⟨rfl, rfl, rfl, rfl, rfl, rfl, rfl, rfl, le_rfl⟩
    refine hR.trans ?_ hlast
    unfold Engine.afterHandler at he₁
    split at he₁
    · split_ifs at he₁
      · exact hR.schedule he₁
      · obtain rfl := Option.some.inj he₁
        exact hR.refl _
    · split_ifs at he₁ <;> obtain rfl := Option.some.inj he₁
      · exact hR.outside ⟨rfl, rfl, rfl, rfl, rfl, rfl, rfl, rfl, le_rfl⟩
      · exact hR.refl _
    · obtain rfl := Option.some.inj he₁
      exact hR.refl _
  case h_2 => cases h

lemma loop (hR : Closed R) (hdrain : op = .drainEvent → e.drainEvent = some e' → R e e')
    (h : World.loop e op = some e') : R e e' := by
  cases op with
  | startProcess | startDrain | startEnd | endEnd =>
    rw [World.loop] at h
    split_ifs at h
    obtain rfl := Option.some.inj h
    exact hR.outside ⟨rfl, rfl, rfl, rfl, rfl, rfl, rfl, rfl, le_rfl⟩
  | processEvent =>
    rw [World.loop, Engine.processEvent] at h
    split at h
    case h_1 f hmode hrunning htop =>
      split_ifs at h
      obtain ⟨event, hevent, rfl⟩ := Option.map_eq_some_iff.mp h
      exact hR.process htop hevent
    case h_2 => cases h
  | nextCycle =>
    rw [World.loop, Engine.nextCycle] at h
    split at h
    · split_ifs at h
      obtain rfl := Option.some.inj h
      exact hR.outside ⟨rfl, rfl, rfl, rfl, rfl, rfl, rfl, rfl, Nat.le_add_right _ _⟩
    · cases h
  | drainEvent => exact hdrain rfl h
  | drainEnd =>
    rw [World.loop, Engine.drainEnd] at h
    split at h
    · obtain rfl := Option.some.inj h
      exact hR.outside ⟨rfl, rfl, rfl, rfl, rfl, rfl, rfl, rfl, le_rfl⟩
    · cases h
  | endEvent =>
    rw [World.loop, Engine.endEvent] at h
    split at h
    · split_ifs at h
      obtain ⟨event, -, rfl⟩ := Option.map_eq_some_iff.mp h
      exact hR.outside ⟨rfl, rfl, rfl, rfl, rfl, rfl, rfl, rfl, le_rfl⟩
    · cases h
  | handlerEnd => exact hR.handlerEnd h
  | _ => cases h

end Closed

lemma drainEvent_cases (h : e.drainEvent = some e') :
    ∃ f event, e.heapTop = some f ∧ (e.frames f).event = some event ∧
      Outside (e.extract f event (e.frames f).time) e' := by
  unfold Engine.drainEvent at h
  split at h
  case h_1 n m f hmode hrunning htop =>
    split_ifs at h with hbusy
    obtain ⟨event, hevent, rfl⟩ := Option.map_eq_some_iff.mp h
    exact ⟨f, event, htop, hevent, ⟨rfl, rfl, rfl, rfl, rfl, rfl, rfl, rfl, le_rfl⟩⟩
  case h_2 => cases h

end OISA.Esim
