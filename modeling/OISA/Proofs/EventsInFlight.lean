import OISA.Proofs.EngineFrames

/-!
# Events in flight

Every event type counts its scheduled frames.
-/

namespace OISA.Esim

open OISA.Lib

variable {e e' e₁ : Engine} {w w' : World} {op : Op} {f : FrameId} {event ev : EventId}

/-- Current number of scheduled events of this type, as the event type has it -/
def Engine.inFlight (e : Engine) (event : EventId) : ℤ :=
  (e.events[event]?).elim 0 Event.num_in_flight

/-- The number of frames of this type in the heap -/
def Engine.inHeap (e : Engine) (event : EventId) : ℕ :=
  e.heap.countP fun f => (e.frames f).event = some event

def Engine.excess (e : Engine) (event : EventId) : ℤ := e.inFlight event - e.inHeap event

/-- The frames of the heap have event types that are registered. -/
structure FlightInv (e : Engine) : Prop where
  heap : HeapInv e
  registered : ∀ f ∈ e.heap, ∀ event, (e.frames f).event = some event → event < e.events.length

def Balanced (e e' : Engine) : Prop :=
  FlightInv e → FlightInv e' ∧ ∀ event, e'.excess event = e.excess event

lemma Balanced.refl (e : Engine) : Balanced e e := fun h => ⟨h, fun _ => rfl⟩

lemma Balanced.trans {e₂ : Engine} (h : Balanced e e₁) (h' : Balanced e₁ e₂) : Balanced e e₂ := by
  intro hinv
  obtain ⟨hinv₁, heq⟩ := h hinv
  obtain ⟨hinv₂, heq'⟩ := h' hinv₁
  exact ⟨hinv₂, fun event => (heq' event).trans (heq event)⟩

lemma inHeap_congr (hheap : e'.heap = e.heap)
    (hframes : ∀ f ∈ e.heap, (e'.frames f).event = (e.frames f).event) (event : EventId) :
    e'.inHeap event = e.inHeap event := by
  unfold Engine.inHeap
  rw [hheap]
  apply List.countP_congr
  intro f hf
  rw [hframes f hf]

lemma balanced_of_quiet (hq : Quiet e e') (hlength : e.events.length ≤ e'.events.length)
    (hflight : ∀ event, e'.inFlight event = e.inFlight event)
    (hframes : ∀ f < e.num_frames, (e'.frames f).event = (e.frames f).event) : Balanced e e' := by
  intro hinv
  have hheap : ∀ f ∈ e.heap, (e'.frames f).event = (e.frames f).event :=
    fun f hf => hframes f (hinv.heap.named f hf)
  refine ⟨⟨hinv.heap.quiet hq, ?_⟩, ?_⟩
  · intro f hf event hevent
    rw [hq.heap] at hf
    rw [hheap f hf] at hevent
    exact (hinv.registered f hf event hevent).trans_le hlength
  · intro event
    unfold Engine.excess
    rw [hflight, inHeap_congr hq.heap hheap]

lemma balanced_of_outside (h : Outside e e') : Balanced e e' := by
  apply balanced_of_quiet h.quiet
  · rw [h.events]
  · intro event
    unfold Engine.inFlight
    rw [h.events]
  · intro f _
    rw [h.frames]

lemma balanced_updateFrame (f : FrameId) (u : Frame → Frame)
    (hu : ∀ x, (u x).key = x.key ∧ (u x).in_heap = x.in_heap ∧ (u x).event = x.event) :
    Balanced e (e.updateFrame f u) := by
  apply balanced_of_quiet (quiet_updateFrame f u (fun x => (hu x).1) fun x => (hu x).2.1) le_rfl
  · exact fun _ => rfl
  · intro g _
    by_cases hg : g = f
    · rw [hg, updateFrame_self, (hu _).2.2]
    · rw [updateFrame_of_ne e u hg]

lemma balanced_linkFrame (f : FrameId) (event : Option EventId) (parent : Option FrameId) :
    Balanced e (e.linkFrame f event parent) :=
  balanced_updateFrame f _ fun _ => ⟨rfl, rfl, rfl⟩

lemma balanced_queueFrame (f : FrameId) (event : Option EventId) :
    Balanced e (e.queueFrame f event) := by
  apply balanced_of_quiet (quiet_queueFrame f event) le_rfl
  · exact fun _ => rfl
  · intro g _
    by_cases hg : g = f
    · rw [hg, queueFrame_self]
    · rw [queueFrame_of_ne hg]

lemma newFrame_of_ne (hf : f ≠ e.num_frames) : e.newFrame.1.frames f = e.frames f :=
  Function.update_of_ne hf ..

lemma balanced_newFrame (e : Engine) : Balanced e e.newFrame.1 := by
  apply balanced_of_quiet (quiet_newFrame e) le_rfl
  · exact fun _ => rfl
  · intro f hf
    rw [newFrame_of_ne hf.ne]

lemma balanced_endFrame (e : Engine) (event : EventId) :
    Balanced e (e.newFrame.1.setEvent e.newFrame.2 event) := by
  apply balanced_of_quiet ((quiet_newFrame e).trans (quiet_setEvent _ event)) le_rfl
  · exact fun _ => rfl
  · intro f hf
    have hne : f ≠ e.newFrame.2 := hf.ne
    unfold Engine.setEvent
    rw [updateFrame_of_ne _ _ hne, newFrame_of_ne hf.ne]

lemma balanced_registerEvent (e : Engine) (domain : Option DomainId) :
    Balanced e (e.RegisterEvent domain) := by
  have hq : Quiet e (e.RegisterEvent domain) := quiet_of_eq rfl rfl rfl rfl rfl rfl le_rfl
  apply balanced_of_quiet hq
  · unfold Engine.RegisterEvent
    rw [List.length_append]
    exact Nat.le_add_right _ _
  · intro event
    unfold Engine.inFlight Engine.RegisterEvent
    rw [List.getElem?_append]
    split_ifs with hlt
    · rfl
    · rw [List.getElem?_eq_none (not_lt.mp hlt), List.getElem?_singleton]
      split_ifs <;> rfl
  · exact fun _ _ => rfl

lemma length_addInFlight (e : Engine) (event : EventId) (n : ℤ) :
    (e.addInFlight event n).events.length = e.events.length := List.length_modify _ _ _

lemma inFlight_addInFlight (hevent : event < e.events.length) (n : ℤ) (ev : EventId) :
    (e.addInFlight event n).inFlight ev = e.inFlight ev + if ev = event then n else 0 := by
  unfold Engine.inFlight Engine.addInFlight
  rw [List.getElem?_modify]
  by_cases hev : ev = event
  · subst hev
    rw [List.getElem?_eq_getElem hevent]
    simp
  · cases e.events[ev]? <;> simp [hev, Ne.symm hev]

lemma lt_of_cycleTime {cycle_time : ℕ} (h : e.cycleTime event = some cycle_time) :
    event < e.events.length := by
  obtain ⟨registered, hregistered, -⟩ := Option.bind_eq_some_iff.mp h
  exact (List.getElem?_eq_some_iff.mp hregistered).1

lemma balanced_insert {time period : ℕ} (hevent : event < e.events.length)
    (hfree : (e.frames f).in_heap = false) : Balanced e (e.insert event f time period) := by
  intro hinv
  have hnot : f ∉ e.heap := by
    rw [← hinv.heap.in_heap, hfree]
    exact Bool.false_ne_true
  have hother : ∀ g ∈ e.heap, (e.insert event f time period).frames g = e.frames g := by
    intro g hg
    apply insert_of_ne
    rintro rfl
    exact hnot hg
  refine ⟨⟨hinv.heap.insert hfree, ?_⟩, ?_⟩
  · intro g hg ev hev
    have hlength : (e.insert event f time period).events.length = e.events.length :=
      length_addInFlight _ _ _
    rw [hlength]
    rw [insert_heap, List.mem_cons] at hg
    obtain rfl | hg := hg
    · rw [insert_self] at hev
      obtain rfl := Option.some.inj hev
      exact hevent
    · rw [hother g hg] at hev
      exact hinv.registered g hg ev hev
  · intro ev
    have hflight : (e.insert event f time period).inFlight ev =
        e.inFlight ev + if ev = event then 1 else 0 := inFlight_addInFlight hevent 1 ev
    have hheap : (e.insert event f time period).inHeap ev =
        e.inHeap ev + if ev = event then 1 else 0 := by
      unfold Engine.inHeap
      rw [insert_heap, List.countP_cons, insert_self]
      congr 1
      · apply List.countP_congr
        intro g hg
        rw [hother g hg]
      · simp [eq_comm]
    unfold Engine.excess
    rw [hflight, hheap]
    split_ifs <;> push_cast <;> ring

lemma balanced_schedule {event : Option EventId} {frame : Option FrameId} {after period : ℕ}
    (h : e.Schedule event frame after period = some e') : Balanced e e' := by
  rcases schedule_cases h with rfl | ⟨f, ev, cycle_time, -, -, hfree, -, hcycle, -, rfl⟩
  · exact .refl _
  · exact balanced_insert (lt_of_cycleTime hcycle) hfree

lemma FlightInv.extract (hinv : FlightInv e) (now : ℕ) (htop : e.heapTop = some f)
    (hevent : (e.frames f).event = some event) :
    FlightInv (e.extract f event now) ∧
      ∀ ev, (e.extract f event now).excess ev = e.excess ev + if ev = event then 1 else 0 := by
  have hmem := heapTop_mem htop
  have hother : ∀ g, ((e.extract f event now).frames g).event = (e.frames g).event := by
    intro g
    by_cases hg : g = f
    · rw [hg, extract_self]
    · rw [extract_of_ne _ _ _ hg]
  refine ⟨⟨hinv.heap.extract htop, ?_⟩, ?_⟩
  · intro g hg ev hev
    rw [hother] at hev
    exact hinv.registered g (List.mem_of_mem_erase hg) ev hev
  · intro ev
    have hheap : e.inHeap ev = (e.extract f event now).inHeap ev + if ev = event then 1 else 0 := by
      unfold Engine.inHeap
      rw [(List.perm_cons_erase hmem).countP_eq, List.countP_cons, hevent, extract_heap]
      congr 1
      · apply List.countP_congr
        intro g _
        rw [hother]
      · simp [eq_comm]
    have hflight : (e.extract f event now).inFlight ev = e.inFlight ev := rfl
    unfold Engine.excess
    rw [hflight, hheap]
    split_ifs <;> push_cast <;> ring

lemma balanced_process {now : ℕ} (htop : e.heapTop = some f)
    (hevent : (e.frames f).event = some event) :
    Balanced e ((e.extract f event now).addInFlight event (-1)) := by
  intro hinv
  have hlt : event < e.events.length := hinv.registered f (heapTop_mem htop) event hevent
  obtain ⟨hinv', hexcess⟩ := hinv.extract now htop hevent
  refine ⟨⟨?_, ?_⟩, ?_⟩
  · exact hinv'.heap.quiet (quiet_of_eq rfl rfl rfl rfl rfl rfl le_rfl)
  · intro g hg ev hev
    rw [length_addInFlight]
    exact hinv'.registered g hg ev hev
  · intro ev
    have hless : ((e.extract f event now).addInFlight event (-1)).excess ev =
        (e.extract f event now).excess ev + if ev = event then -1 else 0 := by
      have hheap : ((e.extract f event now).addInFlight event (-1)).inHeap ev =
          (e.extract f event now).inHeap ev := rfl
      have hlt' : event < (e.extract f event now).events.length := hlt
      unfold Engine.excess
      rw [inFlight_addInFlight hlt', hheap]
      ring
    rw [hless, hexcess]
    split_ifs <;> ring

lemma closed_balanced : Closed Balanced where
  trans := Balanced.trans
  outside := balanced_of_outside
  registerEvent := balanced_registerEvent
  newFrame := balanced_newFrame
  linkFrame _ := balanced_linkFrame
  endFrame := balanced_endFrame
  schedule := balanced_schedule
  process := balanced_process

lemma balanced_step (hop : op ≠ .drainEvent) (h : World.step op w = some w') :
    Balanced w.engine w'.engine := by
  unfold World.step at h
  split at h
  case h_1 queue event priority =>
    split_ifs at h with hcallable
    obtain ⟨x, hx, rfl⟩ := Option.map_eq_some_iff.mp h
    unfold Engine.wait at hx
    split at hx
    · split_ifs at hx <;> obtain rfl := Option.some.inj hx <;> exact balanced_queueFrame _ _
    · cases hx
  case h_2 queue =>
    split_ifs at h with hcallable
    obtain ⟨x, hx, rfl⟩ := Option.map_eq_some_iff.mp h
    unfold Engine.wakeupOne at hx
    split at hx
    · cases hx
    · split at hx
      · cases hx
      · obtain ⟨e₁, he₁, rfl⟩ := Option.map_eq_some_iff.mp hx
        exact (balanced_queueFrame _ none).trans (balanced_schedule he₁)
  case h_3 =>
    split_ifs at h with hcallable
    · obtain ⟨e, he, rfl⟩ := Option.map_eq_some_iff.mp h
      exact closed_balanced.call he
    · obtain ⟨e, he, rfl⟩ := Option.map_eq_some_iff.mp h
      exact closed_balanced.loop (fun hdrain => absurd hdrain hop) he

lemma drainEvent_excess (hinv : FlightInv w.engine) (h : World.step .drainEvent w = some w') :
    FlightInv w'.engine ∧ ∃ event, ∀ ev,
      w'.engine.excess ev = w.engine.excess ev + if ev = event then 1 else 0 := by
  obtain ⟨e, hcall | he, rfl⟩ := call_or_loop rfl h
  · cases hcall
  obtain ⟨f, event, htop, hevent, houtside⟩ := drainEvent_cases he
  obtain ⟨hinv', hexcess⟩ := hinv.extract _ htop hevent
  obtain ⟨hlast, hsame⟩ := balanced_of_outside houtside hinv'
  refine ⟨hlast, event, ?_⟩
  intro ev
  exact (hsame ev).trans (hexcess ev)

lemma flightInv_empty : FlightInv {} := ⟨heapInv_empty, fun _ hf => absurd hf List.not_mem_nil⟩

lemma excess_empty (event : EventId) : ({} : Engine).excess event = 0 := by
  cases event with
  | zero => rfl
  | succ event => rfl

lemma FlightInv.run {ops : List Op} (h : FlightInv w.engine)
    (hrun : Lib.run World.step ops w = some w') :
    (∀ event, w.engine.excess event ≤ w'.engine.excess event) ∧
      (Op.drainEvent ∉ ops → ∀ event, w'.engine.excess event = w.engine.excess event) ∧
      (Op.drainEvent ∈ ops → ∃ event, w.engine.excess event < w'.engine.excess event) := by
  induction ops generalizing w with
  | nil =>
    rw [run_nil, Option.some.injEq] at hrun
    subst hrun
    exact ⟨fun _ => le_rfl, fun _ _ => rfl, fun hmem => absurd hmem List.not_mem_nil⟩
  | cons op ops ih =>
    rw [run_cons, Option.bind_eq_some_iff] at hrun
    obtain ⟨w₁, hstep, hrun⟩ := hrun
    by_cases hop : op = .drainEvent
    · subst hop
      obtain ⟨h₁, event, hexcess⟩ := drainEvent_excess h hstep
      obtain ⟨hle, -, -⟩ := ih h₁ hrun
      refine ⟨?_, ?_, ?_⟩
      · intro ev
        refine le_trans ?_ (hle ev)
        rw [hexcess]
        split_ifs <;> omega
      · intro hnot
        exact absurd List.mem_cons_self hnot
      · intro _
        refine ⟨event, lt_of_lt_of_le ?_ (hle event)⟩
        rw [hexcess, if_pos rfl]
        exact lt_add_one _
    · obtain ⟨h₁, hsame⟩ := balanced_step hop hstep h
      obtain ⟨hle, hquiet, hdrained⟩ := ih h₁ hrun
      rw [List.mem_cons, not_or]
      refine ⟨?_, ?_, ?_⟩
      · intro ev
        rw [← hsame]
        exact hle ev
      · intro hnot ev
        rw [hquiet hnot.2, hsame]
      · intro hmem
        obtain ⟨event, hlt⟩ := hdrained (hmem.resolve_left (Ne.symm hop))
        refine ⟨event, ?_⟩
        rw [← hsame]
        exact hlt

/-- After a run the counters of all event types are the numbers of their frames in the heap exactly
when `Drain` has taken no event out of the heap. -/
theorem run_inFlight_iff {ops : List Op} (hrun : run World.step ops {} = some w) :
    (∀ event, w.engine.inFlight event = w.engine.inHeap event) ↔ Op.drainEvent ∉ ops := by
  obtain ⟨-, hquiet, hdrained⟩ := flightInv_empty.run hrun
  have hiff : ∀ event, w.engine.inFlight event = w.engine.inHeap event ↔
      w.engine.excess event = 0 := fun _ => sub_eq_zero.symm
  simp only [hiff]
  constructor
  · intro hzero hmem
    obtain ⟨event, hlt⟩ := hdrained hmem
    rw [hzero, excess_empty] at hlt
    exact lt_irrefl 0 hlt
  · intro hnot event
    rw [hquiet hnot, excess_empty]

def processOne : List Op :=
  [.registerFrequencyDomain 1000, .registerEvent (some 0), .schedule (some 1) 0 0 0,
    .startProcess, .processEvent, .handlerEnd, .nextCycle]

def drainOne : List Op :=
  processOne ++ [.schedule (some 1) 1 0 0, .startDrain 10, .drainEvent, .handlerEnd, .drainEnd]

theorem run_inFlight_iff_processOne : ∃ w, run World.step processOne {} = some w ∧
    ∀ event, w.engine.inFlight event = w.engine.inHeap event := by
  have hrun : (run World.step processOne {}).isSome := by decide +kernel
  obtain ⟨w, hrun⟩ := Option.isSome_iff_exists.mp hrun
  exact ⟨w, hrun, (run_inFlight_iff hrun).mpr (by decide)⟩

/-- The heap is empty, and the event type still has an event in flight. -/
theorem drainOne_inFlight : ∃ w, run World.step drainOne {} = some w ∧
    w.engine.inFlight 1 = 1 ∧ w.engine.inHeap 1 = 0 := by
  have hcounts : (run World.step drainOne {}).map
      (fun w => (w.engine.inFlight 1, w.engine.inHeap 1)) = some (1, 0) := by
    decide +kernel
  obtain ⟨w, hrun, heq⟩ := Option.map_eq_some_iff.mp hcounts
  obtain ⟨hflight, hheap⟩ := Prod.mk.inj heq
  exact ⟨w, hrun, hflight, hheap⟩

end OISA.Esim
