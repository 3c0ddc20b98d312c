import OISA.Memory.DirectoryLocks
import OISA.Proofs.EngineFrames

/-!
# No waiter on an unlocked entry

Frames wait for a directory entry only while it is locked.
-/

namespace OISA.Memory.DirectoryLocks

open OISA.Esim OISA.Lib

variable {find_and_lock : EventId} {s s' : DirectoryLocks} {w w' : World} {op : Op} {i : ℕ}

/-- The frames that wait for a lock, from the head of the queue. -/
def waiters (s : DirectoryLocks) (i : ℕ) : List FrameId := s.world.queues i

/-- The frames recorded for a lock. -/
def framesOf (i : ℕ) (records : List (ℕ × FrameId)) : List FrameId :=
  (records.filter (·.1 = i)).map (·.2)

structure LockInv (find_and_lock : EventId) (s : DirectoryLocks) : Prop where
  idle : ∀ i < s.num_locks, s.access_id i = 0 → s.waiters i = []
  owner : ∀ i, s.access_id i ≠ 0 →
    ∃ r, s.locked.find? (·.lock = i) = some r ∧ r.access_id = s.access_id i
  once : ∀ i < s.num_locks, framesOf i s.waits = (s.waiters i).reverse ++ framesOf i s.wakes
  event : ∀ i < s.num_locks, ∀ f ∈ s.waiters i,
    (s.world.engine.frames f).wakeup_event = some find_and_lock
  suspended : QueueInv s.world
  engine : s.world.engine.locked = false

lemma lockInv_new (num_sets num_ways : ℕ) :
    LockInv find_and_lock { num_sets := num_sets, num_ways := num_ways } where
  idle _ _ _ := rfl
  owner _ h := absurd rfl h
  once _ _ := rfl
  event _ _ f hf := by cases hf
  suspended := queueInv_empty
  engine := rfl

section Records

lemma framesOf_append (xs ys : List (ℕ × FrameId)) :
    framesOf i (xs ++ ys) = framesOf i xs ++ framesOf i ys := by
  rw [framesOf, List.filter_append, List.map_append]
  rfl

lemma framesOf_self (fs : List FrameId) : framesOf i (fs.map fun f => (i, f)) = fs := by
  induction fs with
  | nil => rfl
  | cons f fs ih =>
    rw [List.map_cons, framesOf, List.filter_cons_of_pos (by simp), List.map_cons]
    exact congrArg (f :: ·) ih

lemma framesOf_of_ne {j : ℕ} (h : j ≠ i) (fs : List FrameId) :
    framesOf i (fs.map fun f => (j, f)) = [] := by
  induction fs with
  | nil => rfl
  | cons f fs ih =>
    rw [List.map_cons, framesOf, List.filter_cons_of_neg (by simpa using h)]
    exact ih

end Records

section Queues

lemma queue_of_step {op : Esim.Op} {q : QueueId} (hinv : QueueInv w)
    (hother : ∀ event priority, op ≠ .wait q event priority) (hother' : op ≠ .wakeupOne q)
    (hstep : World.step op w = some w') :
    w'.queues q = w.queues q ∧ ∀ f ∈ w.queues q,
      (w'.engine.frames f).wakeup_event = (w.engine.frames f).wakeup_event := by
  by_cases hqueue : op.isQueue = false
  · obtain ⟨hqueues, hstill⟩ := step_of_not_isQueue hqueue hstep
    rw [hqueues]
    exact ⟨rfl, fun f hf => hstill.wakeup f (hinv.named q f hf)⟩
  · cases op with
    | wait r event priority =>
      obtain ⟨f, ev, -, -, -, hfree, hengine, hqueues⟩ := wait_cases hstep
      have hne : q ≠ r := fun hcontra => hother event priority (by rw [hcontra])
      rw [hqueues, Function.update_of_ne hne]
      refine ⟨rfl, ?_⟩
      intro g hg
      have hgf : g ≠ f := by
        rintro rfl
        rw [hinv.in_queue q g hg] at hfree
        cases hfree
      rw [hengine, queueFrame_of_ne hgf]
    | wakeupOne r =>
      obtain ⟨f, rest, event, hhead, -, hschedule, hqueues⟩ := wakeupOne_cases hstep
      have hne : q ≠ r := fun hcontra => hother' (by rw [hcontra])
      rw [hqueues, Function.update_of_ne hne]
      refine ⟨rfl, ?_⟩
      intro g hg
      have hgf : g ≠ f := by
        rintro rfl
        exact hinv.disjoint q r hne g hg (by rw [hhead]; exact List.mem_cons_self)
      rw [(scheduled_of_schedule hschedule).others g hgf, queueFrame_of_ne hgf]
    | _ => exact absurd rfl hqueue

lemma insert_scheduled {e : Engine} (event : EventId) (f : FrameId) (time period : ℕ) :
    (e.insert event f time period).scheduled.map Ticket.frame = f :: e.scheduled.map Ticket.frame :=
  rfl

/-- All frames of the queue are scheduled with their event, once each and in their order. -/
lemma wakeupAll_spec {q : QueueId} (hnull : find_and_lock ≠ null_event) (fs : List FrameId)
    (hqueue : w.queues q = fs) (hinv : QueueInv w) (hlocked : w.engine.locked = false)
    (hevent : ∀ f ∈ fs, (w.engine.frames f).wakeup_event = some find_and_lock)
    (h : WakeupAll q fs.length w = some w') :
    w'.queues = Function.update w.queues q [] ∧ QueueInv w' ∧ w'.engine.locked = false ∧
      w'.engine.scheduled.map Ticket.frame = fs.reverse ++ w.engine.scheduled.map Ticket.frame ∧
      (∀ f ∈ fs, (w'.engine.frames f).in_heap = true ∧
        (w'.engine.frames f).event = some find_and_lock) ∧
      ∀ g, g ∉ fs → w'.engine.frames g = w.engine.frames g := by
  induction fs generalizing w with
  | nil =>
    obtain rfl := Option.some.inj h
    refine ⟨?_, hinv, hlocked, rfl, ?_, fun _ _ => rfl⟩
    · rw [← hqueue, Function.update_eq_self]
    · intro f hf
      cases hf
  | cons f rest ih =>
    rw [List.length_cons, WakeupAll, hqueue, List.isEmpty_cons, if_neg Bool.false_ne_true] at h
    obtain ⟨w₁, hw₁, h⟩ := Option.bind_eq_some_iff.mp h
    obtain ⟨g, rest', event, hhead, hwakeup, hschedule, hqueues⟩ := wakeupOne_cases hw₁
    rw [hqueue] at hhead
    obtain ⟨rfl, rfl⟩ := List.cons.inj hhead
    rw [hevent f List.mem_cons_self] at hwakeup
    obtain rfl := Option.some.inj hwakeup
    have hlocked' : (w.engine.queueFrame f none).locked = false := hlocked
    obtain ⟨time, hengine, -, -⟩ := schedule_registered hlocked' hnull hschedule
    have hnodup : f ∉ rest := by
      have hnodup := hinv.nodup q
      rw [hqueue, List.nodup_cons] at hnodup
      exact hnodup.1
    have hothers : ∀ g, g ≠ f → w₁.engine.frames g = w.engine.frames g := by
      intro g hg
      rw [hengine, insert_of_ne _ _ _ _ hg, queueFrame_of_ne hg]
    have hqueue₁ : w₁.queues q = rest := by rw [hqueues, Function.update_self]
    have hlocked₁ : w₁.engine.locked = false := by
      rw [locked_step hw₁]
      exact hlocked
    have hevent₁ : ∀ g ∈ rest, (w₁.engine.frames g).wakeup_event = some find_and_lock := by
      intro g hg
      have hgf : g ≠ f := fun hcontra => hnodup (hcontra ▸ hg)
      rw [hothers g hgf]
      exact hevent g (List.mem_cons_of_mem f hg)
    obtain ⟨hqueues', hinv', hlocked', hscheduled, hheap, hrest⟩ :=
      ih hqueue₁ (hinv.step hw₁) hlocked₁ hevent₁ h
    refine ⟨?_, hinv', hlocked', ?_, ?_, ?_⟩
    · rw [hqueues', hqueues, Function.update_idem]
    · rw [hscheduled, hengine, insert_scheduled, List.reverse_cons, List.append_assoc]
      rfl
    · intro g hg
      rw [List.mem_cons] at hg
      by_cases hgf : g = f
      · rw [hgf, hrest f hnodup, hengine, insert_self]
        exact ⟨rfl, rfl⟩
      · exact hheap g (hg.resolve_left hgf)
    · intro g hg
      rw [List.mem_cons, not_or] at hg
      rw [hrest g hg.2, hothers g hg.1]

end Queues

section Steps

lemma lockIndex_lt {set_id way_id : ℕ} (h : s.inRange set_id way_id = true) :
    s.lockIndex set_id way_id < s.num_locks := by
  rw [inRange, Bool.and_eq_true, decide_eq_true_iff, decide_eq_true_iff] at h
  have hle : (set_id + 1) * s.num_ways ≤ s.num_sets * s.num_ways := Nat.mul_le_mul_right _ h.1
  rw [lockIndex, num_locks]
  rw [Nat.succ_mul] at hle
  omega

lemma lockEntry_cases {set_id way_id access_id : ℕ}
    (h : s.LockEntry set_id way_id find_and_lock access_id = some s') :
    access_id ≠ 0 ∧ s.lockIndex set_id way_id < s.num_locks ∧
      ((s.access_id (s.lockIndex set_id way_id) = 0 ∧
        s' = { s with
          access_id := Function.update s.access_id (s.lockIndex set_id way_id) access_id
          locked := ⟨s.lockIndex set_id way_id, s.world.engine.current_frame, access_id⟩ ::
            s.locked }) ∨
      (s.access_id (s.lockIndex set_id way_id) ≠ 0 ∧ ∃ f world,
        s.world.engine.current_frame = some f ∧
        World.step (.wait (s.lockIndex set_id way_id) (some find_and_lock) false) s.world =
          some world ∧
        s' = { s with world := world, waits := (s.lockIndex set_id way_id, f) :: s.waits })) := by
  simp only [LockEntry] at h
  split_ifs at h with hassert hlocked
  · rw [not_or, Bool.not_eq_false] at hassert
    obtain ⟨world, hworld, rfl⟩ := Option.map_eq_some_iff.mp h
    obtain ⟨f, ev, hcurrent, -⟩ := wait_cases hworld
    refine ⟨hassert.1, lockIndex_lt hassert.2, .inr ⟨hlocked, f, world, hcurrent, hworld, ?_⟩⟩
    rw [hcurrent]
    rfl
  · rw [not_or, Bool.not_eq_false] at hassert
    refine ⟨hassert.1, lockIndex_lt hassert.2, .inl ⟨not_not.mp hlocked, ?_⟩⟩
    exact (Option.some.inj h).symm

lemma unlockEntry_cases {set_id way_id access_id : ℕ}
    (h : s.UnlockEntry set_id way_id access_id = some s') :
    s.lockIndex set_id way_id < s.num_locks ∧ access_id ≠ 0 ∧
      s.access_id (s.lockIndex set_id way_id) = access_id ∧
      ∃ world, WakeupAll (s.lockIndex set_id way_id)
          (s.waiters (s.lockIndex set_id way_id)).length s.world = some world ∧
        s' = { s with
          world := world
          access_id := Function.update s.access_id (s.lockIndex set_id way_id) 0
          wakes := ((s.waiters (s.lockIndex set_id way_id)).reverse.map
            fun f => (s.lockIndex set_id way_id, f)) ++ s.wakes } := by
  simp only [UnlockEntry] at h
  split_ifs at h with hassert
  rw [not_or, not_or, Bool.not_eq_false, not_not] at hassert
  obtain ⟨hrange, hlocked, rfl⟩ := hassert
  obtain ⟨world, hworld, rfl⟩ := Option.map_eq_some_iff.mp h
  exact ⟨lockIndex_lt hrange, hlocked, rfl, world, hworld, rfl⟩

lemma LockInv.esim (h : LockInv find_and_lock s) {op : Esim.Op} {world : World}
    (hop : s.onLockQueue op = false) (hstep : World.step op s.world = some world) :
    LockInv find_and_lock { s with world := world } ∧
      ∀ i < s.num_locks, world.queues i = s.waiters i := by
  have hqueue : ∀ i < s.num_locks, world.queues i = s.waiters i ∧ ∀ f ∈ s.waiters i,
      (world.engine.frames f).wakeup_event = (s.world.engine.frames f).wakeup_event := by
    intro i hi
    apply queue_of_step h.suspended _ _ hstep
    · rintro event priority rfl
      simp [onLockQueue, hi] at hop
    · rintro rfl
      simp [onLockQueue, hi] at hop
  refine ⟨⟨?_, h.owner, ?_, ?_, h.suspended.step hstep, ?_⟩, fun i hi => (hqueue i hi).1⟩
  · intro i hi hzero
    exact (hqueue i hi).1.trans (h.idle i hi hzero)
  · intro i hi
    rw [waiters, (hqueue i hi).1]
    exact h.once i hi
  · intro i hi f hf
    rw [waiters, (hqueue i hi).1] at hf
    rw [(hqueue i hi).2 f hf]
    exact h.event i hi f hf
  · rw [locked_step hstep]
    exact h.engine

lemma LockInv.lock (h : LockInv find_and_lock s) {access_id : ℕ} (hid : access_id ≠ 0)
    (frame : Option FrameId) :
    LockInv find_and_lock { s with
      access_id := Function.update s.access_id i access_id
      locked := ⟨i, frame, access_id⟩ :: s.locked } where
  idle j hj hzero := by
    dsimp only at hzero
    by_cases hji : j = i
    · rw [hji, Function.update_self] at hzero
      exact absurd hzero hid
    · rw [Function.update_of_ne hji] at hzero
      exact h.idle j hj hzero
  owner j hj := by
    dsimp only at hj ⊢
    by_cases hji : j = i
    · rw [hji, Function.update_self]
      exact ⟨_, List.find?_cons_of_pos (by simp), rfl⟩
    · rw [Function.update_of_ne hji] at hj ⊢
      obtain ⟨r, hr, hid⟩ := h.owner j hj
      exact ⟨r, (List.find?_cons_of_neg (by simpa using Ne.symm hji)).trans hr, hid⟩
  once := h.once
  event := h.event
  suspended := h.suspended
  engine := h.engine

lemma LockInv.wait (h : LockInv find_and_lock s) {f : FrameId} {world : World}
    (hlocked : s.access_id i ≠ 0) (hcurrent : s.world.engine.current_frame = some f)
    (hstep : World.step (.wait i (some find_and_lock) false) s.world = some world) :
    LockInv find_and_lock { s with world := world, waits := (i, f) :: s.waits } ∧
      world.queues = Function.update s.world.queues i (s.waiters i ++ [f]) := by
  have hinv := h.suspended.step hstep
  have hengine' : world.engine.locked = false := by
    rw [locked_step hstep]
    exact h.engine
  obtain ⟨g, ev, hg, hev, -, hfree, hengine, hqueues⟩ := wait_cases hstep
  obtain rfl := Option.some.inj (hcurrent.symm.trans hg)
  obtain rfl := Option.some.inj hev
  rw [if_neg Bool.false_ne_true] at hqueues
  refine ⟨⟨?_, h.owner, ?_, ?_, hinv, hengine'⟩, hqueues⟩
  · intro j hj hzero
    have hji : j ≠ i := fun hcontra => hlocked (hcontra ▸ hzero)
    rw [waiters, hqueues, Function.update_of_ne hji]
    exact h.idle j hj hzero
  · intro j hj
    change framesOf j ([f].map (fun f => (i, f)) ++ s.waits) = _
    change _ = (world.queues j).reverse ++ framesOf j s.wakes
    rw [framesOf_append, hqueues, h.once j hj]
    by_cases hji : j = i
    · rw [hji, framesOf_self, Function.update_self, List.reverse_append]
      rfl
    · rw [framesOf_of_ne (Ne.symm hji), Function.update_of_ne hji]
      rfl
  · intro j hj g hg
    rw [waiters, hqueues] at hg
    have hcases : g = f ∨ g ∈ s.waiters j := by
      by_cases hji : j = i
      · rw [hji, Function.update_self, List.mem_append, List.mem_singleton] at hg
        rw [hji]
        exact hg.symm
      · rw [Function.update_of_ne hji] at hg
        exact .inr hg
    by_cases hgf : g = f
    · rw [hgf, hengine, queueFrame_self]
    · rw [hengine, queueFrame_of_ne hgf]
      exact h.event j hj g (hcases.resolve_left hgf)

/-- The entry is unlocked, and its frames are woken up. -/
lemma LockInv.unlock (h : LockInv find_and_lock s) (hnull : find_and_lock ≠ null_event)
    (hi : i < s.num_locks) {world : World}
    (hwakeup : WakeupAll i (s.waiters i).length s.world = some world) :
    LockInv find_and_lock { s with
        world := world
        access_id := Function.update s.access_id i 0
        wakes := ((s.waiters i).reverse.map fun f => (i, f)) ++ s.wakes } ∧
      world.queues = Function.update s.world.queues i [] ∧
      world.engine.scheduled.map Ticket.frame =
        (s.waiters i).reverse ++ s.world.engine.scheduled.map Ticket.frame ∧
      ∀ f ∈ s.waiters i, (world.engine.frames f).in_heap = true ∧
        (world.engine.frames f).event = some find_and_lock := by
  obtain ⟨hqueues, hinv, hlocked, hscheduled, hheap, hothers⟩ :=
    wakeupAll_spec hnull (s.waiters i) rfl h.suspended h.engine (h.event i hi) hwakeup
  refine ⟨⟨?_, ?_, ?_, ?_, hinv, hlocked⟩, hqueues, hscheduled, hheap⟩
  · intro j hj hzero
    dsimp only at hzero
    rw [waiters, hqueues]
    by_cases hji : j = i
    · rw [hji, Function.update_self]
    · rw [Function.update_of_ne hji] at hzero ⊢
      exact h.idle j hj hzero
  · intro j hj
    dsimp only at hj ⊢
    by_cases hji : j = i
    · rw [hji, Function.update_self] at hj
      exact absurd rfl hj
    · rw [Function.update_of_ne hji] at hj ⊢
      exact h.owner j hj
  · intro j hj
    change _ = (world.queues j).reverse ++ framesOf j _
    rw [framesOf_append, hqueues, h.once j hj]
    by_cases hji : j = i
    · rw [hji, framesOf_self, Function.update_self]
      rfl
    · rw [framesOf_of_ne (Ne.symm hji), Function.update_of_ne hji]
      rfl
  · intro j hj g hg
    rw [waiters, hqueues] at hg
    by_cases hji : j = i
    · rw [hji, Function.update_self] at hg
      cases hg
    · rw [Function.update_of_ne hji] at hg
      have hnot : g ∉ s.waiters i := h.suspended.disjoint j i hji g hg
      rw [hothers g hnot]
      exact h.event j hj g hg

lemma LockInv.step (h : LockInv find_and_lock s) (hnull : find_and_lock ≠ null_event)
    (hstep : DirectoryLocks.step find_and_lock op s = some s') : LockInv find_and_lock s' := by
  cases op with
  | esim op =>
    rw [DirectoryLocks.step] at hstep
    split_ifs at hstep with hop
    obtain ⟨world, hworld, rfl⟩ := Option.map_eq_some_iff.mp hstep
    exact (h.esim (by simpa using hop) hworld).1
  | lockEntry set_id way_id access_id =>
    rw [DirectoryLocks.step] at hstep
    split_ifs at hstep
    obtain ⟨hid, -, hcases⟩ := lockEntry_cases hstep
    cases hcases with
    | inl hfree =>
      rw [hfree.2]
      exact h.lock hid _
    | inr hwait =>
      obtain ⟨hlocked, f, world, hcurrent, hworld, rfl⟩ := hwait
      exact (h.wait hlocked hcurrent hworld).1
  | unlockEntry set_id way_id access_id =>
    rw [DirectoryLocks.step] at hstep
    split_ifs at hstep
    obtain ⟨hi, -, -, world, hworld, rfl⟩ := unlockEntry_cases hstep
    exact (h.unlock hnull hi hworld).1

lemma num_locks_step (hstep : step find_and_lock op s = some s') :
    s'.num_locks = s.num_locks := by
  cases op with
  | esim op =>
    rw [step] at hstep
    split_ifs at hstep
    obtain ⟨world, -, rfl⟩ := Option.map_eq_some_iff.mp hstep
    rfl
  | lockEntry set_id way_id access_id =>
    rw [step] at hstep
    split_ifs at hstep
    obtain ⟨-, -, hcases⟩ := lockEntry_cases hstep
    cases hcases with
    | inl hfree =>
      rw [hfree.2]
      rfl
    | inr hwait =>
      obtain ⟨-, f, world, -, -, rfl⟩ := hwait
      rfl
  | unlockEntry set_id way_id access_id =>
    rw [step] at hstep
    split_ifs at hstep
    obtain ⟨-, -, -, world, -, rfl⟩ := unlockEntry_cases hstep
    rfl

lemma LockInv.waiters_step (h : LockInv find_and_lock s) (hnull : find_and_lock ≠ null_event)
    (hi : i < s.num_locks) (hstep : DirectoryLocks.step find_and_lock op s = some s')
    (hother : ∀ set_id way_id access_id, op = .unlockEntry set_id way_id access_id →
      s.lockIndex set_id way_id ≠ i) : ∃ more, s'.waiters i = s.waiters i ++ more := by
  cases op with
  | esim op =>
    rw [DirectoryLocks.step] at hstep
    split_ifs at hstep with hop
    obtain ⟨world, hworld, rfl⟩ := Option.map_eq_some_iff.mp hstep
    refine ⟨[], ?_⟩
    rw [List.append_nil]
    exact (h.esim (by simpa using hop) hworld).2 i hi
  | lockEntry set_id way_id access_id =>
    rw [DirectoryLocks.step] at hstep
    split_ifs at hstep
    obtain ⟨-, -, hcases⟩ := lockEntry_cases hstep
    cases hcases with
    | inl hfree =>
      refine ⟨[], ?_⟩
      rw [hfree.2, List.append_nil]
      rfl
    | inr hwait =>
      obtain ⟨hlocked, f, world, hcurrent, hworld, rfl⟩ := hwait
      have hqueues := (h.wait hlocked hcurrent hworld).2
      by_cases hindex : i = s.lockIndex set_id way_id
      · refine ⟨[f], ?_⟩
        rw [waiters, hqueues, ← hindex, Function.update_self]
      · refine ⟨[], ?_⟩
        rw [waiters, hqueues, Function.update_of_ne hindex, List.append_nil]
        rfl
  | unlockEntry set_id way_id access_id =>
    rw [DirectoryLocks.step] at hstep
    split_ifs at hstep
    obtain ⟨hindex, -, -, world, hworld, rfl⟩ := unlockEntry_cases hstep
    have hne := (hother set_id way_id access_id rfl).symm
    refine ⟨[], ?_⟩
    rw [waiters, (h.unlock hnull hindex hworld).2.1, Function.update_of_ne hne, List.append_nil]
    rfl

end Steps

/-- After any run: frames wait for an entry only while it is locked, and the access that has the
lock is the one that last obtained it. -/
theorem run_locks {num_sets num_ways : ℕ} {ops : List Op} (hnull : find_and_lock ≠ null_event)
    (hrun : run (step find_and_lock) ops { num_sets := num_sets, num_ways := num_ways } = some s) :
    (∀ i < num_sets * num_ways, s.waiters i ≠ [] → s.access_id i ≠ 0) ∧
    (∀ i, s.access_id i ≠ 0 →
      ∃ r, s.locked.find? (·.lock = i) = some r ∧ r.access_id = s.access_id i) ∧
    (∀ i < num_sets * num_ways,
      framesOf i s.waits = (s.waiters i).reverse ++ framesOf i s.wakes ∧ (s.waiters i).Nodup ∧
        ∀ j, j ≠ i → ∀ f ∈ s.waiters i, f ∉ s.waiters j) ∧
    ∀ op s', step find_and_lock op s = some s' →
      (∀ i < num_sets * num_ways,
        (∀ set_id way_id access_id, op = .unlockEntry set_id way_id access_id →
          s.lockIndex set_id way_id ≠ i) → ∃ more, s'.waiters i = s.waiters i ++ more) ∧
      (∀ set_id way_id access_id, op = .unlockEntry set_id way_id access_id →
        s'.waiters (s.lockIndex set_id way_id) = [] ∧
          s'.world.engine.scheduled.map Ticket.frame =
            (s.waiters (s.lockIndex set_id way_id)).reverse ++
              s.world.engine.scheduled.map Ticket.frame ∧
          ∀ f ∈ s.waiters (s.lockIndex set_id way_id),
            (s'.world.engine.frames f).in_heap = true ∧
              (s'.world.engine.frames f).event = some find_and_lock) ∧
      (∀ set_id way_id access_id, op = .lockEntry set_id way_id access_id →
        s.access_id (s.lockIndex set_id way_id) = 0 →
          s'.access_id (s.lockIndex set_id way_id) = access_id ∧
            s'.locked = ⟨s.lockIndex set_id way_id, s.world.engine.current_frame, access_id⟩ ::
              s.locked) := by
  have hinv : LockInv find_and_lock s ∧ s.num_locks = num_sets * num_ways := by
    apply run_invariant (P := fun _ _ => True)
      (Q := fun s => LockInv find_and_lock s ∧ s.num_locks = num_sets * num_ways) _ _
      (along_of_forall (fun _ _ => trivial) ops _) hrun
    · rintro op s s' ⟨hinv, hnum⟩ - hstep
      exact ⟨hinv.step hnull hstep, (num_locks_step hstep).trans hnum⟩
    · exact ⟨lockInv_new num_sets num_ways, rfl⟩
  obtain ⟨hinv, hnum⟩ := hinv
  rw [← hnum]
  refine ⟨?_, hinv.owner, ?_, ?_⟩
  · intro i hi hwaiters hzero
    exact hwaiters (hinv.idle i hi hzero)
  · intro i hi
    refine ⟨hinv.once i hi, hinv.suspended.nodup i, ?_⟩
    intro j hji f hf
    exact hinv.suspended.disjoint i j (Ne.symm hji) f hf
  · intro op s' hstep
    refine ⟨?_, ?_, ?_⟩
    · intro i hi hother
      exact hinv.waiters_step hnull hi hstep hother
    · rintro set_id way_id access_id rfl
      rw [step] at hstep
      split_ifs at hstep
      obtain ⟨hindex, -, -, world, hworld, rfl⟩ := unlockEntry_cases hstep
      obtain ⟨-, hqueues, hscheduled, hheap⟩ := hinv.unlock hnull hindex hworld
      refine ⟨?_, hscheduled, hheap⟩
      rw [waiters, hqueues, Function.update_self]
    · rintro set_id way_id access_id rfl hfree
      rw [step] at hstep
      split_ifs at hstep
      obtain ⟨-, -, hcases⟩ := lockEntry_cases hstep
      cases hcases with
      | inl hlock =>
        rw [hlock.2]
        exact ⟨Function.update_self _ _ _, rfl⟩
      | inr hwait => exact absurd hfree hwait.1

section Examples

def contended : List Op :=
  [.esim (.registerFrequencyDomain 1000), .esim (.registerEvent (some 0)),
    .esim (.schedule (some 1) 0 0 0), .esim (.schedule (some 1) 1 0 0),
    .esim (.schedule (some 1) 2 0 0), .esim .startProcess,
    .esim .processEvent, .lockEntry 1 1 1, .esim .handlerEnd,
    .esim .processEvent, .lockEntry 1 1 2, .esim .handlerEnd,
    .esim .processEvent, .lockEntry 1 1 3, .unlockEntry 1 1 1]

theorem run_locks_contended :
    ∃ s, run (step 1) contended { num_sets := 2, num_ways := 2 } = some s ∧
      (s.waiters 3 ≠ [] → s.access_id 3 ≠ 0) ∧ framesOf 3 s.wakes = [2, 1] := by
  have hwakes : (run (step 1) contended { num_sets := 2, num_ways := 2 }).map
      (fun s => framesOf 3 s.wakes) = some [2, 1] := by
    decide +kernel
  obtain ⟨s, hs, hwakes⟩ := Option.map_eq_some_iff.mp hwakes
  exact ⟨s, hs, (run_locks (by decide) hs).1 3 (by decide), hwakes⟩

end Examples

end OISA.Memory.DirectoryLocks
