import OISA.Esim.Queue
import OISA.Lib.Linked
import OISA.Proofs.EngineFrames

/-!
# The list of a queue

The pointers of the queues and of the frames describe one list of frames for each queue
(`Describes`), and the operations on them do to the lists what `World` does.
-/

namespace OISA.Esim

open OISA.Lib

variable {s s' : QueueState} {w w' : World} {op : Op} {q r : QueueId} {f : FrameId}
  {lists : QueueId → List FrameId} {e e' : Engine}

/-- The abstract queues: a frame goes to the end of its queue, with priority to the front of it, and
the frame that is woken up is the first one. -/
def Move.apply (move : Move) (lists : QueueId → List FrameId) : Option (QueueId → List FrameId) :=
  match move with
  | .suspend queue frame priority =>
    some (Function.update lists queue
      (if priority then frame :: lists queue else lists queue ++ [frame]))
  | .wake queue frame =>
    match lists queue with
    | [] => none
    | first :: rest => if first = frame then some (Function.update lists queue rest) else none

lemma Move.apply_wake {rest : List FrameId} (hlist : lists q = f :: rest) :
    Move.apply (.wake q f) lists = some (Function.update lists q rest) := by
  simp [Move.apply, hlist]

/-- The pointers describe the lists: a frame in no list has no link. -/
structure Describes (s : QueueState) (lists : QueueId → List FrameId) : Prop where
  head : ∀ q, s.head q = (lists q).head?
  tail : ∀ q, s.tail q = (lists q).getLast?
  chained : ∀ q, Chained s.next (lists q)
  free : ∀ f, (∀ q, f ∉ lists q) → s.next f = none

structure Separate (lists : QueueId → List FrameId) : Prop where
  nodup : ∀ q, (lists q).Nodup
  disjoint : ∀ q r, q ≠ r → ∀ f ∈ lists q, f ∉ lists r

lemma QueueInv.separate (h : QueueInv w) : Separate w.queues := ⟨h.nodup, h.disjoint⟩

section Pointers

lemma not_mem_lists (hq : f ∉ lists q) (hother : ∀ r, r ≠ q → f ∉ lists r) (r : QueueId) :
    f ∉ lists r := by
  by_cases hr : r = q
  · rw [hr]
    exact hq
  · exact hother r hr

lemma Describes.unlinked (h : Describes s lists) (hqueue : (s.engine.frames f).in_queue = false)
    (hf : ∀ r, f ∉ lists r) : ¬ ((s.engine.frames f).in_queue ∨ (s.next f).isSome) := by
  rw [hqueue, h.free f hf]
  simp

lemma Describes.replace {list : List FrameId} (h : Describes s lists)
    (hhead : s'.head q = list.head?) (htail : s'.tail q = list.getLast?)
    (hheads : ∀ r, r ≠ q → s'.head r = s.head r) (htails : ∀ r, r ≠ q → s'.tail r = s.tail r)
    (hlist : Chained s'.next list) (hnext : ∀ r, r ≠ q → ∀ f ∈ lists r, s'.next f = s.next f)
    (hfree : ∀ f, f ∉ list → (∀ r, r ≠ q → f ∉ lists r) → s'.next f = none) :
    Describes s' (Function.update lists q list) := by
  constructor
  case head =>
    intro r
    by_cases hr : r = q
    · rw [hr, Function.update_self, hhead]
    · rw [Function.update_of_ne hr, hheads r hr, h.head]
  case tail =>
    intro r
    by_cases hr : r = q
    · rw [hr, Function.update_self, htail]
    · rw [Function.update_of_ne hr, htails r hr, h.tail]
  case chained =>
    intro r
    by_cases hr : r = q
    · rw [hr, Function.update_self]
      exact hlist
    · rw [Function.update_of_ne hr]
      exact (h.chained r).congr (hnext r hr)
  case free =>
    intro f hf
    apply hfree f
    · have hq := hf q
      rwa [Function.update_self] at hq
    · intro r hr
      have hfr := hf r
      rwa [Function.update_of_ne hr] at hfr

lemma Describes.isEmpty (h : Describes s lists) : s.isEmpty q = (lists q).isEmpty := by
  unfold QueueState.isEmpty
  rw [h.head]
  cases lists q <;> rfl

lemma Describes.single (h : Describes s lists) (hnil : lists q = []) (hf : ∀ r, f ∉ lists r) :
    Describes { s with
      head := Function.update s.head q (some f)
      tail := Function.update s.tail q (some f) } (Function.update lists q [f]) := by
  apply h.replace
  · exact Function.update_self ..
  · exact Function.update_self ..
  · exact fun r hr => Function.update_of_ne hr ..
  · exact fun r hr => Function.update_of_ne hr ..
  · exact ⟨h.free f hf, trivial⟩
  · exact fun _ _ _ _ => rfl
  · intro g _ hother
    apply h.free
    apply not_mem_lists _ hother
    rw [hnil]
    exact List.not_mem_nil

lemma Describes.pushBack (h : Describes s lists) (hsep : Separate lists)
    (hqueue : (s.engine.frames f).in_queue = false) (hf : ∀ r, f ∉ lists r) :
    ∃ s', s.PushBack q f = some s' ∧ s'.engine = s.engine ∧ s'.moves = s.moves ∧
      Describes s' (Function.update lists q (lists q ++ [f])) := by
  have hnext := h.free f hf
  unfold QueueState.PushBack
  rw [if_neg (h.unlinked hqueue hf), h.head, h.tail]
  cases hlast : (lists q).getLast? with
  | none =>
    have hnil : lists q = [] := List.getLast?_eq_none_iff.mp hlast
    rw [hnil]
    exact ⟨_, rfl, rfl, rfl, h.single hnil hf⟩
  | some last =>
    have hmem : last ∈ lists q := List.mem_of_getLast? hlast
    obtain ⟨first, rest, hlist⟩ := List.exists_cons_of_ne_nil (List.ne_nil_of_mem hmem)
    have hend : s.next last = none := (h.chained q).next_getLast hlast
    have hhead : (lists q).head? = some first := by
      rw [hlist]
      rfl
    simp only [hhead, hend, Option.isSome_none, Bool.false_eq_true, if_false]
    refine ⟨_, rfl, rfl, rfl, h.replace ?_ ?_ ?_ ?_ ?_ ?_ ?_⟩
    · rw [h.head, List.head?_append, hhead]
      rfl
    · rw [List.getLast?_concat]
      exact Function.update_self ..
    · exact fun _ _ => rfl
    · exact fun r hr => Function.update_of_ne hr ..
    · exact (h.chained q).append hlast (hsep.nodup q) (hf q) hnext
    · intro r hr g hg
      apply Function.update_of_ne
      rintro rfl
      exact hsep.disjoint r q hr g hg hmem
    · intro g hg hother
      rw [List.mem_append, not_or] at hg
      have hne : g ≠ last := by
        rintro rfl
        exact hg.1 hmem
      rw [← h.free g (not_mem_lists hg.1 hother)]
      exact Function.update_of_ne hne ..

lemma Describes.pushFront (h : Describes s lists)
    (hqueue : (s.engine.frames f).in_queue = false) (hf : ∀ r, f ∉ lists r) :
    ∃ s', s.PushFront q f = some s' ∧ s'.engine = s.engine ∧ s'.moves = s.moves ∧
      Describes s' (Function.update lists q (f :: lists q)) := by
  unfold QueueState.PushFront
  rw [if_neg (h.unlinked hqueue hf), h.head, h.tail]
  cases hlast : (lists q).getLast? with
  | none =>
    have hnil : lists q = [] := List.getLast?_eq_none_iff.mp hlast
    rw [hnil]
    exact ⟨_, rfl, rfl, rfl, h.single hnil hf⟩
  | some last =>
    have hmem : last ∈ lists q := List.mem_of_getLast? hlast
    obtain ⟨first, rest, hlist⟩ := List.exists_cons_of_ne_nil (List.ne_nil_of_mem hmem)
    have hend : s.next last = none := (h.chained q).next_getLast hlast
    have hhead : (lists q).head? = some first := by
      rw [hlist]
      rfl
    simp only [hhead, hend, Option.isSome_none, Bool.false_eq_true, if_false]
    refine ⟨_, rfl, rfl, rfl, h.replace ?_ ?_ ?_ ?_ ?_ ?_ ?_⟩
    · exact Function.update_self ..
    · rw [h.tail, hlist, List.getLast?_cons_cons]
    · exact fun r hr => Function.update_of_ne hr ..
    · exact fun _ _ => rfl
    · have hcons := (h.chained q).cons (hf q)
      rwa [hhead] at hcons
    · intro r _ g hg
      apply Function.update_of_ne
      rintro rfl
      exact hf r hg
    · intro g hg hother
      rw [List.mem_cons, not_or] at hg
      rw [← h.free g (not_mem_lists hg.2 hother)]
      exact Function.update_of_ne hg.1 ..

lemma Describes.popFront {rest : List FrameId} (h : Describes s lists) (hsep : Separate lists)
    (hlist : lists q = f :: rest) :
    ∃ s', s.PopFront q = some (s', some f) ∧ s'.engine = s.engine ∧ s'.moves = s.moves ∧
      Describes s' (Function.update lists q rest) := by
  obtain ⟨hnext, hchain⟩ : s.next f = rest.head? ∧ Chained s.next rest := by
    have hchained := h.chained q
    rwa [hlist] at hchained
  have hnodup : f ∉ rest := by
    have hnodup := hsep.nodup q
    rw [hlist] at hnodup
    exact (List.nodup_cons.mp hnodup).1
  have hothers : ∀ g, g ≠ f → Function.update s.next f none g = s.next g :=
    fun g hg => Function.update_of_ne hg ..
  have hrest : Chained (Function.update s.next f none) rest := by
    apply hchain.congr
    intro g hg
    apply hothers
    rintro rfl
    exact hnodup hg
  have hlists : ∀ r, r ≠ q → ∀ g ∈ lists r, Function.update s.next f none g = s.next g := by
    intro r hr g hg
    apply hothers
    rintro rfl
    apply hsep.disjoint r q hr g hg
    rw [hlist]
    exact List.mem_cons_self
  have hfree : ∀ g, g ∉ rest → (∀ r, r ≠ q → g ∉ lists r) →
      Function.update s.next f none g = none := by
    intro g hg hother
    by_cases hgf : g = f
    · rw [hgf, Function.update_self]
    · rw [hothers g hgf]
      apply h.free
      apply not_mem_lists _ hother
      rw [hlist, List.mem_cons, not_or]
      exact ⟨hgf, hg⟩
  have hhead : s.head q = some f := by
    rw [h.head, hlist]
    rfl
  unfold QueueState.PopFront
  simp only [hhead]
  by_cases htail : s.tail q = some f
  · rw [if_pos htail]
    -- the only frame of the queue
    have hnil : rest = [] := by
      rw [h.tail, hlist] at htail
      cases rest with
      | nil => rfl
      | cons g rest =>
        rw [List.getLast?_cons_cons] at htail
        exact absurd (List.mem_of_getLast? htail) hnodup
    subst hnil
    refine ⟨_, rfl, rfl, rfl, h.replace ?_ ?_ ?_ ?_ hrest hlists hfree⟩
    · exact Function.update_self ..
    · exact Function.update_self ..
    · exact fun r hr => Function.update_of_ne hr ..
    · exact fun r hr => Function.update_of_ne hr ..
  · rw [if_neg htail]
    have hcons : ∃ g rest', rest = g :: rest' := by
      cases rest with
      | nil =>
        rw [h.tail, hlist] at htail
        exact absurd rfl htail
      | cons g rest => exact ⟨g, rest, rfl⟩
    obtain ⟨g, rest', rfl⟩ := hcons
    refine ⟨_, rfl, rfl, rfl, h.replace ?_ ?_ ?_ ?_ hrest hlists hfree⟩
    · exact (Function.update_self ..).trans hnext
    · change s.tail q = _
      rw [h.tail, hlist, List.getLast?_cons_cons]
    · exact fun r hr => Function.update_of_ne hr ..
    · exact fun _ _ => rfl

end Pointers

section Flags

def Unmarked (e e' : Engine) : Prop :=
  ∀ f, (e'.frames f).in_queue = true → (e.frames f).in_queue = true

lemma unmarked_of_eq (h : ∀ f, (e'.frames f).in_queue = (e.frames f).in_queue) : Unmarked e e' :=
  fun f hf => (h f).symm.trans hf

lemma unmarked_updateFrame (f : FrameId) (u : Frame → Frame)
    (hu : ∀ x, (u x).in_queue = x.in_queue) : Unmarked e (e.updateFrame f u) := by
  apply unmarked_of_eq
  intro g
  by_cases hg : g = f
  · rw [hg, updateFrame_self, hu]
  · rw [updateFrame_of_ne e u hg]

lemma unmarked_newFrame (e : Engine) : Unmarked e e.newFrame.1 := by
  intro f hf
  by_cases hnew : f = e.num_frames
  · rw [hnew, newFrame_self] at hf
    cases hf
  · have hold : e.newFrame.1.frames f = e.frames f := Function.update_of_ne hnew ..
    rwa [hold] at hf

lemma unmarked_schedule {event : Option EventId} {frame : Option FrameId} {after period : ℕ}
    (h : e.Schedule event frame after period = some e') : Unmarked e e' := by
  rcases schedule_cases h with rfl | ⟨f, ev, cycle_time, -, -, -, -, -, -, rfl⟩
  · exact fun _ hf => hf
  · apply unmarked_of_eq
    intro g
    by_cases hg : g = f
    · rw [hg, insert_self]
    · rw [insert_of_ne _ _ _ _ hg]

lemma unmarked_extract (f : FrameId) (event : EventId) (now : ℕ) :
    Unmarked e (e.extract f event now) := by
  apply unmarked_of_eq
  intro g
  by_cases hg : g = f
  · rw [hg, extract_self]
  · rw [extract_of_ne _ _ _ hg]

lemma closed_unmarked : Closed Unmarked where
  trans h h' f hf := h f (h' f hf)
  outside h := unmarked_of_eq fun f => by rw [h.frames]
  registerEvent _ _ := unmarked_of_eq fun _ => rfl
  newFrame := unmarked_newFrame
  linkFrame _ f _ _ := unmarked_updateFrame f _ fun _ => rfl
  endFrame e event := by
    have hset : Unmarked e.newFrame.1 (e.newFrame.1.setEvent e.newFrame.2 event) :=
      unmarked_updateFrame _ _ fun _ => rfl
    exact fun f hf => unmarked_newFrame e f (hset f hf)
  schedule := unmarked_schedule
  process {e f event} _ _ := unmarked_extract f event e.current_time

lemma unmarked_of_step (hop : op.isQueue = false) (h : World.step op w = some w') :
    Unmarked w.engine w'.engine := by
  obtain ⟨e, hcall | hloop, rfl⟩ := call_or_loop hop h
  · exact closed_unmarked.call hcall
  · apply closed_unmarked.loop _ hloop
    intro _ hdrain
    obtain ⟨f, event, -, -, houtside⟩ := drainEvent_cases hdrain
    exact closed_unmarked.trans (unmarked_extract f event _) (closed_unmarked.outside houtside)

end Flags

section Steps

/-- The state of the queues in a run: the pointers describe the lists that the abstract queues have
after the moves, and a frame is marked as suspended when it is in one of them. -/
structure Tracked (s : QueueState) (lists : QueueId → List FrameId) : Prop where
  described : Describes s lists
  queues : QueueInv ⟨s.engine, lists⟩
  flagged : ∀ f, (s.engine.frames f).in_queue = true → ∃ q, f ∈ lists q
  unlocked : s.engine.locked = false
  moves : run Move.apply s.moves.reverse (fun _ => []) = some lists

lemma tracked_new : Tracked {} fun _ => [] where
  described := ⟨fun _ => rfl, fun _ => rfl, fun _ => trivial, fun _ _ => rfl⟩
  queues := queueInv_empty
  flagged f hf := by cases hf
  unlocked := rfl
  moves := rfl

lemma Tracked.move {lists' : QueueId → List FrameId} {move : Move} (h : Tracked s lists)
    (hmove : s'.moves = move :: s.moves) (happly : move.apply lists = some lists') :
    run Move.apply s'.moves.reverse (fun _ => []) = some lists' := by
  rw [hmove, List.reverse_cons, run_append, h.moves, Option.bind_some, run_cons, happly]
  rfl

lemma Tracked.not_mem (h : Tracked s lists) (hqueue : (s.engine.frames f).in_queue = false)
    (r : QueueId) : f ∉ lists r := by
  intro hmem
  have hmark := h.queues.in_queue r f hmem
  dsimp only at hmark
  rw [hqueue] at hmark
  cases hmark

def waiting (lists : QueueId → List FrameId) (q : QueueId) (f : FrameId) (priority : Bool) :
    List FrameId := if priority then f :: lists q else lists q ++ [f]

lemma Tracked.push (h : Tracked s lists) (hqueue : (s.engine.frames f).in_queue = false)
    (priority : Bool) :
    ∃ s', (if priority then s.PushFront q f else s.PushBack q f) = some s' ∧
      s'.engine = s.engine ∧ s'.moves = s.moves ∧
      Describes s' (Function.update lists q (waiting lists q f priority)) := by
  cases priority with
  | true => exact h.described.pushFront hqueue (h.not_mem hqueue)
  | false => exact h.described.pushBack h.queues.separate hqueue (h.not_mem hqueue)

/-- A frame waits when the abstract queue takes it. -/
lemma Tracked.wait (h : Tracked s lists) (q : QueueId) (event : Option EventId)
    (priority : Bool) :
    (∃ s' f, s.Wait q event priority = some s' ∧ s.engine.current_frame = some f ∧
      s.engine.wait (lists q) event priority = some (s'.engine, waiting lists q f priority) ∧
      s'.moves = .suspend q f priority :: s.moves ∧
      Tracked s' (Function.update lists q (waiting lists q f priority))) ∨
    s.Wait q event priority = none ∧ s.engine.wait (lists q) event priority = none := by
  unfold QueueState.Wait Engine.wait
  cases hcurrent : s.engine.current_frame with
  | none => exact .inr ⟨rfl, rfl⟩
  | some f =>
    cases event with
    | none => exact .inr ⟨rfl, rfl⟩
    | some ev =>
      dsimp only
      by_cases hheap : (s.engine.frames f).in_heap
      · exact .inr ⟨if_pos hheap, if_pos hheap⟩
      rw [if_neg hheap, if_neg hheap]
      by_cases hwakeup : (s.engine.frames f).wakeup_event.isSome
      · refine .inr ⟨if_pos hwakeup, if_pos ?_⟩
        rw [hwakeup, Bool.true_or]
      rw [if_neg hwakeup]
      by_cases hqueue : (s.engine.frames f).in_queue
      · -- the frame is in a queue already
        right
        constructor
        · have hassert : (s.engine.frames f).in_queue ∨ (s.next f).isSome := .inl hqueue
          unfold QueueState.PushFront QueueState.PushBack
          rw [if_pos hassert, if_pos hassert, ite_self, Option.map_none]
        · rw [hqueue, Bool.or_true, if_pos rfl]
      · rw [Bool.not_eq_true] at hheap hqueue
        obtain ⟨s', hpush, hengine, hmoves, hdescribes⟩ := h.push hqueue priority
        left
        rw [hpush, if_neg (by simp [hwakeup, hqueue])]
        refine ⟨{ s' with
            engine := s.engine.queueFrame f (some ev)
            moves := .suspend q f priority :: s.moves }, f, ?_, rfl, rfl, rfl, ?_⟩
        · rw [Option.map_some, hengine, hmoves]
        · have hperm : (waiting lists q f priority).Perm (f :: lists q) := by
            unfold waiting
            split_ifs
            · exact .refl _
            · exact List.perm_append_singleton f (lists q)
          constructor
          case described =>
            exact ⟨hdescribes.head, hdescribes.tail, hdescribes.chained, hdescribes.free⟩
          case queues => exact h.queues.push hheap hqueue hperm
          case flagged =>
            intro g hg
            by_cases hgf : g = f
            · refine ⟨q, ?_⟩
              rw [Function.update_self, hperm.mem_iff, hgf]
              exact List.mem_cons_self
            · rw [queueFrame_of_ne hgf] at hg
              obtain ⟨r, hr⟩ := h.flagged g hg
              refine ⟨r, ?_⟩
              by_cases hrq : r = q
              · rw [hrq, Function.update_self, hperm.mem_iff]
                exact List.mem_cons_of_mem f (hrq ▸ hr)
              · rwa [Function.update_of_ne hrq]
          case unlocked => exact h.unlocked
          case moves => exact h.move rfl rfl

/-- The frame that is woken up is the one that the abstract queue has first. -/
lemma Tracked.wakeupOne (h : Tracked s lists) (q : QueueId) :
    (∃ s' f rest, s.WakeupOne q = some s' ∧ lists q = f :: rest ∧
      s.engine.wakeupOne (lists q) = some (s'.engine, rest) ∧
      s'.moves = .wake q f :: s.moves ∧ Tracked s' (Function.update lists q rest)) ∨
    s.WakeupOne q = none ∧ s.engine.wakeupOne (lists q) = none := by
  unfold QueueState.WakeupOne Engine.wakeupOne
  rw [h.described.isEmpty]
  cases hlist : lists q with
  | nil => exact .inr ⟨rfl, rfl⟩
  | cons f rest =>
    obtain ⟨s₁, hpop, hengine, hmoves, hdescribes⟩ :=
      h.described.popFront h.queues.separate hlist
    rw [List.isEmpty_cons, if_neg Bool.false_ne_true, hpop]
    simp only [Option.bind_eq_bind, Option.bind_some, hengine]
    cases hwakeup : (s.engine.frames f).wakeup_event with
    | none => exact .inr ⟨rfl, rfl⟩
    | some event =>
      dsimp only
      rw [Option.bind_some]
      cases hschedule : (s.engine.queueFrame f none).Schedule (some event) (some f) 0 0 with
      | none => exact .inr ⟨rfl, rfl⟩
      | some e =>
        left
        refine ⟨{ s₁ with engine := e, moves := .wake q f :: s.moves }, f, rest, ?_, rfl, rfl, rfl,
          ?_⟩
        · rw [Option.bind_some, hmoves]
        · obtain ⟨hpopped, -⟩ := h.queues.pop hlist
          constructor
          case described =>
            exact ⟨hdescribes.head, hdescribes.tail, hdescribes.chained, hdescribes.free⟩
          case queues => exact hpopped.still rfl (still_schedule hschedule)
          case flagged =>
            intro g hg
            have hmark := unmarked_schedule hschedule g hg
            by_cases hgf : g = f
            · rw [hgf, queueFrame_self] at hmark
              cases hmark
            · rw [queueFrame_of_ne hgf] at hmark
              obtain ⟨r, hr⟩ := h.flagged g hmark
              refine ⟨r, ?_⟩
              by_cases hrq : r = q
              · rw [hrq, hlist, List.mem_cons] at hr
                rw [hrq, Function.update_self]
                exact hr.resolve_left hgf
              · rwa [Function.update_of_ne hrq]
          case unlocked => exact (locked_schedule hschedule).trans h.unlocked
          case moves => exact h.move rfl (Move.apply_wake hlist)

lemma Tracked.other (h : Tracked s lists) (hop : op.isQueue = false)
    (hstep : QueueState.step (.esim op) s = some s') : Tracked s' lists ∧ s'.moves = s.moves := by
  have hworld : ∃ w, World.step op { engine := s.engine } = some w ∧
      { s with engine := w.engine } = s' := by
    cases op with
    | wait _ _ _ => cases hop
    | wakeupOne _ => cases hop
    | _ => exact Option.map_eq_some_iff.mp hstep
  obtain ⟨w, hw, rfl⟩ := hworld
  obtain ⟨-, hstill⟩ := step_of_not_isQueue hop hw
  refine ⟨?_, rfl⟩
  constructor
  case described =>
    exact ⟨h.described.head, h.described.tail, h.described.chained, h.described.free⟩
  case queues => exact h.queues.still rfl hstill
  case flagged =>
    intro f hf
    exact h.flagged f (unmarked_of_step hop hw f hf)
  case unlocked => exact (locked_step hw).trans h.unlocked
  case moves => exact h.moves

lemma wakeupOne_scheduled {rest rest' : List FrameId} (hlocked : e.locked = false)
    (h : e.wakeupOne (f :: rest) = some (e', rest')) :
    (∀ event, (e.frames f).wakeup_event = some event → event ≠ null_event →
      (e'.frames f).in_heap = true ∧ (e'.frames f).event = some event) ∧
    ∀ g, g ≠ f → e'.frames g = e.frames g := by
  unfold Engine.wakeupOne at h
  dsimp only at h
  split at h
  case h_1 => cases h
  case h_2 event hwakeup =>
    obtain ⟨e₁, hschedule, heq⟩ := Option.map_eq_some_iff.mp h
    obtain ⟨rfl, -⟩ := Prod.mk.inj heq
    constructor
    · intro event' hevent' hnull
      obtain rfl : event = event' := Option.some.inj (hwakeup.symm.trans hevent')
      have hlocked' : (e.queueFrame f none).locked = false := hlocked
      obtain ⟨time, rfl, -, -⟩ := schedule_registered hlocked' hnull hschedule
      rw [insert_self]
      exact ⟨rfl, rfl⟩
    · intro g hg
      rw [(scheduled_of_schedule hschedule).others g hg, queueFrame_of_ne hg]

lemma Tracked.wakeupAll_nil (h : Tracked s lists) (hlist : lists q = []) (n : ℕ) :
    QueueState.WakeupAll q n s = some s := by
  have hempty : s.isEmpty q := by
    rw [h.described.isEmpty, hlist]
    rfl
  cases n with
  | zero => exact if_pos hempty
  | succ n => exact if_pos hempty

lemma Tracked.wakeupAll_cons (h : Tracked s lists) {rest : List FrameId}
    (hlist : lists q = f :: rest) (n : ℕ) :
    QueueState.WakeupAll q 0 s = none ∧
      QueueState.WakeupAll q (n + 1) s = (s.WakeupOne q).bind (QueueState.WakeupAll q n) := by
  have hempty : ¬ s.isEmpty q := by
    rw [h.described.isEmpty, hlist]
    exact Bool.false_ne_true
  exact ⟨if_neg hempty, if_neg hempty⟩

/-- All frames of the queue are woken up, from its head on. -/
lemma Tracked.wakeupAll {n : ℕ} {fs : List FrameId} (h : Tracked s lists) (hlist : lists q = fs)
    (hall : QueueState.WakeupAll q n s = some s') :
    Tracked s' (Function.update lists q []) ∧
      s'.moves = (fs.map (Move.wake q)).reverse ++ s.moves ∧
      (∀ f ∈ fs, ∀ event, (s.engine.frames f).wakeup_event = some event → event ≠ null_event →
        (s'.engine.frames f).in_heap = true ∧ (s'.engine.frames f).event = some event) ∧
      ∀ g, g ∉ fs → s'.engine.frames g = s.engine.frames g := by
  induction fs generalizing s lists n with
  | nil =>
    rw [h.wakeupAll_nil hlist] at hall
    obtain rfl := Option.some.inj hall
    rw [← hlist, Function.update_eq_self, hlist]
    exact ⟨h, rfl, fun f hf => absurd hf List.not_mem_nil, fun _ _ => rfl⟩
  | cons f rest ih =>
    cases n with
    | zero =>
      rw [(h.wakeupAll_cons hlist 0).1] at hall
      cases hall
    | succ n =>
      rw [(h.wakeupAll_cons hlist n).2] at hall
      obtain ⟨s₁, hone, hall⟩ := Option.bind_eq_some_iff.mp hall
      obtain ⟨s₂, g, rest', hone', hlist', hengine, hmoves, htracked⟩ | ⟨hnone, -⟩ :=
        h.wakeupOne q
      case inr =>
        rw [hnone] at hone
        cases hone
      obtain rfl := Option.some.inj (hone.symm.trans hone')
      obtain ⟨rfl, rfl⟩ := List.cons.inj (hlist.symm.trans hlist')
      rw [hlist] at hengine
      obtain ⟨hwoken, hothers⟩ := wakeupOne_scheduled h.unlocked hengine
      obtain ⟨htracked', hmoves', hscheduled, hsame⟩ :=
        ih htracked (Function.update_self ..) hall
      have hnot : f ∉ rest := by
        have hnodup := h.queues.nodup q
        dsimp only at hnodup
        rw [hlist] at hnodup
        exact (List.nodup_cons.mp hnodup).1
      refine ⟨?_, ?_, ?_, ?_⟩
      · rwa [Function.update_idem] at htracked'
      · rw [hmoves', hmoves, List.map_cons, List.reverse_cons, List.append_assoc]
        rfl
      · intro g hg event hevent hnull
        obtain rfl | hg := List.mem_cons.mp hg
        · rw [hsame g hnot]
          exact hwoken event hevent hnull
        · apply hscheduled g hg event _ hnull
          rw [hothers g fun heq => hnot (heq ▸ hg)]
          exact hevent
      · intro g hg
        rw [List.mem_cons, not_or] at hg
        rw [hsame g hg.2, hothers g hg.1]

lemma Tracked.wakeupAll_fuel {n m : ℕ} {fs : List FrameId} (h : Tracked s lists)
    (hlist : lists q = fs) (hn : fs.length ≤ n) (hm : fs.length ≤ m) :
    QueueState.WakeupAll q n s = QueueState.WakeupAll q m s := by
  induction fs generalizing s lists n m with
  | nil => rw [h.wakeupAll_nil hlist, h.wakeupAll_nil hlist]
  | cons f rest ih =>
    obtain ⟨n, rfl⟩ := Nat.exists_eq_add_of_le' (Nat.lt_of_lt_of_le (Nat.succ_pos _) hn)
    obtain ⟨m, rfl⟩ := Nat.exists_eq_add_of_le' (Nat.lt_of_lt_of_le (Nat.succ_pos _) hm)
    rw [(h.wakeupAll_cons hlist n).2, (h.wakeupAll_cons hlist m).2]
    obtain ⟨s₁, g, rest', hone, hlist', -, -, htracked⟩ | ⟨hnone, -⟩ := h.wakeupOne q
    · rw [hone, Option.bind_some, Option.bind_some]
      obtain ⟨rfl, rfl⟩ := List.cons.inj (hlist.symm.trans hlist')
      exact ih htracked (Function.update_self ..) (Nat.le_of_succ_le_succ hn)
        (Nat.le_of_succ_le_succ hm)
    · rw [hnone]
      rfl

lemma Tracked.length_le (h : Tracked s lists) (q : QueueId) :
    (lists q).length ≤ s.engine.num_frames := by
  have hsub : lists q ⊆ List.range s.engine.num_frames := by
    intro f hf
    exact List.mem_range.mpr (h.queues.named q f hf)
  have hle := ((h.queues.nodup q).subperm hsub).length_le
  rwa [List.length_range] at hle

end Steps

section Runs

variable {op : QueueOp} {ops : List QueueOp}

lemma Tracked.step_wait {event : Option EventId} {priority : Bool} (h : Tracked s lists)
    (hstep : QueueState.step (.esim (.wait q event priority)) s = some s') :
    ∃ f, s.engine.current_frame = some f ∧ s'.moves = .suspend q f priority :: s.moves ∧
      Tracked s' (Function.update lists q (waiting lists q f priority)) := by
  unfold QueueState.step at hstep
  dsimp only at hstep
  split_ifs at hstep
  obtain ⟨s₁, f, hwait, hcurrent, -, hmoves, htracked⟩ | ⟨hnone, -⟩ := h.wait q event priority
  · obtain rfl := Option.some.inj (hwait.symm.trans hstep)
    exact ⟨f, hcurrent, hmoves, htracked⟩
  · rw [hnone] at hstep
    cases hstep

lemma Tracked.step_wakeupOne (h : Tracked s lists)
    (hstep : QueueState.step (.esim (.wakeupOne q)) s = some s') :
    ∃ f rest, lists q = f :: rest ∧ s.engine.wakeupOne (lists q) = some (s'.engine, rest) ∧
      s'.moves = .wake q f :: s.moves ∧ Tracked s' (Function.update lists q rest) := by
  unfold QueueState.step at hstep
  dsimp only at hstep
  split_ifs at hstep
  obtain ⟨s₁, f, rest, hone, hlist, hengine, hmoves, htracked⟩ | ⟨hnone, -⟩ := h.wakeupOne q
  · obtain rfl := Option.some.inj (hone.symm.trans hstep)
    exact ⟨f, rest, hlist, hengine, hmoves, htracked⟩
  · rw [hnone] at hstep
    cases hstep

lemma Tracked.step (h : Tracked s lists) (hstep : QueueState.step op s = some s') :
    ∃ lists', Tracked s' lists' := by
  cases op with
  | wakeupAll q =>
    unfold QueueState.step at hstep
    dsimp only at hstep
    split_ifs at hstep
    exact ⟨_, (h.wakeupAll rfl hstep).1⟩
  | esim op =>
    by_cases hop : op.isQueue = false
    · exact ⟨lists, (h.other hop hstep).1⟩
    cases op with
    | wait q event priority =>
      obtain ⟨f, -, -, htracked⟩ := h.step_wait hstep
      exact ⟨_, htracked⟩
    | wakeupOne q =>
      obtain ⟨f, rest, -, -, -, htracked⟩ := h.step_wakeupOne hstep
      exact ⟨_, htracked⟩
    | _ => exact absurd rfl hop

lemma Tracked.run (h : Tracked s lists) (hrun : Lib.run QueueState.step ops s = some s') :
    ∃ lists', Tracked s' lists' := by
  apply run_invariant (P := fun _ _ => True) (Q := fun s => ∃ lists, Tracked s lists) _ ⟨lists, h⟩
    (along_of_forall (fun _ _ => trivial) ops s) hrun
  rintro op s s' ⟨lists, h⟩ - hstep
  exact h.step hstep

def Move.suspends (q : QueueId) (f : FrameId) : Move → Bool
  | .suspend queue frame _ => queue = q ∧ frame = f
  | .wake _ _ => false

def Move.wakes (q : QueueId) (f : FrameId) : Move → Bool
  | .suspend _ _ _ => false
  | .wake queue frame => queue = q ∧ frame = f

lemma count_move {move : Move} {lists' : QueueId → List FrameId} (q : QueueId) (f : FrameId)
    (h : move.apply lists = some lists') :
    (if move.suspends q f then 1 else 0) + (lists q).count f =
      (if move.wakes q f then 1 else 0) + (lists' q).count f := by
  cases move with
  | suspend queue frame priority =>
    obtain rfl := Option.some.inj h
    have hperm : (if priority then frame :: lists queue else lists queue ++ [frame]).Perm
        (frame :: lists queue) := by
      split_ifs
      · exact .refl _
      · exact List.perm_append_singleton frame (lists queue)
    by_cases hq : queue = q
    · subst hq
      rw [Function.update_self, hperm.count_eq, List.count_cons]
      by_cases hf : frame = f <;> simp [Move.suspends, Move.wakes, hf, add_comm]
    · rw [Function.update_of_ne (Ne.symm hq)]
      simp [Move.suspends, Move.wakes, hq]
  | wake queue frame =>
    unfold Move.apply at h
    dsimp only at h
    split at h
    case h_1 => cases h
    case h_2 first rest hlist =>
      split_ifs at h with hfirst
      obtain rfl := Option.some.inj h
      subst hfirst
      by_cases hq : queue = q
      · subst hq
        rw [Function.update_self, hlist, List.count_cons]
        by_cases hf : first = f <;> simp [Move.suspends, Move.wakes, hf, add_comm]
      · rw [Function.update_of_ne (Ne.symm hq)]
        simp [Move.suspends, Move.wakes, hq]

lemma count_moves {moves : List Move} {lists' : QueueId → List FrameId} (q : QueueId) (f : FrameId)
    (h : Lib.run Move.apply moves lists = some lists') :
    moves.countP (Move.suspends q f) + (lists q).count f =
      moves.countP (Move.wakes q f) + (lists' q).count f := by
  induction moves generalizing lists with
  | nil =>
    rw [run_nil, Option.some.injEq] at h
    rw [h]
    rfl
  | cons move moves ih =>
    rw [run_cons, Option.bind_eq_some_iff] at h
    obtain ⟨lists₁, happly, h⟩ := h
    have hfirst := count_move q f happly
    have hrest := ih h
    rw [List.countP_cons, List.countP_cons]
    omega

/-- A state of the queues that describes one list of waiting frames for each queue. -/
structure Queues (s : QueueState) (lists : QueueId → List FrameId) : Prop where
  /-- The frames left their queues in the order of the abstract queues. -/
  order : Lib.run Move.apply s.moves.reverse (fun _ => []) = some lists
  /-- The links lead from the head through the list to the tail. -/
  links : ∀ q, walk s.next (lists q).length (s.head q) = some (lists q) ∧
    s.tail q = (lists q).getLast?
  flags : ∀ f, (s.engine.frames f).in_queue = true ↔ ∃ q, f ∈ lists q
  unlinked : ∀ f, (s.engine.frames f).in_queue = false → s.next f = none
  /-- Each time a frame was suspended it was woken up once, or it waits still. -/
  once : ∀ q f, s.moves.countP (Move.suspends q f) =
    s.moves.countP (Move.wakes q f) + if f ∈ lists q then 1 else 0
  disjoint : ∀ q r, q ≠ r → ∀ f ∈ lists q, f ∉ lists r

lemma Tracked.toQueues (h : Tracked s lists) : Queues s lists where
  order := h.moves
  links q := by
    rw [h.described.head]
    exact ⟨(h.described.chained q).walk, h.described.tail q⟩
  flags f := ⟨h.flagged f, fun ⟨q, hf⟩ => h.queues.in_queue q f hf⟩
  unlinked f hf := h.described.free f (h.not_mem hf)
  once q f := by
    have hcount := count_moves q f h.moves
    rw [List.countP_reverse, List.countP_reverse, List.count_nil, add_zero] at hcount
    rw [hcount, (h.queues.nodup q).count]
  disjoint := h.queues.disjoint

/-- What one operation on queue `q` does to the lists, the record and the engine. -/
structure QueueSteps (s : QueueState) (lists : QueueId → List FrameId) (q : QueueId) : Prop where
  /-- The pointers never stop an operation that the abstract queue can do. -/
  refines : ∀ op, (QueueState.step (.esim op) s).map QueueState.engine =
    (World.step op ⟨s.engine, lists⟩).map World.engine
  wait : ∀ event priority s', QueueState.step (.esim (.wait q event priority)) s = some s' →
    ∃ f, s.engine.current_frame = some f ∧ s'.moves = .suspend q f priority :: s.moves
  wakeupOne : ∀ s', QueueState.step (.esim (.wakeupOne q)) s = some s' →
    ∃ f rest, lists q = f :: rest ∧ s'.moves = .wake q f :: s.moves ∧
      ∀ event, (s.engine.frames f).wakeup_event = some event → event ≠ null_event →
        (s'.engine.frames f).in_heap = true ∧ (s'.engine.frames f).event = some event
  /-- The loop empties the queue, however often it may run beyond the number of frames. -/
  wakeupAll : ∀ s', QueueState.step (.wakeupAll q) s = some s' →
    s'.head q = none ∧ s'.moves = ((lists q).map (Move.wake q)).reverse ++ s.moves ∧
      ∀ f ∈ lists q, ∀ event, (s.engine.frames f).wakeup_event = some event → event ≠ null_event →
        (s'.engine.frames f).in_heap = true ∧ (s'.engine.frames f).event = some event
  ends : ∀ n, s.engine.num_frames ≤ n →
    QueueState.WakeupAll q n s = QueueState.WakeupAll q s.engine.num_frames s

lemma engine_step {op : Op} (hop : op.isQueue = false) (w : World) :
    (World.step op w).map World.engine =
      if World.callable w.engine ∧ (World.call w.engine op).isSome then World.call w.engine op
      else World.loop w.engine op := by
  unfold World.step
  split
  case h_1 => cases hop
  case h_2 => cases hop
  case h_3 =>
    split_ifs
    · rw [Option.map_map]
      exact Option.map_id'
    · rw [Option.map_map]
      exact Option.map_id'

lemma Tracked.refines (h : Tracked s lists) (op : Op) :
    (QueueState.step (.esim op) s).map QueueState.engine =
      (World.step op ⟨s.engine, lists⟩).map World.engine := by
  cases op with
  | wait q event priority =>
    unfold QueueState.step World.step
    dsimp only
    by_cases hcall : World.callable s.engine
    · rw [if_pos hcall, if_pos hcall]
      obtain ⟨s', f, hwait, -, hengine, -, -⟩ | ⟨hnone, hengine⟩ := h.wait q event priority
      · rw [hwait, hengine]
        rfl
      · rw [hnone, hengine]
        rfl
    · rw [if_neg hcall, if_neg hcall]
      rfl
  | wakeupOne q =>
    unfold QueueState.step World.step
    dsimp only
    by_cases hcall : World.callable s.engine
    · rw [if_pos hcall, if_pos hcall]
      obtain ⟨s', f, rest, hone, -, hengine, -, -⟩ | ⟨hnone, hengine⟩ := h.wakeupOne q
      · rw [hone, hengine]
        rfl
      · rw [hnone, hengine]
        rfl
    · rw [if_neg hcall, if_neg hcall]
      rfl
  | _ =>
    rw [engine_step rfl]
    refine Eq.trans ?_ (engine_step rfl { engine := s.engine })
    exact Option.map_map ..

lemma Tracked.toQueueSteps (h : Tracked s lists) (q : QueueId) : QueueSteps s lists q where
  refines := h.refines
  wait event priority s' hstep := by
    obtain ⟨f, hcurrent, hmoves, -⟩ := h.step_wait hstep
    exact ⟨f, hcurrent, hmoves⟩
  wakeupOne s' hstep := by
    obtain ⟨f, rest, hlist, hengine, hmoves, -⟩ := h.step_wakeupOne hstep
    rw [hlist] at hengine
    exact ⟨f, rest, hlist, hmoves, (wakeupOne_scheduled h.unlocked hengine).1⟩
  wakeupAll s' hstep := by
    unfold QueueState.step at hstep
    dsimp only at hstep
    split_ifs at hstep
    obtain ⟨htracked, hmoves, hscheduled, -⟩ := h.wakeupAll rfl hstep
    refine ⟨?_, hmoves, hscheduled⟩
    rw [htracked.described.head, Function.update_self]
    rfl
  ends n hn := h.wakeupAll_fuel rfl ((h.length_le q).trans hn) (h.length_le q)

/-- After any run of the engine and its queues the pointers and flags describe one list for each
queue, the one that first in, first out leads to but for the frames with priority. -/
theorem run_queues (hrun : Lib.run QueueState.step ops {} = some s) :
    ∃ lists, Queues s lists ∧ ∀ q, QueueSteps s lists q := by
  obtain ⟨lists, h⟩ := tracked_new.run hrun
  exact ⟨lists, h.toQueues, h.toQueueSteps⟩

/-- Three frames wait in queue 0, the last one with priority, and the first two wake-ups leave the
second frame. -/
def priorityWait : List QueueOp :=
  ([.registerFrequencyDomain 1000, .registerEvent (some 0), .schedule (some 1) 0 0 0,
    .schedule (some 1) 1 0 0, .schedule (some 1) 2 0 0, .startProcess,
    .processEvent, .wait 0 (some 1) false, .handlerEnd,
    .processEvent, .wait 0 (some 1) false, .handlerEnd,
    .processEvent, .wait 0 (some 1) true, .wakeupOne 0, .wakeupOne 0] : List Op).map .esim

theorem run_queues_priorityWait : ∃ s lists, Lib.run QueueState.step priorityWait {} = some s ∧
    Queues s lists ∧ s.moves.take 2 = [.wake 0 0, .wake 0 2] ∧ s.head 0 = some 1 := by
  have hmoves : (Lib.run QueueState.step priorityWait {}).map
      (fun s => (s.moves.take 2, s.head 0)) = some ([.wake 0 0, .wake 0 2], some 1) := by
    decide +kernel
  obtain ⟨s, hrun, heq⟩ := Option.map_eq_some_iff.mp hmoves
  obtain ⟨htake, hhead⟩ := Prod.mk.inj heq
  obtain ⟨lists, hqueues, -⟩ := run_queues hrun
  exact ⟨s, lists, hrun, hqueues, htake, hhead⟩

end Runs

end OISA.Esim
