import OISA.Memory.Requests
import OISA.Proofs.EngineFrames

/-!
# Pending requests

The counter of a frame that sent requests to upper modules counts those that are not complete, and
one more for a completion that was returned to it and that its handler has not seen.
-/

namespace OISA.Memory.Requests

open OISA.Esim OISA.Lib

/-- A parent whose handler was called and has not run. -/
def taken (s : Requests) (p : FrameId) : Bool :=
  s.fresh && s.world.engine.current_frame = some p

/-- The completions that were returned to `p` and not counted. -/
def returned (s : Requests) (p : FrameId) : ℕ :=
  (s.world.engine.frames p).in_heap.toNat + (s.taken p).toNat

structure Waiting (events : Events) (s : Requests) (p : FrameId) : Prop where
  named : p < s.world.engine.num_frames
  event : ∃ event, s.returnsTo p = some event ∧ event ≠ null_event
  pending : s.pending p = (s.requests p).length + s.returned p
  positive : 0 < s.pending p
  miss : s.returnsTo p = some events.read_request_updown_miss → s.pending p = 1
  nodup : (s.requests p).Nodup
  request : ∀ c ∈ s.requests p, c < s.world.engine.num_frames ∧
    (s.world.engine.frames c).return_event = s.returnsTo p ∧
    (s.world.engine.frames c).parent_frame = some p
  in_queue : (s.world.engine.frames p).in_queue = false
  period : (s.world.engine.frames p).period = 0
  scheduled : (s.world.engine.frames p).in_heap = true →
    (s.world.engine.frames p).event = s.returnsTo p
  running : s.taken p = true → s.world.engine.running = s.returnsTo p

structure Done (events : Events) (s : Requests) (p : FrameId) : Prop where
  resumed : s.resumed p = 1
  requests : s.requests p = []
  pending : s.pending p = 0 ∧ s.returnsTo p ≠ some events.read_request_updown_miss ∨
    s.returnsTo p = none

structure ForkInv (events : Events) (s : Requests) : Prop where
  locked : s.world.engine.locked = false
  waiting : ∀ p ∈ s.parents, s.resumed p = 0 → Waiting events s p
  done : ∀ p ∈ s.parents, s.resumed p ≠ 0 → Done events s p
  idle : ∀ p, p ∉ s.parents → s.requests p = [] ∧ s.resumed p = 0

/-- The other operations on the engine leave the frame of a waiting parent and the links of its
requests alone, and do not make it the current frame: only the handlers of its requests return to
it. -/
def Foreign (op : Esim.Op) (s : Requests) (p : FrameId) : Prop :=
  ∀ w ∈ World.step op s.world,
    w.engine.frames p = s.world.engine.frames p ∧
    (w.engine.current_frame = some p → s.world.engine.current_frame = some p) ∧
    ∀ c ∈ s.requests p,
      (w.engine.frames c).return_event = (s.world.engine.frames c).return_event ∧
      (w.engine.frames c).parent_frame = (s.world.engine.frames c).parent_frame

/-- A frame sends requests once, in a handler that has not scheduled it. -/
structure Ready (s : Requests) (p : FrameId) : Prop where
  named : p < s.world.engine.num_frames
  parents : p ∉ s.parents
  in_heap : (s.world.engine.frames p).in_heap = false
  in_queue : (s.world.engine.frames p).in_queue = false
  period : (s.world.engine.frames p).period = 0

/-- What the code does with the frames of parents. -/
def Disciplined (op : Op) (s : Requests) : Prop :=
  match op with
  | .esim op =>
    takesFrame op = true ∨ op = .handlerEnd ∨
      ∀ p ∈ s.parents, s.resumed p = 0 → Foreign op s p
  | .invalidate _ | .read_request_updown _ | .read_request_downup _ =>
    ∀ p ∈ s.world.engine.current_frame, Ready s p
  | _ => True

instance (op : Esim.Op) (s : Requests) (p : FrameId) : Decidable (Foreign op s p) :=
  inferInstanceAs (Decidable (∀ w ∈ World.step op s.world, _ ∧ _ ∧ ∀ c ∈ s.requests p, _ ∧ _))

instance (s : Requests) (p : FrameId) : Decidable (Ready s p) :=
  decidable_of_iff (p < s.world.engine.num_frames ∧ p ∉ s.parents ∧
      (s.world.engine.frames p).in_heap = false ∧ (s.world.engine.frames p).in_queue = false ∧
      (s.world.engine.frames p).period = 0)
    ⟨fun h => ⟨h.1, h.2.1, h.2.2.1, h.2.2.2.1, h.2.2.2.2⟩,
      fun h => ⟨h.named, h.parents, h.in_heap, h.in_queue, h.period⟩⟩

instance (op : Op) (s : Requests) : Decidable (Disciplined op s) :=
  match op with
  | .esim _ => inferInstanceAs (Decidable (_ ∨ _ ∨ ∀ p ∈ s.parents, s.resumed p = 0 → _))
  | .invalidate _ | .read_request_updown _ | .read_request_downup _ =>
    inferInstanceAs (Decidable (∀ p ∈ s.world.engine.current_frame, Ready s p))
  | .read_request_updown_miss _ | .finish | .complete | .update _ _ =>
    inferInstanceAs (Decidable True)

variable {events : Events} {s s' : Requests} {p q c : FrameId} {w : World}

section Transfer

/-- A waiting parent that a step does not concern. -/
lemma Waiting.transfer (h : Waiting events s p)
    (hpending : s'.pending p = s.pending p) (hrequests : s'.requests p = s.requests p)
    (hreturns : s'.returnsTo p = s.returnsTo p)
    (hnum : s.world.engine.num_frames ≤ s'.world.engine.num_frames)
    (hframe : s'.world.engine.frames p = s.world.engine.frames p)
    (hlinks : ∀ c ∈ s.requests p,
      (s'.world.engine.frames c).return_event = (s.world.engine.frames c).return_event ∧
      (s'.world.engine.frames c).parent_frame = (s.world.engine.frames c).parent_frame)
    (htaken : s'.taken p = s.taken p)
    (hrunning : s.taken p = true → s'.world.engine.running = s.world.engine.running) :
    Waiting events s' p where
  named := h.named.trans_le hnum
  event := by
    rw [hreturns]
    exact h.event
  pending := by
    rw [hpending, hrequests, h.pending, returned, returned, hframe, htaken]
  positive := by
    rw [hpending]
    exact h.positive
  miss := by
    rw [hreturns, hpending]
    exact h.miss
  nodup := by
    rw [hrequests]
    exact h.nodup
  request := by
    rw [hrequests, hreturns]
    intro c hc
    obtain ⟨hname, hevent, hparent⟩ := h.request c hc
    rw [(hlinks c hc).1, (hlinks c hc).2]
    exact ⟨hname.trans_le hnum, hevent, hparent⟩
  in_queue := by
    rw [hframe]
    exact h.in_queue
  period := by
    rw [hframe]
    exact h.period
  scheduled := by
    rw [hframe, hreturns]
    exact h.scheduled
  running := by
    rw [htaken, hreturns]
    intro ht
    rw [hrunning ht]
    exact h.running ht

lemma Done.transfer (h : Done events s p) (hresumed : s'.resumed p = s.resumed p)
    (hpending : s'.pending p = s.pending p) (hrequests : s'.requests p = s.requests p)
    (hreturns : s'.returnsTo p = s.returnsTo p) : Done events s' p where
  resumed := hresumed.trans h.resumed
  requests := hrequests.trans h.requests
  pending := by
    rw [hpending, hreturns]
    exact h.pending

lemma taken_waits (h : Waiting events s p) (hp : p ∈ s.parents) (htaken : s.taken p = true) :
    s.waits p = true ∧ s.world.engine.current_frame = some p := by
  have hrunning := h.running htaken
  obtain ⟨event, hevent, -⟩ := h.event
  rw [taken, Bool.and_eq_true, decide_eq_true_eq] at htaken
  refine ⟨?_, htaken.2⟩
  rw [waits, htaken.1, hrunning, hevent]
  simp [hp]

lemma not_taken_of_current_ne (h : s.world.engine.current_frame ≠ some p) :
    s.taken p = false := by
  rw [taken, decide_eq_false h, Bool.and_false]

lemma not_taken_of_not_fresh (h : s.fresh = false) : s.taken p = false := by
  rw [taken, h, Bool.false_and]

end Transfer

section Engine

/-- A parent that leaves the heap. -/
lemma Waiting.take {event : EventId} (h : Waiting events s p) {fresh : Bool}
    (hcurrent : s.world.engine.current_frame = none)
    (hheap : (s.world.engine.frames p).in_heap = true)
    (hevent : (s.world.engine.frames p).event = some event)
    (hframes : w.engine.frames = Function.update s.world.engine.frames p
      { s.world.engine.frames p with in_heap := false })
    (hcurrent' : w.engine.current_frame = some p) (hrunning : w.engine.running = some event)
    (hnum : w.engine.num_frames = s.world.engine.num_frames) (hfresh : fresh = true) :
    Waiting events { s with world := w, fresh := fresh } p := by
  have hself : w.engine.frames p = { s.world.engine.frames p with in_heap := false } := by
    rw [hframes, Function.update_self]
  have htaken : taken { s with world := w, fresh := fresh } p = true := by
    rw [taken]
    simp [hfresh, hcurrent']
  have hbefore : s.taken p = false := not_taken_of_current_ne (by rw [hcurrent]; simp)
  refine ⟨?_, h.event, ?_, h.positive, h.miss, h.nodup, ?_, ?_, ?_, ?_, ?_⟩
  · exact hnum ▸ h.named
  · have hpending := h.pending
    rw [returned, hheap, hbefore] at hpending
    change s.pending p = (s.requests p).length + returned _ p
    rw [hpending, returned, htaken]
    change _ = _ + ((w.engine.frames p).in_heap.toNat + _)
    rw [hself]
    rfl
  · intro c hc
    change c < w.engine.num_frames ∧ (w.engine.frames c).return_event = s.returnsTo p ∧
      (w.engine.frames c).parent_frame = some p
    obtain ⟨hname, hlinks⟩ := h.request c hc
    refine ⟨hnum ▸ hname, ?_⟩
    by_cases hcp : c = p
    · subst hcp
      rw [hself]
      exact hlinks
    · rw [hframes, Function.update_of_ne hcp]
      exact hlinks
  · change (w.engine.frames p).in_queue = false
    rw [hself]
    exact h.in_queue
  · change (w.engine.frames p).period = 0
    rw [hself]
    exact h.period
  · change (w.engine.frames p).in_heap = true → _
    rw [hself]
    intro hcontra
    cases hcontra
  · intro _
    change w.engine.running = s.returnsTo p
    rw [hrunning, ← hevent]
    exact h.scheduled hheap

lemma Waiting.engine {fresh : Bool} (h : Waiting events s p)
    (hnum : s.world.engine.num_frames ≤ w.engine.num_frames)
    (hframe : w.engine.frames p = s.world.engine.frames p)
    (hlinks : ∀ c ∈ s.requests p,
      (w.engine.frames c).return_event = (s.world.engine.frames c).return_event ∧
      (w.engine.frames c).parent_frame = (s.world.engine.frames c).parent_frame)
    (hbefore : s.taken p = false) (hafter : fresh = false ∨ w.engine.current_frame ≠ some p) :
    Waiting events { s with world := w, fresh := fresh } p := by
  have htaken : taken { s with world := w, fresh := fresh } p = s.taken p := by
    rw [hbefore]
    obtain hfresh | hcurrent := hafter
    · exact not_taken_of_not_fresh hfresh
    · exact not_taken_of_current_ne hcurrent
  have hrunning : s.taken p = true → w.engine.running = s.world.engine.running := by
    intro hcontra
    rw [hbefore] at hcontra
    cases hcontra
  exact h.transfer rfl rfl rfl hnum hframe hlinks htaken hrunning

lemma ForkInv.engine {fresh : Bool} (h : ForkInv events s)
    (hlocked : w.engine.locked = s.world.engine.locked)
    (hwaiting : ∀ p ∈ s.parents, s.resumed p = 0 → Waiting events s p →
      Waiting events { s with world := w, fresh := fresh } p) :
    ForkInv events { s with world := w, fresh := fresh } where
  locked := hlocked.trans h.locked
  waiting p hp hresumed := hwaiting p hp hresumed (h.waiting p hp hresumed)
  done p hp hresumed := (h.done p hp hresumed).transfer rfl rfl rfl rfl
  idle := h.idle

lemma ForkInv.esim {op : Esim.Op} (h : ForkInv events s)
    (hdisc : Disciplined (.esim op) s) (hstep : step events (.esim op) s = some s') :
    ForkInv events s' := by
  rw [step] at hstep
  split_ifs at hstep with hwaits
  obtain ⟨w, hw, rfl⟩ := Option.map_eq_some_iff.mp hstep
  have hnum := num_frames_step hw
  -- the handler of a waiting parent does nothing before it has counted
  have hbefore : ∀ p ∈ s.parents, Waiting events s p → s.taken p = false := by
    intro p hp hwaiting
    by_contra htaken
    rw [Bool.not_eq_false] at htaken
    obtain ⟨hwait, hcurrent⟩ := taken_waits hwaiting hp htaken
    rw [hcurrent, Option.any_some] at hwaits
    exact hwaits hwait
  apply h.engine (locked_step hw)
  intro p hp hresumed hwaiting
  by_cases htakes : takesFrame op = true
  · have hop : op = .processEvent ∨ op = .drainEvent := by
      cases op <;> simp_all [takesFrame]
    obtain ⟨f, event, hcurrent, hheap, hevent, hframes, hcurrent', hrunning, -, hnum'⟩ :=
      take_cases hop hw
    have hfresh : (decide (op ≠ .handlerEnd) && (s.fresh || takesFrame op)) = true := by
      rw [htakes, Bool.or_true]
      rcases hop with rfl | rfl <;> rfl
    by_cases hpf : p = f
    · subst hpf
      exact hwaiting.take hcurrent hheap hevent hframes hcurrent' hrunning hnum' hfresh
    · apply hwaiting.engine hnum
      · rw [hframes, Function.update_of_ne hpf]
      · intro c _
        rw [hframes]
        by_cases hcf : c = f
        · rw [hcf, Function.update_self]
          exact ⟨rfl, rfl⟩
        · rw [Function.update_of_ne hcf]
          exact ⟨rfl, rfl⟩
      · exact hbefore p hp hwaiting
      · right
        rw [hcurrent']
        intro heq
        exact hpf (Option.some.inj heq).symm
  · by_cases hend : op = .handlerEnd
    · subst hend
      obtain ⟨hcurrent', hlinks, hframe⟩ := handlerEnd_cases hw
      apply hwaiting.engine hnum
      · exact hframe p fun _ => hwaiting.period
      · intro c _
        exact hlinks c
      · exact hbefore p hp hwaiting
      · exact .inl rfl
    · have hforeign : Foreign op s p := by
        obtain htake | hend' | hall := hdisc
        · exact absurd htake htakes
        · exact absurd hend' hend
        · exact hall p hp hresumed
      obtain ⟨hframe, hcurrent', hlinks⟩ := hforeign w hw
      apply hwaiting.engine hnum hframe hlinks (hbefore p hp hwaiting)
      by_cases hcurrent : s.world.engine.current_frame = some p
      · -- its handler has counted
        have hfresh : s.fresh = false := by
          have htaken := hbefore p hp hwaiting
          rw [taken, hcurrent] at htaken
          simpa using htaken
        left
        rw [hfresh, Bool.not_eq_true _ |>.mp htakes, Bool.or_false, Bool.and_false]
      · right
        intro heq
        exact hcurrent (hcurrent' heq)

end Engine

section Fork

variable {finish : EventId} {n : ℕ}

/-- The handler of `p` sends its requests: `n` of the pending ones are not sent, or stand for the
continuation. -/
structure Forking (events : Events) (s : Requests) (p : FrameId) (finish : EventId) (n : ℕ) :
    Prop where
  locked : s.world.engine.locked = false
  current : s.world.engine.current_frame = some p
  fresh : s.fresh = false
  named : p < s.world.engine.num_frames
  parent : p ∈ s.parents
  event : s.returnsTo p = some finish
  unresumed : s.resumed p = 0
  pending : s.pending p = (s.requests p).length + n
  nodup : (s.requests p).Nodup
  request : ∀ c ∈ s.requests p, c < s.world.engine.num_frames ∧
    (s.world.engine.frames c).return_event = some finish ∧
    (s.world.engine.frames c).parent_frame = some p
  in_heap : (s.world.engine.frames p).in_heap = false
  in_queue : (s.world.engine.frames p).in_queue = false
  period : (s.world.engine.frames p).period = 0
  waiting : ∀ q ∈ s.parents, q ≠ p → s.resumed q = 0 → Waiting events s q
  done : ∀ q ∈ s.parents, q ≠ p → s.resumed q ≠ 0 → Done events s q
  idle : ∀ q, q ∉ s.parents → s.requests q = [] ∧ s.resumed q = 0

lemma ForkInv.start (h : ForkInv events s) (hready : Ready s p)
    (hcurrent : s.world.engine.current_frame = some p) (finish : EventId) (n : ℕ) :
    Forking events (s.start p finish n) p finish n where
  locked := h.locked
  current := hcurrent
  fresh := rfl
  named := hready.named
  parent := List.mem_cons_self
  event := by apply Function.update_self
  unresumed := (h.idle p hready.parents).2
  pending := by
    have hrequests : (s.start p finish n).requests p = [] := (h.idle p hready.parents).1
    have hpending : (s.start p finish n).pending p = n := by apply Function.update_self
    rw [hrequests, hpending, List.length_nil, Nat.zero_add]
  nodup := by
    have hrequests : (s.start p finish n).requests p = [] := (h.idle p hready.parents).1
    rw [hrequests]
    exact List.nodup_nil
  request := by
    have hrequests : (s.start p finish n).requests p = [] := (h.idle p hready.parents).1
    rw [hrequests]
    intro c hc
    cases hc
  in_heap := hready.in_heap
  in_queue := hready.in_queue
  period := hready.period
  waiting q hq hne hresumed := by
    have hmem : q ∈ s.parents := (List.mem_cons.mp hq).resolve_left hne
    have hbefore : s.taken q = false := by
      apply not_taken_of_current_ne
      rw [hcurrent]
      exact fun heq => hne (Option.some.inj heq).symm
    have htaken : (s.start p finish n).taken q = s.taken q := by
      rw [hbefore]
      exact not_taken_of_not_fresh rfl
    have hpending : (s.start p finish n).pending q = s.pending q := by
      apply Function.update_of_ne hne
    have hreturns : (s.start p finish n).returnsTo q = s.returnsTo q := by
      apply Function.update_of_ne hne
    exact (h.waiting q hmem hresumed).transfer hpending rfl hreturns le_rfl rfl
      (fun _ _ => ⟨rfl, rfl⟩) htaken fun _ => rfl
  done q hq hne hresumed := by
    have hmem : q ∈ s.parents := (List.mem_cons.mp hq).resolve_left hne
    have hpending : (s.start p finish n).pending q = s.pending q := by
      apply Function.update_of_ne hne
    have hreturns : (s.start p finish n).returnsTo q = s.returnsTo q := by
      apply Function.update_of_ne hne
    exact (h.done q hmem hresumed).transfer rfl hpending rfl hreturns
  idle q hq := h.idle q fun hmem => hq (List.mem_cons_of_mem p hmem)

lemma Forking.count (h : Forking events s p finish n) :
    Forking events (s.count p) p finish (n + 1) where
  locked := h.locked
  current := h.current
  fresh := h.fresh
  named := h.named
  parent := h.parent
  event := h.event
  unresumed := h.unresumed
  pending := by
    have hpending : (s.count p).pending p = s.pending p + 1 := by apply Function.update_self
    rw [hpending, h.pending, Nat.add_assoc]
    rfl
  nodup := h.nodup
  request := h.request
  in_heap := h.in_heap
  in_queue := h.in_queue
  period := h.period
  waiting q hq hne hresumed := by
    have hpending : (s.count p).pending q = s.pending q := by apply Function.update_of_ne hne
    exact (h.waiting q hq hne hresumed).transfer hpending rfl rfl le_rfl rfl
      (fun _ _ => ⟨rfl, rfl⟩) rfl fun _ => rfl
  done q hq hne hresumed := by
    have hpending : (s.count p).pending q = s.pending q := by apply Function.update_of_ne hne
    exact (h.done q hq hne hresumed).transfer rfl hpending rfl rfl
  idle := h.idle

/-- A request that was counted is sent. -/
lemma Forking.callRequest {event : EventId} {request : Request}
    (h : Forking events s p finish (n + 1))
    (hcall : s.callRequest p event finish request = some s') :
    Forking events s' p finish n := by
  obtain ⟨w, hw, rfl⟩ := Option.map_eq_some_iff.mp hcall
  obtain ⟨hothers, hreturn, hparent, hlocked, hcurrent, hrunning, hnum⟩ :=
    call_cases h.current hw
  have hold : ∀ c < s.world.engine.num_frames,
      w.engine.frames c = s.world.engine.frames c := fun c hc => hothers c hc.ne
  have hself : Function.update s.requests p (s.world.engine.num_frames :: s.requests p) p =
      s.world.engine.num_frames :: s.requests p := Function.update_self ..
  have hframe := hold p h.named
  constructor
  case locked => exact hlocked.trans h.locked
  case current => exact hcurrent
  case fresh => exact h.fresh
  case named => exact h.named.trans hnum
  case parent => exact h.parent
  case event => exact h.event
  case unresumed => exact h.unresumed
  case pending =>
    change s.pending p = (Function.update s.requests p _ p).length + n
    rw [hself, List.length_cons, h.pending]
    omega
  case nodup =>
    change (Function.update s.requests p _ p).Nodup
    rw [hself]
    apply List.nodup_cons.mpr
    exact ⟨fun hmem => Nat.lt_irrefl _ (h.request _ hmem).1, h.nodup⟩
  case request =>
    change ∀ c ∈ Function.update s.requests p _ p, c < w.engine.num_frames ∧
      (w.engine.frames c).return_event = some finish ∧ (w.engine.frames c).parent_frame = some p
    rw [hself]
    intro c hc
    obtain rfl | hc := List.mem_cons.mp hc
    · exact ⟨hnum, hreturn, hparent⟩
    · obtain ⟨hname, hlinks⟩ := h.request c hc
      rw [hold c hname]
      exact ⟨hname.trans hnum, hlinks⟩
  case in_heap =>
    change (w.engine.frames p).in_heap = false
    rw [hframe]
    exact h.in_heap
  case in_queue =>
    change (w.engine.frames p).in_queue = false
    rw [hframe]
    exact h.in_queue
  case period =>
    change (w.engine.frames p).period = 0
    rw [hframe]
    exact h.period
  case waiting =>
    intro q hq hne hresumed
    have hwaiting := h.waiting q hq hne hresumed
    have hrequests : Function.update s.requests p (s.world.engine.num_frames :: s.requests p) q =
        s.requests q := Function.update_of_ne hne ..
    refine hwaiting.transfer rfl hrequests rfl hnum.le (hold q hwaiting.named) ?_ ?_ ?_
    · intro c hc
      change (w.engine.frames c).return_event = _ ∧ (w.engine.frames c).parent_frame = _
      rw [hold c (hwaiting.request c hc).1]
      exact ⟨rfl, rfl⟩
    · rw [not_taken_of_not_fresh h.fresh]
      exact not_taken_of_not_fresh h.fresh
    · exact fun _ => hrunning
  case done =>
    intro q hq hne hresumed
    have hrequests : Function.update s.requests p (s.world.engine.num_frames :: s.requests p) q =
        s.requests q := Function.update_of_ne hne ..
    exact (h.done q hq hne hresumed).transfer rfl rfl hrequests rfl
  case idle =>
    intro q hq
    have hne : q ≠ p := by
      rintro rfl
      exact hq h.parent
    have hrequests : Function.update s.requests p (s.world.engine.num_frames :: s.requests p) q =
        s.requests q := Function.update_of_ne hne ..
    exact ⟨hrequests.trans (h.idle q hq).1, (h.idle q hq).2⟩

lemma Forking.requests {event : EventId} {requests : List Request}
    (h : Forking events s p finish n)
    (hloop : requests.foldlM (countRequest p event finish) s = some s') :
    Forking events s' p finish n := by
  induction requests generalizing s with
  | nil =>
    obtain rfl := Option.some.inj hloop
    exact h
  | cons request requests ih =>
    rw [List.foldlM_cons] at hloop
    obtain ⟨s₁, hs₁, hloop⟩ := Option.bind_eq_some_iff.mp hloop
    exact ih (h.count.callRequest hs₁) hloop

lemma Forking.done_sending (h : Forking events s p finish 0) (hnull : finish ≠ null_event)
    (hpending : s.pending p = 1) : ForkInv events s where
  locked := h.locked
  waiting q hq hresumed := by
    by_cases hne : q = p
    · subst hne
      refine ⟨h.named, ⟨finish, h.event, hnull⟩, ?_, ?_, fun _ => hpending, h.nodup, ?_,
        h.in_queue, h.period, ?_, ?_⟩
      · rw [returned, h.in_heap, not_taken_of_not_fresh h.fresh]
        exact h.pending
      · rw [hpending]
        exact Nat.one_pos
      · rw [h.event]
        exact h.request
      · rw [h.in_heap]
        intro hcontra
        cases hcontra
      · rw [not_taken_of_not_fresh h.fresh]
        intro hcontra
        cases hcontra
    · exact h.waiting q hq hne hresumed
  done q hq hresumed := by
    by_cases hne : q = p
    · rw [hne] at hresumed
      exact absurd h.unresumed hresumed
    · exact h.done q hq hne hresumed
  idle := h.idle

/-- The handler goes on to the event that the requests return to. -/
lemma Forking.next (h : Forking events s p finish 1) (hnull : finish ≠ null_event)
    (hmiss : finish = events.read_request_updown_miss → s.pending p = 1)
    (hnext : s.next finish = some s') : ForkInv events s' := by
  obtain ⟨w, hw, rfl⟩ := Option.map_eq_some_iff.mp hnext
  obtain ⟨time, hengine, -, -⟩ := next_cases h.current h.locked hnull hw
  have hself : w.engine.frames p = { s.world.engine.frames p with
      event := some finish
      time := time
      period := 0
      schedule_sequence := s.world.engine.schedule_sequence_counter + 1
      in_heap := true } := by
    rw [hengine, insert_self]
  have hsched : Scheduled p s.world.engine w.engine := hengine ▸ scheduled_insert finish p time 0
  have hnot : ∀ q, taken { s with world := w } q = false := fun q => not_taken_of_not_fresh h.fresh
  constructor
  case locked => exact hsched.locked.trans h.locked
  case waiting =>
    intro q hq hresumed
    by_cases hne : q = p
    · subst hne
      refine ⟨h.named.trans_le hsched.num_frames, ⟨finish, h.event, hnull⟩, ?_, ?_, ?_, h.nodup, ?_,
        ?_, ?_, ?_, ?_⟩
      · rw [returned, hnot]
        change s.pending q = (s.requests q).length + ((w.engine.frames q).in_heap.toNat + 0)
        rw [hself]
        exact h.pending
      · change 0 < s.pending q
        rw [h.pending]
        omega
      · intro hreturns
        apply hmiss
        exact Option.some.inj (h.event.symm.trans hreturns)
      · intro c hc
        obtain ⟨hname, hevent, hparent⟩ := h.request c hc
        refine ⟨hname.trans_le hsched.num_frames, ?_, ?_⟩
        · exact (hsched.links c).1.trans (hevent.trans h.event.symm)
        · exact (hsched.links c).2.trans hparent
      · exact hsched.in_queue.trans h.in_queue
      · change (w.engine.frames q).period = 0
        rw [hself]
      · intro _
        change (w.engine.frames q).event = s.returnsTo q
        rw [hself, h.event]
      · rw [hnot]
        intro hcontra
        cases hcontra
    · have hnotBefore : s.taken q = false := not_taken_of_not_fresh h.fresh
      exact (h.waiting q hq hne hresumed).engine hsched.num_frames (hsched.others q hne)
        (fun c _ => hsched.links c) hnotBefore (.inl h.fresh)
  case done =>
    intro q hq hresumed
    by_cases hne : q = p
    · rw [hne] at hresumed
      exact absurd h.unresumed hresumed
    · exact (h.done q hq hne hresumed).transfer rfl rfl rfl rfl
  case idle => exact h.idle

lemma ForkInv.fork {event : EventId} {requests : List Request} (h : ForkInv events s)
    (hready : Ready s p) (hcurrent : s.world.engine.current_frame = some p)
    (hnull : finish ≠ null_event) (hmiss : finish ≠ events.read_request_updown_miss)
    (hfork : s.fork p event finish requests = some s') : ForkInv events s' := by
  obtain ⟨s₁, hs₁, hnext⟩ := Option.bind_eq_some_iff.mp hfork
  have hstart := h.start hready hcurrent finish 1
  exact (hstart.requests hs₁).next hnull (fun heq => absurd heq hmiss) hnext

end Fork

end OISA.Memory.Requests
