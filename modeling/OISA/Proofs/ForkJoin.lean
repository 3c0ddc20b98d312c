import OISA.Proofs.PendingRequests

/-!
# Fork and join of requests

A frame that sent requests to upper modules goes on once, when all of them are complete.
-/

namespace OISA.Memory.Requests

open OISA.Esim OISA.Lib

variable {events : Events} {s s' : Requests} {p q c : FrameId} {w : World}

section Join

lemma ForkInv.parent (h : ForkInv events s) (hlocked : s'.world.engine.locked = false)
    (hparents : s'.parents = s.parents)
    (hwaiting : ∀ q ∈ s.parents, q ≠ p → s.resumed q = 0 → Waiting events s q →
      Waiting events s' q)
    (hresumed : ∀ q, q ≠ p → s'.resumed q = s.resumed q)
    (hpending : ∀ q, q ≠ p → s'.pending q = s.pending q)
    (hrequests : ∀ q, q ≠ p → s'.requests q = s.requests q)
    (hreturns : ∀ q, q ≠ p → s'.returnsTo q = s.returnsTo q) (hp : p ∈ s.parents)
    (hself : Waiting events s' p ∧ s'.resumed p = 0 ∨ Done events s' p) : ForkInv events s' where
  locked := hlocked
  waiting q hq hresumed' := by
    rw [hparents] at hq
    by_cases hne : q = p
    · obtain ⟨hwait, -⟩ | hdone := hself
      · rwa [hne]
      · rw [hne, hdone.resumed] at hresumed'
        cases hresumed'
    · rw [hresumed q hne] at hresumed'
      exact hwaiting q hq hne hresumed' (h.waiting q hq hresumed')
  done q hq hresumed' := by
    rw [hparents] at hq
    by_cases hne : q = p
    · obtain ⟨-, hzero⟩ | hdone := hself
      · rw [hne] at hresumed'
        exact absurd hzero hresumed'
      · rwa [hne]
    · rw [hresumed q hne] at hresumed'
      exact (h.done q hq hresumed').transfer (hresumed q hne) (hpending q hne) (hrequests q hne)
        (hreturns q hne)
  idle q hq := by
    rw [hparents] at hq
    have hne : q ≠ p := by
      rintro rfl
      exact hq hp
    rw [hrequests q hne, hresumed q hne]
    exact h.idle q hq

lemma taken_of_waits (h : s.waits p = true) (hcurrent : s.world.engine.current_frame = some p) :
    s.taken p = true ∧ p ∈ s.parents ∧ s.world.engine.running = s.returnsTo p ∧
      ∃ event, s.returnsTo p = some event := by
  rw [waits] at h
  simp only [Bool.and_eq_true, decide_eq_true_eq] at h
  obtain ⟨⟨⟨hfresh, hp⟩, hrunning⟩, hsome⟩ := h
  obtain ⟨event, hevent⟩ := Option.isSome_iff_exists.mp hsome
  refine ⟨?_, hp, hrunning, event, hrunning.symm.trans hevent⟩
  rw [taken, hfresh, hcurrent]
  simp

lemma ForkInv.waiting_of_pending (h : ForkInv events s) (hp : p ∈ s.parents)
    (hpending : s.pending p ≠ 0) (hevent : s.returnsTo p ≠ none) :
    s.resumed p = 0 ∧ Waiting events s p := by
  by_cases hresumed : s.resumed p = 0
  · exact ⟨hresumed, h.waiting p hp hresumed⟩
  · obtain ⟨hzero, -⟩ | hnone := (h.done p hp hresumed).pending
    · exact absurd hzero hpending
    · exact absurd hnone hevent

lemma Waiting.resume (h : Waiting events s q) (p : FrameId) : Waiting events (s.resume p) q :=
  h.transfer rfl rfl rfl le_rfl rfl (fun _ _ => ⟨rfl, rfl⟩) rfl fun _ => rfl

lemma finish_cases (h : s.finish p = some s') :
    s.pending p ≠ 0 ∧ s' = if s.pending p - 1 ≠ 0 then { s with fresh := false }.uncount p
      else ({ s with fresh := false }.uncount p).resume p := by
  have hpending : ({ s with fresh := false }.uncount p).pending p = s.pending p - 1 := by
    apply Function.update_self
  rw [Requests.finish] at h
  split_ifs at h with hzero
  simp only [hpending] at h
  refine ⟨hzero, ?_⟩
  split_ifs at h ⊢ <;> exact (Option.some.inj h).symm

/-- The handler of the parent counts a completion, and goes on after the last one. -/
lemma ForkInv.finish (h : ForkInv events s) (hwaits : s.waits p = true)
    (hcurrent : s.world.engine.current_frame = some p)
    (hmiss : s.world.engine.running ≠ some events.read_request_updown_miss)
    (hfinish : s.finish p = some s') : ForkInv events s' := by
  obtain ⟨htaken, hp, hrunning, event, hevent⟩ := taken_of_waits hwaits hcurrent
  obtain ⟨hpending, hs'⟩ := finish_cases hfinish
  obtain ⟨hresumed, hwaiting⟩ := h.waiting_of_pending hp hpending (by rw [hevent]; simp)
  have hcount : s.pending p - 1 = (s.requests p).length +
      (s.world.engine.frames p).in_heap.toNat := by
    have hwait := hwaiting.pending
    rw [returned, htaken] at hwait
    change _ = _ + (_ + 1) at hwait
    omega
  have hself : ({ s with fresh := false }.uncount p).pending p = s.pending p - 1 := by
    apply Function.update_self
  have hother : ∀ q, q ≠ p → ({ s with fresh := false }.uncount p).pending q = s.pending q :=
    fun q hq => Function.update_of_ne hq ..
  have hnot : ∀ q, taken { s with fresh := false } q = false :=
    fun q => not_taken_of_not_fresh rfl
  have htransfer : ∀ q, q ≠ p → Waiting events s q →
      Waiting events ({ s with fresh := false }.uncount p) q := by
    intro q hq hwait
    have hbefore : s.taken q = false := by
      apply not_taken_of_current_ne
      rw [hcurrent]
      exact fun heq => hq (Option.some.inj heq).symm
    exact hwait.transfer (hother q hq) rfl rfl le_rfl rfl (fun _ _ => ⟨rfl, rfl⟩)
      ((hnot q).trans hbefore.symm) fun _ => rfl
  split_ifs at hs' with hleft
  · subst hs'
    have hstill : Waiting events ({ s with fresh := false }.uncount p) p := by
      refine ⟨hwaiting.named, hwaiting.event, ?_, ?_, ?_, hwaiting.nodup, hwaiting.request,
        hwaiting.in_queue, hwaiting.period, hwaiting.scheduled, ?_⟩
      · rw [hself, hcount, returned]
        change _ = _ + (_ + (taken { s with fresh := false } p).toNat)
        rw [hnot]
        rfl
      · rw [hself]
        exact Nat.pos_of_ne_zero hleft
      · intro hreturns
        rw [hrunning] at hmiss
        exact absurd hreturns hmiss
      · intro hcontra
        change taken { s with fresh := false } p = true at hcontra
        rw [hnot] at hcontra
        cases hcontra
    exact h.parent h.locked rfl (fun q _ hq _ => htransfer q hq) (fun _ _ => rfl) hother
      (fun _ _ => rfl) (fun _ _ => rfl) hp (.inl ⟨hstill, hresumed⟩)
  · subst hs'
    have hzero : s.pending p - 1 = 0 := not_not.mp hleft
    have hdone : Done events (({ s with fresh := false }.uncount p).resume p) p := by
      refine ⟨?_, ?_, .inl ⟨?_, ?_⟩⟩
      · change Function.update s.resumed p (s.resumed p + 1) p = 1
        rw [Function.update_self, hresumed]
      · change s.requests p = []
        rw [← List.length_eq_zero_iff]
        omega
      · change ({ s with fresh := false }.uncount p).pending p = 0
        rw [hself, hzero]
      · change s.returnsTo p ≠ some events.read_request_updown_miss
        rw [← hrunning]
        exact hmiss
    have hresume : ∀ q, q ≠ p → (({ s with fresh := false }.uncount p).resume p).resumed q =
        s.resumed q := fun q hq => Function.update_of_ne hq ..
    have hwait : ∀ q, q ≠ p → Waiting events s q →
        Waiting events (({ s with fresh := false }.uncount p).resume p) q :=
      fun q hq hwait => (htransfer q hq hwait).resume p
    exact h.parent h.locked rfl (fun q _ hq _ => hwait q hq) hresume hother
      (fun _ _ => rfl) (fun _ _ => rfl) hp (.inr hdone)

/-- The reply to a miss: an error goes to the requester, and a block to `finish`. -/
lemma ForkInv.read_request_updown_miss {error : Bool} (h : ForkInv events s)
    (hwaits : s.waits p = true) (hcurrent : s.world.engine.current_frame = some p)
    (hmiss : s.world.engine.running = some events.read_request_updown_miss)
    (hreply : s.read_request_updown_miss events p error = some s') : ForkInv events s' := by
  obtain ⟨htaken, hp, hrunning, event, hevent⟩ := taken_of_waits hwaits hcurrent
  have hreturns : s.returnsTo p = some events.read_request_updown_miss := hrunning.symm.trans hmiss
  have hresumed : s.resumed p = 0 := by
    by_contra hdone
    obtain ⟨-, hmiss⟩ | hnone := (h.done p hp hdone).pending
    · exact hmiss hreturns
    · rw [hreturns] at hnone
      cases hnone
  have hwaiting := h.waiting p hp hresumed
  have hpending := hwaiting.miss hreturns
  have hcount := hwaiting.pending
  rw [returned, htaken, hpending] at hcount
  change 1 = _ + (_ + 1) at hcount
  have hrequests : s.requests p = [] := by
    rw [← List.length_eq_zero_iff]
    omega
  have hheap : (s.world.engine.frames p).in_heap = false := by
    rw [← Bool.toNat_eq_zero]
    omega
  have hother : ∀ e q, q ≠ p → ({ s with fresh := false }.returnTo p e).returnsTo q =
      s.returnsTo q := fun e q hq => Function.update_of_ne hq ..
  have htransfer : ∀ e q, q ≠ p → Waiting events s q →
      Waiting events ({ s with fresh := false }.returnTo p e) q := by
    intro e q hq hwait
    have hbefore : s.taken q = false := by
      apply not_taken_of_current_ne
      rw [hcurrent]
      exact fun heq => hq (Option.some.inj heq).symm
    have hnot : taken ({ s with fresh := false }.returnTo p e) q = s.taken q := by
      rw [hbefore]
      exact not_taken_of_not_fresh rfl
    exact hwait.transfer rfl rfl (hother e q hq) le_rfl rfl (fun _ _ => ⟨rfl, rfl⟩) hnot
      fun _ => rfl
  rw [Requests.read_request_updown_miss] at hreply
  split_ifs at hreply with herror
  · obtain rfl := Option.some.inj hreply
    have hdone : Done events (({ s with fresh := false }.returnTo p none).resume p) p := by
      refine ⟨?_, hrequests, .inr ?_⟩
      · change Function.update s.resumed p (s.resumed p + 1) p = 1
        rw [Function.update_self, hresumed]
      · apply Function.update_self
    have hresume : ∀ q, q ≠ p → (({ s with fresh := false }.returnTo p none).resume p).resumed q =
        s.resumed q := fun q hq => Function.update_of_ne hq ..
    exact h.parent h.locked rfl (fun q _ hq _ hwait => (htransfer none q hq hwait).resume p) hresume
      (fun _ _ => rfl) (fun _ _ => rfl) (hother none) hp (.inr hdone)
  · have hforking : Forking events ({ s with fresh := false }.returnTo p
        (some events.read_request_updown_finish)) p events.read_request_updown_finish 1 := by
      constructor
      case locked => exact h.locked
      case current => exact hcurrent
      case fresh => rfl
      case named => exact hwaiting.named
      case parent => exact hp
      case event => apply Function.update_self
      case unresumed => exact hresumed
      case pending =>
        change s.pending p = (s.requests p).length + 1
        rw [hpending, hrequests, List.length_nil]
      case nodup => exact hwaiting.nodup
      case request =>
        change ∀ c ∈ s.requests p, _
        rw [hrequests]
        intro c hc
        cases hc
      case in_heap => exact hheap
      case in_queue => exact hwaiting.in_queue
      case period => exact hwaiting.period
      case waiting => exact fun q hq hne hq' => htransfer _ q hne (h.waiting q hq hq')
      case done => exact fun q hq hne hq' =>
        (h.done q hq hq').transfer rfl rfl rfl (hother _ q hne)
      case idle => exact h.idle
    exact hforking.next (events.registered _ (by simp)) (fun _ => hpending) hreply

/-- A request returns to the parent. -/
lemma ForkInv.complete (h : ForkInv events s) (hcurrent : s.world.engine.current_frame = some c)
    (hmem : c ∈ s.requests p) (hcomplete : s.complete p c = some s') : ForkInv events s' := by
  have hp : p ∈ s.parents := by
    by_contra hp
    rw [(h.idle p hp).1] at hmem
    cases hmem
  have hresumed : s.resumed p = 0 := by
    by_contra hresumed
    rw [(h.done p hp hresumed).requests] at hmem
    cases hmem
  have hwaiting := h.waiting p hp hresumed
  obtain ⟨w, hw, rfl⟩ := Option.map_eq_some_iff.mp hcomplete
  obtain ⟨hname, hreturn, hparent⟩ := hwaiting.request c hmem
  obtain ⟨event, hevent, hnull⟩ := hwaiting.event
  obtain ⟨time, hengine, hheap, hqueue⟩ :=
    return_cases hcurrent (hreturn.trans hevent) hparent h.locked hnull hw
  have hframe : w.engine.frames p = { s.world.engine.frames p with
      event := some event
      time := time
      period := 0
      schedule_sequence := s.world.engine.schedule_sequence_counter + 1
      in_heap := true } := by
    rw [hengine, insert_self]
  have hsched : Scheduled p s.world.engine w.engine := hengine ▸ scheduled_insert event p time 0
  have hself : Function.update s.requests p ((s.requests p).erase c) p = (s.requests p).erase c :=
    Function.update_self ..
  have hother : ∀ q, q ≠ p →
      Function.update s.requests p ((s.requests p).erase c) q = s.requests q :=
    fun q hq => Function.update_of_ne hq ..
  have htaken : ∀ q, taken { s with
      world := w
      requests := Function.update s.requests p ((s.requests p).erase c) } q = s.taken q := by
    intro q
    change (s.fresh && decide (w.engine.current_frame = some q)) = s.taken q
    rw [hsched.current_frame]
    rfl
  have hwait : Waiting events { s with
      world := w
      requests := Function.update s.requests p ((s.requests p).erase c) } p := by
    refine ⟨hwaiting.named.trans_le hsched.num_frames, hwaiting.event, ?_, hwaiting.positive,
      hwaiting.miss, ?_, ?_, hsched.in_queue.trans hqueue, ?_, ?_, ?_⟩
    · rw [returned, htaken]
      change s.pending p = (Function.update s.requests p ((s.requests p).erase c) p).length +
        ((w.engine.frames p).in_heap.toNat + _)
      have hlength : (s.requests p).length = ((s.requests p).erase c).length + 1 :=
        (List.length_erase_add_one hmem).symm
      rw [hself, hframe, hwaiting.pending, returned, hheap, hlength]
      change _ + 1 + (0 + _) = _ + (1 + _)
      omega
    · change (Function.update s.requests p ((s.requests p).erase c) p).Nodup
      rw [hself]
      exact hwaiting.nodup.erase c
    · intro d hd
      change d ∈ Function.update s.requests p ((s.requests p).erase c) p at hd
      rw [hself] at hd
      obtain ⟨hname', hreturn', hparent'⟩ := hwaiting.request d (List.mem_of_mem_erase hd)
      refine ⟨hname'.trans_le hsched.num_frames, ?_, ?_⟩
      · exact (hsched.links d).1.trans hreturn'
      · exact (hsched.links d).2.trans hparent'
    · change (w.engine.frames p).period = 0
      rw [hframe]
    · intro _
      change (w.engine.frames p).event = s.returnsTo p
      rw [hframe, hevent]
    · rw [htaken]
      intro ht
      exact hsched.running.trans (hwaiting.running ht)
  have hwaits : ∀ q, q ≠ p → Waiting events s q → Waiting events { s with
      world := w
      requests := Function.update s.requests p ((s.requests p).erase c) } q := by
    intro q hq hwaitq
    exact hwaitq.transfer rfl (hother q hq) rfl hsched.num_frames (hsched.others q hq)
      (fun d _ => hsched.links d) (htaken q) fun _ => hsched.running
  exact h.parent (hsched.locked.trans h.locked) rfl (fun q _ hq _ => hwaits q hq)
    (fun _ _ => rfl) (fun _ _ => rfl) hother (fun _ _ => rfl) hp (.inl ⟨hwait, hresumed⟩)

end Join

section Runs

lemma ForkInv.setDirectory (h : ForkInv events s) (module : ModuleId) (directory : Directory) :
    ForkInv events (s.setDirectory module directory) where
  locked := h.locked
  waiting p hp hresumed := (h.waiting p hp hresumed).transfer rfl rfl rfl le_rfl rfl
    (fun _ _ => ⟨rfl, rfl⟩) rfl fun _ => rfl
  done p hp hresumed := (h.done p hp hresumed).transfer rfl rfl rfl rfl
  idle := h.idle

lemma ForkInv.read_request_updown {frame : ReadRequest} (h : ForkInv events s)
    (hready : Ready s p) (hcurrent : s.world.engine.current_frame = some p)
    (hread : s.read_request_updown events p frame = some s') : ForkInv events s' := by
  rw [Requests.read_request_updown] at hread
  split_ifs at hread with hstate
  · obtain ⟨requests, -, hfork⟩ := Option.bind_eq_some_iff.mp hread
    have hdistinct := events.distinct
    apply h.fork hready hcurrent (events.registered _ (by simp)) _ hfork
    intro heq
    rw [← heq] at hdistinct
    simp at hdistinct
  · have hforking := (h.start hready hcurrent events.read_request_updown_miss 1).callRequest hread
    obtain ⟨w, -, rfl⟩ := Option.map_eq_some_iff.mp hread
    apply hforking.done_sending (events.registered _ (by simp))
    apply Function.update_self

lemma ForkInv.step {op : Op} (h : ForkInv events s) (hdisc : Disciplined op s)
    (hstep : step events op s = some s') : ForkInv events s' := by
  have hdistinct := events.distinct
  cases op with
  | esim op => exact h.esim hdisc hstep
  | update module directory =>
    obtain rfl := Option.some.inj hstep
    exact h.setDirectory module directory
  | invalidate frame =>
    cases hcurrent : s.world.engine.current_frame with
    | none => simp [Requests.step, hcurrent] at hstep
    | some p =>
      simp only [Requests.step, hcurrent] at hstep
      obtain ⟨x, -, hfork⟩ := Option.bind_eq_some_iff.mp hstep
      have hready := hdisc p hcurrent
      apply (h.setDirectory frame.module x.1).fork ⟨hready.named, hready.parents, hready.in_heap,
        hready.in_queue, hready.period⟩ hcurrent (events.registered _ (by simp)) _ hfork
      intro heq
      rw [← heq] at hdistinct
      simp at hdistinct
  | read_request_updown frame =>
    cases hcurrent : s.world.engine.current_frame with
    | none => simp [Requests.step, hcurrent] at hstep
    | some p =>
      simp only [Requests.step, hcurrent] at hstep
      exact h.read_request_updown (hdisc p hcurrent) hcurrent hstep
  | read_request_downup frame =>
    cases hcurrent : s.world.engine.current_frame with
    | none => simp [Requests.step, hcurrent] at hstep
    | some p =>
      simp only [Requests.step, hcurrent] at hstep
      obtain ⟨requests, -, hfork⟩ := Option.bind_eq_some_iff.mp hstep
      apply h.fork (hdisc p hcurrent) hcurrent (events.registered _ (by simp)) _ hfork
      intro heq
      rw [← heq] at hdistinct
      simp at hdistinct
  | read_request_updown_miss error =>
    cases hcurrent : s.world.engine.current_frame with
    | none => simp [Requests.step, hcurrent] at hstep
    | some p =>
      simp only [Requests.step, hcurrent] at hstep
      split_ifs at hstep with hwaits
      rw [Bool.and_eq_true, decide_eq_true_eq] at hwaits
      exact h.read_request_updown_miss hwaits.1 hcurrent hwaits.2 hstep
  | finish =>
    cases hcurrent : s.world.engine.current_frame with
    | none => simp [Requests.step, hcurrent] at hstep
    | some p =>
      simp only [Requests.step, hcurrent] at hstep
      split_ifs at hstep with hwaits
      rw [Bool.and_eq_true, decide_eq_true_eq] at hwaits
      exact h.finish hwaits.1 hcurrent hwaits.2 hstep
  | complete =>
    cases hcurrent : s.world.engine.current_frame with
    | none => simp [Requests.step, hcurrent] at hstep
    | some c =>
      simp only [Requests.step, hcurrent] at hstep
      split at hstep
      case h_1 p hparent =>
        split_ifs at hstep with hmem
        exact h.complete hcurrent hmem hstep
      case h_2 => cases hstep

lemma forkInv_init (events : Events) (modules : ModuleId → Module) :
    ForkInv events { modules := modules } where
  locked := rfl
  waiting _ hp := absurd hp List.not_mem_nil
  done _ hp := absurd hp List.not_mem_nil
  idle _ _ := ⟨rfl, rfl⟩

lemma ForkInv.run {ops : List Op} (h : ForkInv events s)
    (halong : Along (Requests.step events) Disciplined ops s)
    (hrun : run (Requests.step events) ops s = some s') : ForkInv events s' :=
  run_invariant (P := Disciplined) (fun _ _ _ hinv hdisc hstep => hinv.step hdisc hstep) h halong
    hrun

lemma Waiting.complete_isSome (h : Waiting events s p) (hlocked : s.world.engine.locked = false)
    (hmem : c ∈ s.requests p) (hcurrent : s.world.engine.current_frame = some c)
    (hcallable : World.callable s.world.engine = true)
    (hcycle : ∀ event ∈ s.returnsTo p, ∃ time, 0 < time ∧
      s.world.engine.cycleTime event = some time) :
    (Requests.step events .complete s).isSome ↔ (s.world.engine.frames p).in_heap = false := by
  obtain ⟨-, hreturn, hparent⟩ := h.request c hmem
  obtain ⟨event, hevent, hnull⟩ := h.event
  obtain ⟨time, htime, hcycle⟩ := hcycle event hevent
  have hret : s.world.engine.Return 0 = s.world.engine.Schedule (some event) (some p) 0 0 := by
    simp only [Engine.Return, hcurrent, hreturn, hevent, hparent]
  have hschedule : (s.world.engine.Schedule (some event) (some p) 0 0).isSome ↔
      (s.world.engine.frames p).in_heap = false := by
    simp only [Engine.Schedule, h.in_queue, hlocked, hnull, hcycle, htime.ne', if_false,
      Bool.false_eq_true, Option.bind_some]
    cases (s.world.engine.frames p).in_heap <;> simp
  have hstep : (World.step (.ret 0) s.world).isSome ↔
      (s.world.engine.Schedule (some event) (some p) 0 0).isSome := by
    rw [← hret]
    have hcall : World.call s.world.engine (.ret 0) = s.world.engine.Return 0 := rfl
    have hloop : World.loop s.world.engine (.ret 0) = none := rfl
    simp only [World.step, hcallable, hcall, hloop, true_and]
    cases s.world.engine.Return 0 <;> simp
  rw [← hschedule, ← hstep]
  simp only [Requests.step, hcurrent, hparent, hmem, if_true]
  rw [Requests.complete, Option.isSome_map]

/-- Along any run a parent goes on at most once, after all of its requests are complete, and it has
gone on once no completion is left. -/
theorem run_resumes (events : Events) (modules : ModuleId → Module) {ops : List Op} {s : Requests}
    (halong : Along (Requests.step events) Disciplined ops { modules := modules })
    (hrun : run (Requests.step events) ops { modules := modules } = some s) :
    ∀ p ∈ s.parents, s.resumed p ≤ 1 ∧ (s.resumed p = 1 → s.requests p = []) ∧
      (s.requests p = [] → (s.world.engine.frames p).in_heap = false → s.taken p = false →
        s.resumed p = 1) ∧
      ∀ c ∈ s.requests p, s.world.engine.current_frame = some c →
        World.callable s.world.engine = true →
        (∀ event ∈ s.returnsTo p, ∃ time, 0 < time ∧
          s.world.engine.cycleTime event = some time) →
        ((Requests.step events .complete s).isSome ↔
          (s.world.engine.frames p).in_heap = false) := by
  have h := (forkInv_init events modules).run halong hrun
  intro p hp
  by_cases hresumed : s.resumed p = 0
  · have hwaiting := h.waiting p hp hresumed
    refine ⟨?_, ?_, ?_, ?_⟩
    · rw [hresumed]
      exact Nat.zero_le 1
    · rw [hresumed]
      intro hcontra
      cases hcontra
    · intro hrequests hheap htaken
      have hpending := hwaiting.pending
      rw [hrequests, returned, hheap, htaken] at hpending
      exact absurd hpending hwaiting.positive.ne'
    · intro c hc hcurrent hcallable hcycle
      exact hwaiting.complete_isSome h.locked hc hcurrent hcallable hcycle
  · have hdone := h.done p hp hresumed
    refine ⟨hdone.resumed.le, fun _ => hdone.requests, fun _ _ _ => hdone.resumed, ?_⟩
    intro c hc
    rw [hdone.requests] at hc
    cases hc

/-- A module with two sharers above it, and the events 1 to 6. -/
def twoSharers (m : ModuleId) : Module where
  block_size := 64
  sub_block_size := 64
  directory :=
    { num_sets := 1, num_ways := 1, num_sub_blocks := 1, num_nodes := 2
      entries := fun _ => { num_sharers := 2 }
      sharers := fun _ => true }
  high_nodes i := m + i + 1

def sixEvents : Events where
  write_request := 1
  read_request := 2
  invalidate_finish := 3
  read_request_updown_finish := 4
  read_request_updown_miss := 5
  read_request_downup_finish := 6
  registered := by decide
  distinct := by decide

/-- A frequency domain of 1 GHz, the six events and the event 7 of a frame 0. -/
def startTwo : List Op :=
  [.esim (.registerFrequencyDomain 1000), .esim (.registerEvent (some 0)),
    .esim (.registerEvent (some 0)), .esim (.registerEvent (some 0)),
    .esim (.registerEvent (some 0)), .esim (.registerEvent (some 0)),
    .esim (.registerEvent (some 0)), .esim (.registerEvent (some 0)),
    .esim .newFrame, .esim (.schedule (some 7) 0 0 0), .esim .startProcess]

/-- An invalidation in frame 0, whose requests in the frames 1 and 2 take one cycle and `cycles`
cycles. -/
def invalidateTwo (cycles : ℕ) : List Op :=
  [.esim .processEvent, .invalidate ⟨0, 0, 0, 0x80, 0x80, false, none⟩, .esim .handlerEnd,
    .esim .processEvent, .esim (.next (some 1) 1 0), .esim .handlerEnd,
    .esim .processEvent, .esim (.next (some 1) cycles 0), .esim .handlerEnd,
    .esim .processEvent, .finish, .esim .handlerEnd, .esim .nextCycle, .esim .startProcess,
    .esim .processEvent, .complete, .esim .handlerEnd]

def finishTwo : List Op :=
  [.esim .processEvent, .finish, .esim .handlerEnd, .esim .nextCycle, .esim .startProcess,
    .esim .processEvent, .complete, .esim .handlerEnd, .esim .processEvent, .finish]

/-- The run in which the second request takes a cycle more. -/
theorem run_resumes_twoCycles :
    ∃ s ∈ run (Requests.step sixEvents) (startTwo ++ invalidateTwo 2 ++ finishTwo)
        { modules := twoSharers },
      s.parents = [0] ∧ (s.requests 0 = [] → (s.world.engine.frames 0).in_heap = false →
        s.taken 0 = false → s.resumed 0 = 1) ∧ s.requests 0 = [] ∧ s.resumed 0 = 1 := by
  have hrun : ∃ s ∈ run (Requests.step sixEvents) (startTwo ++ invalidateTwo 2 ++ finishTwo)
      { modules := twoSharers }, s.parents = [0] ∧ s.requests 0 = [] ∧ s.resumed 0 = 1 := by
    decide +kernel
  have halong : Along (Requests.step sixEvents) Disciplined
      (startTwo ++ invalidateTwo 2 ++ finishTwo) { modules := twoSharers } := by
    decide +kernel
  obtain ⟨s, hs, hparents, hrequests, hresumed⟩ := hrun
  have hresumes := run_resumes sixEvents twoSharers halong hs 0 (by rw [hparents]; simp)
  exact ⟨s, hs, hparents, hresumes.2.2.1, hrequests, hresumed⟩

/-- Both requests return in the same cycle: the second one finds the parent in the heap. -/
theorem not_complete_sameCycle :
    Along (Requests.step sixEvents) Disciplined
        (startTwo ++ invalidateTwo 1 ++ [.esim .processEvent]) { modules := twoSharers } ∧
      ∃ s ∈ run (Requests.step sixEvents) (startTwo ++ invalidateTwo 1 ++ [.esim .processEvent])
          { modules := twoSharers },
        s.world.engine.current_frame = some 2 ∧ 2 ∈ s.requests 0 ∧
        World.callable s.world.engine = true ∧ s.world.engine.cycleTime 3 = some 1000 ∧
        (Requests.step sixEvents .complete s).isSome = false := by
  constructor
  · decide +kernel
  · decide +kernel

end Runs

end OISA.Memory.Requests
