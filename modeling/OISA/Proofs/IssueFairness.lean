import OISA.Lib.RoundRobin
import OISA.Proofs.PipelineSteps

/-!
# Fairness of the issue stage

Both loops of `Core::Issue` advance the same cursor.
-/

namespace OISA.X86

open Lib

namespace Thread

variable {core core' core₁ : Core} {t u n n' : ℕ} {q : Queue} {available canAccess : ℕ → Bool}
  {Reserve : ℕ → ℕ} {quantum : ℕ} {uops : List ℕ} {env : IssueEnv}

def isReady (available : ℕ → Bool) (core : Core) (u : ℕ) : Bool :=
  (core.uops u).ready || available u

def storeIssues (canAccess : ℕ → Bool) (core : Core) (u : ℕ) : Bool :=
  !((core.uops u).in_queue .ReorderBuffer || !canAccess u)

/-- The issuable uops of the load-store queue: the loads, and the stores up to the first one that
has to wait -/
def issuableLoadStores (env : IssueEnv) (t : ℕ) (core : Core) : ℕ :=
  ((core.threads t).queue .Load).countP
      (fun u => isReady env.available core u && env.canAccess u) +
    (((core.threads t).queue .Store).takeWhile (storeIssues env.canAccess core)).length

def issuableInstructions (env : IssueEnv) (t : ℕ) (core : Core) : ℕ :=
  ((core.threads t).queue .Instruction).countP
    fun u => isReady env.available core u && decide (env.Reserve u ≠ 0)

/-- `n` uops leave a queue of a thread, and the other queues can issue what they could before. -/
structure Issues (available : ℕ → Bool) (t : ℕ) (q : Queue) (n : ℕ) (core core' : Core) : Prop where
  ready : isReady available core' = isReady available core
  reordered : ∀ u, (core'.uops u).in_queue .ReorderBuffer = (core.uops u).in_queue .ReorderBuffer
  length : ((core'.threads t).queue q).length + n = ((core.threads t).queue q).length
  other : ∀ t' q', q' ≠ q → (core'.threads t').queue q' = (core.threads t').queue q'

namespace Issues

lemma of_eq (hready : ∀ u, isReady available core' u = isReady available core u)
    (hqueue : ∀ u, (core'.uops u).in_queue = (core.uops u).in_queue)
    (hthreads : core'.threads = core.threads) : Issues available t q 0 core core' where
  ready := funext hready
  reordered u := congrFun (hqueue u) _
  length := by rw [hthreads, Nat.add_zero]
  other t' q' _ := by rw [hthreads]

lemma refl (core : Core) : Issues available t q 0 core core :=
  of_eq (fun _ => rfl) (fun _ => rfl) rfl

lemma trans (h : Issues available t q n core core₁) (h' : Issues available t q n' core₁ core') :
    Issues available t q (n + n') core core' where
  ready := h'.ready.trans h.ready
  reordered u := (h'.reordered u).trans (h.reordered u)
  length := by
    have h₁ := h.length
    have h₂ := h'.length
    omega
  other t' q' hq := (h'.other t' q' hq).trans (h.other t' q' hq)

lemma congr (h : Issues available t q n core core₁)
    (hready : ∀ u, isReady available core' u = isReady available core₁ u)
    (hqueue : ∀ u, (core'.uops u).in_queue = (core₁.uops u).in_queue)
    (hthreads : core'.threads = core₁.threads) : Issues available t q n core core' :=
  h.trans (of_eq hready hqueue hthreads)

lemma setUop {f : QueuedUop → QueuedUop}
    (hready : ((f (core.uops u)).ready || available u) = isReady available core u)
    (hqueue : (f (core.uops u)).in_queue = (core.uops u).in_queue) :
    Issues available t q 0 core (core.setUop u f) := by
  refine of_eq (fun v => ?_) (fun v => ?_) rfl
  · by_cases hv : v = u
    · subst hv
      rw [isReady, Core.setUop_uops_self, hready]
    · rw [isReady, Core.setUop_uops_of_ne _ _ hv]
      rfl
  · by_cases hv : v = u
    · subst hv
      rw [Core.setUop_uops_self, hqueue]
    · rw [Core.setUop_uops_of_ne _ _ hv]

lemma take (hq : q ≠ .ReorderBuffer) (hu : u ∈ (core.threads t).queue q) :
    Issues available t q 1 core (core.take t u q) := by
  have huops : (core.take t u q).uops = (core.setUop u fun uop => { uop with
    in_queue := Function.update uop.in_queue q false }).uops := rfl
  refine ⟨funext fun v => ?_, fun v => ?_, ?_, fun t' q' hq' => ?_⟩
  · rw [isReady, huops]
    by_cases hv : v = u
    · subst hv
      rw [Core.setUop_uops_self]
      rfl
    · rw [Core.setUop_uops_of_ne _ _ hv]
      rfl
  · rw [huops]
    by_cases hv : v = u
    · subst hv
      rw [Core.setUop_uops_self]
      exact Function.update_of_ne hq.symm _ _
    · rw [Core.setUop_uops_of_ne _ _ hv]
  · rw [Core.take_queue_self]
    exact List.length_erase_add_one hu
  · by_cases ht : t' = t
    · subst ht
      exact Core.take_queue_of_ne _ _ _ hq'
    · rw [Core.take_threads_of_ne _ _ _ ht]

end Issues

lemma isUopReady_spec (core : Core) (u : ℕ) (available : ℕ → Bool) :
    (isUopReady core u available).2 = isReady available core u ∧
      (isUopReady core u available).1.threads = core.threads ∧
      ∀ t q, Issues available t q 0 core (isUopReady core u available).1 := by
  unfold isUopReady
  cases hready : (core.uops u).ready with
  | true =>
    rw [if_pos rfl]
    refine ⟨?_, rfl, fun t q => Issues.refl core⟩
    rw [isReady, hready]
    rfl
  | false =>
    rw [if_neg Bool.false_ne_true]
    cases havailable : available u with
    | true =>
      rw [if_pos rfl]
      have hready : isReady available core u = true := by rw [isReady, havailable, Bool.or_true]
      have hset : ∀ t q, Issues available t q 0 core
          (core.setUop u fun uop => { uop with ready := true }) :=
        fun t q => Issues.setUop (by rw [hready, Bool.true_or]) rfl
      exact ⟨hready.symm, rfl, hset⟩
    | false =>
      rw [if_neg Bool.false_ne_true]
      refine ⟨?_, rfl, fun t q => Issues.refl core⟩
      rw [isReady, hready, havailable]
      rfl

lemma issues_extract {core₁ : Core} (hq : q ≠ .ReorderBuffer) (hu : u ∈ (core.threads t).queue q)
    (huops : core₁.uops = (core.take t u q).uops)
    (hthreads : core₁.threads = (core.take t u q).threads) :
    Issues available t q 1 core core₁ :=
  (Issues.take hq hu).congr (fun v => by unfold isReady; rw [huops]) (fun v => by rw [huops])
    hthreads

lemma issues_issued (core : Core) (u : ℕ) : Issues available t q 0 core
    (core.setUop u fun uop => { uop with issued := true }) := Issues.setUop rfl rfl

lemma issues_memoryAccess (core : Core) (u : ℕ) :
    Issues available t q 0 core (MemoryAccess core u) :=
  (issues_issued core u).congr (fun _ => rfl) (fun _ => rfl) rfl

lemma issues_insertInEventQueue {latency : ℕ}
    (h : core.InsertInEventQueue u latency = some core') :
    Issues available t q 0 core core' ∧ core'.threads = core.threads := by
  simp only [Core.InsertInEventQueue, Option.bind_eq_bind, Option.bind_eq_some_iff, guard_eq_some,
    exists_const, Option.some.injEq] at h
  obtain ⟨_, _, rfl⟩ := h
  have hset : Issues available t q 0 core (core.setUop u fun uop => { uop with
      complete_when := core.cycle + latency
      in_event_queue := true }) := Issues.setUop rfl rfl
  exact ⟨hset.congr (fun _ => rfl) (fun _ => rfl) rfl, rfl⟩

lemma subperm_take (hsub : (u :: uops).Subperm ((core.threads t).queue q))
    (hqueue : (core₁.threads t).queue q = ((core.threads t).queue q).erase u) :
    uops.Subperm ((core₁.threads t).queue q) := by
  rw [hqueue]
  have herase := hsub.erase u
  rwa [List.erase_cons_head] at herase

lemma scan_issues {can : ℕ → Bool} {issue : Core → ℕ → Option Core}
    (hissue : ∀ {core core' u}, u ∈ (core.threads t).queue q → issue core u = some core' →
      Issues available t q 1 core core' ∧
        (core'.threads t).queue q = ((core.threads t).queue q).erase u)
    (hsub : uops.Subperm ((core.threads t).queue q))
    (h : scan available can issue quantum uops core = some core') :
    Issues available t q (min quantum (uops.countP fun u => isReady available core u && can u))
      core core' := by
  induction uops generalizing core quantum with
  | nil =>
    rw [scan, Option.some.injEq] at h
    subst h
    rw [List.countP_nil, Nat.min_zero]
    exact Issues.refl core
  | cons u uops ih =>
    cases quantum with
    | zero =>
      rw [scan, Option.some.injEq] at h
      subst h
      rw [Nat.zero_min]
      exact Issues.refl core
    | succ quantum =>
      obtain ⟨hready, hthreads, hissues⟩ := isUopReady_spec core u available
      rw [scan, hready] at h
      rw [← hthreads] at hsub
      rw [List.countP_cons]
      split_ifs at h ⊢ with hcan
      · obtain ⟨core₂, hfirst, hrest⟩ := Option.bind_eq_some_iff.mp h
        obtain ⟨hone, hqueue⟩ := hissue (hsub.subset List.mem_cons_self) hfirst
        have hstep := (hissues t q).trans hone
        have hall := hstep.trans (ih (subperm_take hsub hqueue) hrest)
        rw [hstep.ready] at hall
        rw [Nat.add_min_add_right, Nat.add_comm, ← Nat.zero_add 1]
        exact hall
      · have htail := (List.sublist_cons_self u uops).subperm.trans hsub
        have hall := (hissues t q).trans (ih htail h)
        rwa [(hissues t q).ready, Nat.zero_add] at hall

lemma issueLoadQueue_issues (hsub : uops.Subperm ((core.threads t).queue .Load))
    (h : IssueLoadQueue t available canAccess quantum uops core = some core') :
    Issues available t .Load
      (min quantum (uops.countP fun u => isReady available core u && canAccess u)) core core' := by
  refine scan_issues ?_ hsub (IssueLoadQueue_scan h)
  intro core core' u hu hissue
  obtain ⟨core₁, hextract, rfl⟩ := Option.map_eq_some_iff.mp hissue
  obtain ⟨_, _, _, rfl⟩ := ExtractFromLoadQueue_eq_some.mp hextract
  refine ⟨(issues_extract (by decide) hu ?_ ?_).trans (issues_memoryAccess _ u), ?_⟩
  · rfl
  · rfl
  · exact Core.take_queue_self ..

lemma issueStoreQueue_issues (available : ℕ → Bool)
    (hsub : uops.Subperm ((core.threads t).queue .Store))
    (h : IssueStoreQueue t canAccess quantum uops core = some core') :
    Issues available t .Store (min quantum (uops.takeWhile (storeIssues canAccess core)).length)
      core core' := by
  induction uops generalizing core quantum with
  | nil =>
    rw [IssueStoreQueue, Option.some.injEq] at h
    subst h
    rw [List.takeWhile_nil, List.length_nil, Nat.min_zero]
    exact Issues.refl core
  | cons u uops ih =>
    cases quantum with
    | zero =>
      rw [IssueStoreQueue, Option.some.injEq] at h
      subst h
      rw [Nat.zero_min]
      exact Issues.refl core
    | succ quantum =>
      simp only [IssueStoreQueue, Option.bind_eq_bind, Option.bind_eq_some_iff, guard_eq_some,
        exists_const] at h
      obtain ⟨_, h⟩ := h
      by_cases hstop : ((core.uops u).in_queue .ReorderBuffer || !canAccess u) = true
      · rw [if_pos hstop, Option.some.injEq] at h
        subst h
        have hnot : ¬ storeIssues canAccess core u = true := by
          unfold storeIssues
          rw [hstop]
          decide
        rw [List.takeWhile_cons_of_neg hnot, List.length_nil, Nat.min_zero]
        exact Issues.refl core
      · rw [if_neg hstop, Option.bind_eq_some_iff] at h
        obtain ⟨core₂, hextract, hrest⟩ := h
        obtain ⟨_, _, _, htake⟩ := ExtractFromStoreQueue_eq_some.mp hextract
        have huops : core₂.uops = (core.take t u .Store).uops := by rw [← htake]
        have hthreads : core₂.threads = (core.take t u .Store).threads := by rw [← htake]
        have hissues : storeIssues canAccess core u = true := by
          unfold storeIssues
          rw [Bool.eq_false_of_not_eq_true hstop]
          rfl
        have hfirst : Issues available t .Store 1 core (MemoryAccess core₂ u) :=
          (issues_extract (by decide) (hsub.subset List.mem_cons_self) huops hthreads).trans
            (issues_memoryAccess core₂ u)
        have htaken : uops.Subperm (((MemoryAccess core₂ u).threads t).queue .Store) :=
          subperm_take hsub (by
            change (core₂.threads t).queue .Store = _
            rw [hthreads]
            exact Core.take_queue_self ..)
        have hall := hfirst.trans (ih htaken hrest)
        have hsame : storeIssues canAccess (MemoryAccess core₂ u) = storeIssues canAccess core := by
          funext v
          unfold storeIssues
          rw [hfirst.reordered]
        rw [hsame] at hall
        rw [List.takeWhile_cons_of_pos hissues, List.length_cons, Nat.add_min_add_right,
          Nat.add_comm]
        exact hall

lemma issueInstructionQueue_issues (hsub : uops.Subperm ((core.threads t).queue .Instruction))
    (h : IssueInstructionQueue t available Reserve quantum uops core = some core') :
    Issues available t .Instruction (min quantum
      (uops.countP fun u => isReady available core u && decide (Reserve u ≠ 0))) core core' := by
  refine scan_issues ?_ hsub (IssueInstructionQueue_scan h)
  intro core core' u hu hissue
  obtain ⟨core₁, hextract, hevent⟩ := Option.bind_eq_some_iff.mp hissue
  obtain ⟨_, _, _, rfl⟩ := ExtractFromInstructionQueue_eq_some.mp hextract
  obtain ⟨hinserted, hthreads⟩ := issues_insertInEventQueue hevent
  refine ⟨(issues_extract (by decide) hu ?_ ?_).trans ((issues_issued _ u).trans hinserted), ?_⟩
  · rfl
  · rfl
  · rw [hthreads]
    exact Core.take_queue_self ..

lemma Issues.issued_eq (h : Issues available t q n core core') : issued t q core core' = n := by
  have hlen := h.length
  unfold issued
  omega

lemma Issues.issuableInstructions_eq (h : Issues env.available t q n core core')
    (hq : Queue.Instruction ≠ q) (t' : ℕ) :
    issuableInstructions env t' core' = issuableInstructions env t' core := by
  unfold issuableInstructions
  rw [h.other t' _ hq, h.ready]

lemma issueLoadStoreQueue_spec {quantum left : ℤ}
    (h : IssueLoadStoreQueue env t quantum core = some (core', left)) :
    left = quantum - (min quantum.toNat (issuableLoadStores env t core) : ℕ) ∧
      ∀ t', issuableInstructions env t' core' = issuableInstructions env t' core := by
  simp only [IssueLoadStoreQueue, Option.bind_eq_bind, Option.bind_eq_some_iff, Option.some.injEq,
    Prod.mk.injEq] at h
  obtain ⟨core₁, hload, core₂, hstore, rfl, rfl⟩ := h
  have hloads := issueLoadQueue_issues (List.Subperm.refl _) hload
  have hstores := issueStoreQueue_issues env.available (List.Subperm.refl _) hstore
  rw [hloads.issued_eq] at hstores ⊢
  rw [hstores.issued_eq]
  have hsame : storeIssues env.canAccess core₁ = storeIssues env.canAccess core := by
    funext v
    unfold storeIssues
    rw [hloads.reordered]
  refine ⟨?_, fun t' => ?_⟩
  · rw [hloads.other t .Store (by decide), hsame]
    unfold issuableLoadStores
    omega
  · rw [hstores.issuableInstructions_eq (by decide), hloads.issuableInstructions_eq (by decide)]

lemma issueInstructions_spec {quantum left : ℤ}
    (h : IssueInstructions env t quantum core = some (core', left)) :
    left = quantum - (min quantum.toNat (issuableInstructions env t core) : ℕ) := by
  simp only [IssueInstructions, Option.bind_eq_bind, Option.bind_eq_some_iff, Option.some.injEq,
    Prod.mk.injEq] at h
  obtain ⟨core₁, hissue, rfl, rfl⟩ := h
  rw [(issueInstructionQueue_issues (List.Subperm.refl _) hissue).issued_eq]
  rfl

def Saturated (env : IssueEnv) (issue_width : ℤ) (t : ℕ) (core : Core) : Prop :=
  issue_width < issuableLoadStores env t core ∧ issue_width < issuableInstructions env t core

end Thread

namespace Core

open Thread

variable {kind : IssueKind} {issue_width : ℤ} {num_threads c c' skip : ℕ} {env : IssueEnv}
  {core core' : Core} {threads : List ℕ} {more : ℤ → Bool}
  {serve : ℕ → ℤ → Core → Option (Core × ℤ)} {quantum : ℤ}

/-- The quantum that is used up ends a loop. -/
def Stops (kind : IssueKind) (issue_width : ℤ) : Prop :=
  0 < issue_width ∨ issue_width = 0 ∧ kind = .Shared

lemma more_of_stops (h : Stops kind issue_width) {left : ℤ} {n : ℕ}
    (hleft : left = issue_width - (min issue_width.toNat n : ℕ)) (hn : issue_width < n) :
    kind.more issue_width left = false := by
  have hzero : left = 0 := by
    rcases h with hpos | ⟨hwidth, -⟩ <;> omega
  rw [hzero]
  cases kind with
  | Shared => rfl
  | Timeslice =>
    refine decide_eq_false ?_
    rcases h with hpos | ⟨-, hkind⟩
    · omega
    · cases hkind

lemma more_of_not_stops (h : ¬ Stops kind issue_width) :
    issue_width.toNat = 0 ∧ kind.more issue_width issue_width = true := by
  have hnot := not_or.mp h
  refine ⟨by omega, ?_⟩
  cases kind with
  | Shared =>
    refine decide_eq_true ?_
    rintro rfl
    exact hnot.2 ⟨rfl, rfl⟩
  | Timeslice => exact decide_eq_true rfl

lemma issueLoop_stops (hskip : 0 < skip)
    (hstop : ∀ core' left, serve ((c + 1) % num_threads) quantum core = some (core', left) →
      more left = false)
    (h : issueLoop num_threads more serve skip quantum c core = some (threads, c', core')) :
    threads = [(c + 1) % num_threads] ∧ c' = (c + 1) % num_threads ∧
      ∃ left, serve ((c + 1) % num_threads) quantum core = some (core', left) := by
  obtain ⟨skip, rfl⟩ := Nat.exists_eq_succ_of_ne_zero hskip.ne'
  simp only [issueLoop, Option.bind_eq_bind, Option.bind_eq_some_iff] at h
  obtain ⟨⟨core₁, left⟩, hserve, h⟩ := h
  rw [hstop core₁ left hserve, if_neg Bool.false_ne_true] at h
  obtain ⟨rfl, rfl, rfl⟩ : [(c + 1) % num_threads] = threads ∧ (c + 1) % num_threads = c' ∧
      core₁ = core' := by simpa using h
  exact ⟨rfl, rfl, left, hserve⟩

lemma issueLoop_rounds (hserve : ∀ t core core' left, serve t quantum core = some (core', left) →
      left = quantum) (hmore : more quantum = true) (hc : c < num_threads)
    (h : issueLoop num_threads more serve skip quantum c core = some (threads, c', core')) :
    c' = (c + skip) % num_threads ∧
      (0 < skip → threads.head? = some ((c + 1) % num_threads)) := by
  induction skip generalizing c core threads with
  | zero =>
    obtain ⟨rfl, rfl, rfl⟩ : [] = threads ∧ c = c' ∧ core = core' := by
      simpa [issueLoop] using h
    exact ⟨(Nat.mod_eq_of_lt hc).symm, fun h => absurd h (Nat.lt_irrefl 0)⟩
  | succ skip ih =>
    simp only [issueLoop, Option.bind_eq_bind, Option.bind_eq_some_iff] at h
    obtain ⟨⟨core₁, left⟩, hfirst, h⟩ := h
    obtain rfl := hserve _ _ _ _ hfirst
    rw [if_pos hmore, Option.bind_eq_some_iff] at h
    obtain ⟨⟨threads₁, c₁, core₂⟩, hrest, h⟩ := h
    obtain ⟨rfl, rfl, rfl⟩ : (c + 1) % num_threads :: threads₁ = threads ∧ c₁ = c' ∧
        core₂ = core' := by simpa using h
    obtain ⟨hcursor, -⟩ := ih (Nat.mod_lt _ (by omega)) hrest
    rw [Nat.mod_add_mod] at hcursor
    exact ⟨hcursor.trans (by rw [Nat.add_right_comm, Nat.add_assoc]), fun _ => rfl⟩

lemma issue_spec {result : Issued} (hc : c < num_threads)
    (hsaturated : ∀ t < num_threads, Saturated env issue_width t core)
    (h : Issue kind issue_width num_threads env c core = some result) :
    result.load_store.head? = some ((c + 1) % num_threads) ∧
      (Stops kind issue_width →
        result.instruction.head? = some ((c + 2) % num_threads) ∧
          result.current_issue_thread = (c + 2) % num_threads) ∧
      (¬ Stops kind issue_width →
        result.instruction.head? = some ((c + 1) % num_threads) ∧
          result.current_issue_thread = c) := by
  have hpos : 0 < num_threads := by omega
  simp only [Issue, Option.bind_eq_bind, Option.bind_eq_some_iff, Option.some.injEq] at h
  obtain ⟨⟨load_store, c₁, core₁⟩, hload, ⟨instruction, c₂, core₂⟩, hinstruction, rfl⟩ := h
  dsimp only at hinstruction ⊢
  by_cases hstops : Stops kind issue_width
  · obtain ⟨rfl, rfl, left, hfirst⟩ := issueLoop_stops hpos (fun core' left hserve =>
      more_of_stops hstops (issueLoadStoreQueue_spec hserve).1
        (hsaturated _ (Nat.mod_lt _ hpos)).1) hload
    have hsame := (issueLoadStoreQueue_spec hfirst).2
    obtain ⟨rfl, rfl, -⟩ := issueLoop_stops hpos (fun core' left hserve =>
      more_of_stops hstops (issueInstructions_spec hserve) (by
        rw [hsame]
        exact (hsaturated _ (Nat.mod_lt _ hpos)).2)) hinstruction
    have htwo : ((c + 1) % num_threads + 1) % num_threads = (c + 2) % num_threads :=
      Nat.mod_add_mod ..
    rw [htwo]
    exact ⟨rfl, fun _ => ⟨rfl, rfl⟩, fun hcontra => absurd hstops hcontra⟩
  · obtain ⟨hzero, hmore⟩ := more_of_not_stops hstops
    obtain ⟨hc₁, hhead⟩ := issueLoop_rounds (fun t core core' left hserve => by
      have hleft := (issueLoadStoreQueue_spec hserve).1
      omega) hmore hc hload
    rw [Nat.add_mod_right, Nat.mod_eq_of_lt hc] at hc₁
    subst hc₁
    obtain ⟨hc₂, hhead'⟩ := issueLoop_rounds (fun t core core' left hserve => by
      have hleft := issueInstructions_spec hserve
      omega) hmore hc hinstruction
    rw [Nat.add_mod_right, Nat.mod_eq_of_lt hc] at hc₂
    exact ⟨hhead hpos, fun hcontra => absurd hcontra hstops, fun _ => ⟨hhead' hpos, hc₂⟩⟩

/-- As many calls as there are threads; between two of them the other stages change the core. -/
structure SaturatedCalls (kind : IssueKind) (issue_width : ℤ) (num_threads : ℕ)
    (env : ℕ → IssueEnv) (cursor : ℕ → ℕ) (core : ℕ → Core) (result : ℕ → Issued) : Prop where
  start : cursor 0 < num_threads
  issue : ∀ k < num_threads,
    Issue kind issue_width num_threads (env k) (cursor k) (core k) = some (result k)
  next : ∀ k < num_threads, cursor (k + 1) = (result k).current_issue_thread
  saturated : ∀ k < num_threads, ∀ t < num_threads, Saturated (env k) issue_width t (core k)

/-- Every thread is the first one in exactly one of the lists. -/
def Fair (num_threads : ℕ) (served : ℕ → List ℕ) : Prop :=
  ∀ t < num_threads, ∃! k, k < num_threads ∧ (served k).head? = some t

lemma fair_iff {served : ℕ → List ℕ} {stride start : ℕ} (hpos : 0 < num_threads)
    (hserved : ∀ k < num_threads, (served k).head? = some ((start + stride * k) % num_threads)) :
    Fair num_threads served ↔ stride.Coprime num_threads := by
  rw [← strides_iff hpos stride start]
  refine forall₂_congr fun t _ => existsUnique_congr fun k => and_congr_right fun hk => ?_
  rw [hserved k hk, Option.some.injEq]

section Calls

variable {envs : ℕ → IssueEnv} {cursor : ℕ → ℕ} {cores : ℕ → Core} {result : ℕ → Issued}

lemma SaturatedCalls.cursor_eq {stride : ℕ}
    (h : SaturatedCalls kind issue_width num_threads envs cursor cores result)
    (hcall : ∀ k < num_threads, cursor k < num_threads →
      (result k).current_issue_thread = (cursor k + stride) % num_threads) :
    ∀ k ≤ num_threads, cursor k = (cursor 0 + stride * k) % num_threads := by
  have hpos : 0 < num_threads := (Nat.zero_le _).trans_lt h.start
  intro k
  induction k with
  | zero => exact fun _ => (Nat.mod_eq_of_lt h.start).symm
  | succ k ih =>
    intro hk
    have hlt : cursor k < num_threads := by
      rw [ih (by omega)]
      exact Nat.mod_lt _ hpos
    rw [h.next k hk, hcall k hk hlt, ih (by omega), Nat.mod_add_mod]
    congr 1
    ring

lemma SaturatedCalls.fair_iff {stride first : ℕ}
    (h : SaturatedCalls kind issue_width num_threads envs cursor cores result)
    (hcall : ∀ k < num_threads, cursor k < num_threads →
      (result k).load_store.head? = some ((cursor k + 1) % num_threads) ∧
        (result k).instruction.head? = some ((cursor k + first) % num_threads) ∧
        (result k).current_issue_thread = (cursor k + stride) % num_threads) :
    Fair num_threads (fun k => (result k).load_store) ∧
        Fair num_threads (fun k => (result k).instruction) ↔ stride.Coprime num_threads := by
  have hpos : 0 < num_threads := (Nat.zero_le _).trans_lt h.start
  have hcursor := h.cursor_eq fun k hk hlt => (hcall k hk hlt).2.2
  have hmod : ∀ k < num_threads, ∀ n, (cursor k + n) % num_threads =
      (cursor 0 + n + stride * k) % num_threads := by
    intro k hk n
    rw [hcursor k hk.le, Nat.mod_add_mod, Nat.add_right_comm]
  have hlt : ∀ k < num_threads, cursor k < num_threads := by
    intro k hk
    rw [hcursor k hk.le]
    exact Nat.mod_lt _ hpos
  rw [Core.fair_iff hpos fun k hk => ((hcall k hk (hlt k hk)).1.trans (by rw [hmod k hk])),
    Core.fair_iff hpos fun k hk => ((hcall k hk (hlt k hk)).2.1.trans (by rw [hmod k hk])), and_self]

/-- The two loops serve every thread first once in a round of calls exactly if there is one
thread, or an odd number of them and a quantum that ends the loops. -/
theorem issue_fair_iff (h : SaturatedCalls kind issue_width num_threads envs cursor cores result) :
    Fair num_threads (fun k => (result k).load_store) ∧
        Fair num_threads (fun k => (result k).instruction) ↔
      num_threads = 1 ∨ Odd num_threads ∧ Stops kind issue_width := by
  have hspec := fun k hk hlt => issue_spec hlt (h.saturated k hk) (h.issue k hk)
  by_cases hstops : Stops kind issue_width
  · have hfair := h.fair_iff (fun k hk hlt => ⟨(hspec k hk hlt).1, (hspec k hk hlt).2.1 hstops⟩)
    rw [hfair, Nat.coprime_two_left, and_iff_left hstops]
    refine ⟨.inr, ?_⟩
    rintro (rfl | hodd)
    · exact odd_one
    · exact hodd
  · have hcall : ∀ k < num_threads, cursor k < num_threads →
        (result k).load_store.head? = some ((cursor k + 1) % num_threads) ∧
          (result k).instruction.head? = some ((cursor k + 1) % num_threads) ∧
          (result k).current_issue_thread = (cursor k + 0) % num_threads := by
      intro k hk hlt
      obtain ⟨hinstruction, hcursor⟩ := (hspec k hk hlt).2.2 hstops
      exact ⟨(hspec k hk hlt).1, hinstruction, hcursor.trans (Nat.mod_eq_of_lt hlt).symm⟩
    rw [h.fair_iff hcall, Nat.coprime_zero_left]
    refine ⟨.inl, ?_⟩
    rintro (hone | ⟨-, hcontra⟩)
    · exact hone
    · exact absurd hcontra hstops

end Calls

/-- Every thread has two loads and two other uops that can issue. -/
def busy : Core where
  uops u := { opcode := if u % 4 < 2 then .Load else .Other
              thread := u / 4
              in_queue := fun q => decide (q = if u % 4 < 2 then .Load else .Instruction) }
  threads t := { queue := fun q =>
    match q with
    | .Load => [4 * t, 4 * t + 1]
    | .Instruction => [4 * t + 2, 4 * t + 3]
    | _ => [] }

def free : IssueEnv := ⟨fun _ => true, fun _ => true, fun _ => 1⟩

/-- The call of `Issue` on the busy core, which the other stages fill up again -/
def busyCall (num_threads c : ℕ) : Issued :=
  (Issue .Shared 1 num_threads free c busy).getD ⟨[], [], c, busy⟩

/-- Calls that go on where the one before has stopped -/
def busyCursor (num_threads : ℕ) : ℕ → ℕ
  | 0 => 0
  | k + 1 => (busyCall num_threads (busyCursor num_threads k)).current_issue_thread

lemma busy_saturated (t : ℕ) : Saturated free 1 t busy := by
  have hloads : issuableLoadStores free t busy = 2 := by
    simp [issuableLoadStores, busy, isReady, free]
  have hinstructions : issuableInstructions free t busy = 2 := by
    simp [issuableInstructions, busy, isReady, free]
  rw [Saturated, hloads, hinstructions]
  decide

lemma busy_calls {n : ℕ} (hn : n = 2 ∨ n = 3) : SaturatedCalls .Shared 1 n (fun _ => free)
    (busyCursor n) (fun _ => busy) (fun k => busyCall n (busyCursor n k)) where
  start := by rcases hn with rfl | rfl <;> decide
  issue := by
    intro k hk
    rcases hn with rfl | rfl <;> interval_cases k <;> rfl
  next _ _ := rfl
  saturated _ _ t _ := busy_saturated t

theorem issue_fair_three_threads :
    Fair 3 (fun k => (busyCall 3 (busyCursor 3 k)).load_store) ∧
        Fair 3 (fun k => (busyCall 3 (busyCursor 3 k)).instruction) ↔
      3 = 1 ∨ Odd 3 ∧ Stops .Shared 1 :=
  issue_fair_iff (busy_calls (.inr rfl))

/-- With two threads both calls serve the load-store queue of the second thread first. -/
theorem issue_unfair_two_threads :
    SaturatedCalls .Shared 1 2 (fun _ => free) (busyCursor 2) (fun _ => busy)
        (fun k => busyCall 2 (busyCursor 2 k)) ∧
      ¬ Fair 2 (fun k => (busyCall 2 (busyCursor 2 k)).load_store) := by
  refine ⟨busy_calls (.inl rfl), fun hfair => ?_⟩
  obtain ⟨k, ⟨hk, hserved⟩, -⟩ := hfair 0 (by decide)
  interval_cases k <;> revert hserved <;> decide

end Core

end OISA.X86
