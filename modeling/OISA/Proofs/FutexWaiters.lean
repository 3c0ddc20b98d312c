import OISA.Lib.Runs
import OISA.Proofs.ContextLife
import OISA.X86.Futex

/-!
# The contexts that wait at a futex

The waiters stand in the list of suspended contexts in the order in which they went to sleep, so
`FutexWake` wakes up the first of them that match, of whatever memory.
-/

namespace OISA.X86.Contexts

open OISA.Lib

structure Slept (s : Emulator) : Prop where
  inv : Inv s
  order : (s.suspended.filter fun c => s.getState c .futex).Pairwise
    fun a b => (s.ctx a).wakeup_futex_sleep < (s.ctx b).wakeup_futex_sleep
  counted : ∀ c ∈ s.contexts, s.getState c .futex = true →
    (s.ctx c).wakeup_futex_sleep ≤ s.futex_sleep_count
  suspended : ∀ c ∈ s.contexts, s.getState c .futex = true → s.getState c .suspended = true

/-- The contexts that `FutexWake` finds, in the order in which they went to sleep -/
def Emulator.waiters (s : Emulator) (futex bitset : Word) : List ℕ :=
  s.suspended.filter (s.waits futex bitset)

section Waiters

variable {s s' : Emulator} {c w : ℕ} {futex bitset : Word}

lemma waits_futex (h : s.waits futex bitset c = true) : s.getState c .futex = true := by
  simp only [Emulator.waits, Bool.and_eq_true] at h
  exact h.1.1

lemma Slept.waiters_order (h : Slept s) (futex bitset : Word) :
    (s.waiters futex bitset).Pairwise
      fun a b => (s.ctx a).wakeup_futex_sleep < (s.ctx b).wakeup_futex_sleep := by
  refine h.order.sublist ?_
  have heq : s.waiters futex bitset =
      (s.suspended.filter fun c => s.getState c .futex).filter (s.waits futex bitset) := by
    rw [List.filter_filter, Emulator.waiters]
    refine List.filter_congr fun c _ => ?_
    cases hw : s.waits futex bitset c with
    | false => rfl
    | true => rw [waits_futex hw]; rfl
  rw [heq]
  exact List.filter_sublist

lemma Slept.mem_waiters (h : Slept s) :
    c ∈ s.waiters futex bitset ↔ c ∈ s.contexts ∧ s.waits futex bitset c = true := by
  rw [Emulator.waiters, List.mem_filter, h.inv.suspended.mem]
  refine and_congr_left fun hw => and_iff_left_of_imp fun hc => ?_
  exact h.suspended c hc (waits_futex hw)

lemma scan_sorted (P : ℕ → Bool) (f : ℕ → ℕ) {list : List ℕ} (wakeup : Option ℕ)
    (h : (wakeup.toList ++ list.filter P).Pairwise fun a b => f a < f b) :
    list.foldl (fun wakeup c =>
      if P c then
        match wakeup with
        | none => some c
        | some w => if f c < f w then some c else some w
      else wakeup) wakeup = (wakeup.toList ++ list.filter P).head? := by
  induction list generalizing wakeup with
  | nil => cases wakeup <;> rfl
  | cons c list ih =>
    rw [List.foldl_cons]
    by_cases hc : P c = true
    · rw [List.filter_cons_of_pos hc] at h ⊢
      cases wakeup with
      | none =>
        rw [if_pos hc]
        exact ih (some c) h
      | some w =>
        have hlt : f w < f c := (List.pairwise_cons.mp h).1 c List.mem_cons_self
        have hnot : ¬ f c < f w := hlt.not_gt
        simp only [hc, if_true, hnot, if_false]
        refine ih (some w) (h.sublist ?_)
        exact (List.sublist_cons_self c _).cons_cons w
    · rw [List.filter_cons_of_neg hc] at h ⊢
      rw [if_neg hc]
      exact ih wakeup h

lemma Slept.wakeup_context (h : Slept s) :
    s.wakeup_context futex bitset = (s.waiters futex bitset).head? :=
  scan_sorted (s.waits futex bitset) (fun c => (s.ctx c).wakeup_futex_sleep) none
    (h.waiters_order futex bitset)

lemma normalize_of_false {state : State} {flag : Flag} (hr : flag ≠ .running)
    (hf : flag ≠ .finished) (hz : flag ≠ .zombie) (h : state flag = false) :
    normalize state flag = false := by
  unfold normalize
  cases hfin : state .finished <;> cases hzom : state .zombie <;>
    simp [Function.update_of_ne hr, hf, hz, h, hfin, hzom]

structure Awake (s : Emulator) (c : ℕ) : Prop where
  futex : s.getState c .futex = false
  suspended : s.getState c .suspended = false
  eax : (s.ctx c).eax = 0

lemma wakeUp_ctx (s : Emulator) (w x : ℕ) (hx : x ≠ w) : (s.wakeUp w).ctx x = s.ctx x := by
  simp [Emulator.wakeUp, Emulator.clearState, Emulator.setCtx, updateState_ctx, hx]

lemma wakeUp_awake (s : Emulator) (w : ℕ) : Awake (s.wakeUp w) w := by
  have hget : ∀ flag, (s.wakeUp w).getState w flag =
      ((s.clearState w .futex).clearState w .suspended).getState w flag := by
    intro flag
    simp [Emulator.wakeUp, Emulator.getState, Emulator.setCtx]
  have hfutex : (s.clearState w .futex).getState w .futex = false := by
    rw [Emulator.clearState, updateState_getState, if_pos rfl]
    exact normalize_of_false (by decide) (by decide) (by decide) (by simp)
  refine ⟨?_, ?_, ?_⟩
  · rw [hget, Emulator.clearState, updateState_getState, if_pos rfl]
    refine normalize_of_false (by decide) (by decide) (by decide) ?_
    rw [Function.update_of_ne (by decide)]
    exact hfutex
  · rw [hget, Emulator.clearState, updateState_getState, if_pos rfl]
    exact normalize_of_false (by decide) (by decide) (by decide) (by simp)
  · simp [Emulator.wakeUp, Emulator.setCtx]

lemma updateList_twice {list : List ℕ} {isIn present : Bool} (hin : isIn = true) :
    Emulator.updateList c (Emulator.updateList c list isIn present) present false =
      list.erase c := by
  subst hin
  cases present <;> simp [Emulator.updateList]

lemma wakeUp_suspended (h : Inv s) (hw : w ∈ s.suspended) :
    (s.wakeUp w).suspended = s.suspended.erase w := by
  have hmem := (h.suspended.mem w).mp hw
  have hin : (s.ctx w).in_suspended = true := by
    rw [h.suspended.isIn w hmem.1]
    exact hmem.2
  have hfirst := (updateState_lists s w (Function.update (s.ctx w).state .futex false)).2.1
  set s₁ := s.clearState w .futex with hs₁
  have hsecond :=
    (updateState_lists s₁ w (Function.update (s₁.ctx w).state .suspended false)).2.1
  have hisIn : (s₁.ctx w).in_suspended =
      normalize (Function.update (s.ctx w).state .futex false) .suspended := by
    rw [hs₁, Emulator.clearState, updateState_ctx, if_pos rfl]
  have hgone : normalize (Function.update (s₁.ctx w).state .suspended false) .suspended = false :=
    normalize_of_false (by decide) (by decide) (by decide) (by simp)
  have hlist : s₁.suspended = Emulator.updateList w s.suspended (s.ctx w).in_suspended
      (normalize (Function.update (s.ctx w).state .futex false) .suspended) := hfirst
  calc (s.wakeUp w).suspended
    _ = Emulator.updateList w s₁.suspended (s₁.ctx w).in_suspended
        (normalize (Function.update (s₁.ctx w).state .suspended false) .suspended) := hsecond
    _ = s.suspended.erase w := by rw [hgone, hisIn, hlist, updateList_twice hin]

lemma filter_erase_congr {P P' : ℕ → Bool} {list : List ℕ} (hnodup : list.Nodup)
    (h : ∀ x, x ≠ w → P' x = P x) : (list.erase w).filter P' = (list.filter P).erase w := by
  rw [hnodup.erase_eq_filter, (hnodup.filter P).erase_eq_filter, List.filter_filter,
    List.filter_filter]
  refine List.filter_congr fun x _ => ?_
  by_cases hx : x = w
  · simp [hx]
  · rw [h x hx, Bool.and_comm]

lemma Slept.wakeUp (h : Slept s) (hw : w ∈ s.suspended) : Slept (s.wakeUp w) := by
  have hmem : w ∈ s.contexts := ((h.inv.suspended.mem w).mp hw).1
  have hawake := wakeUp_awake s w
  have hget : ∀ x flag, x ≠ w → (s.wakeUp w).getState x flag = s.getState x flag := by
    intro x flag hx
    rw [Emulator.getState, wakeUp_ctx s w x hx]
    rfl
  refine ⟨(wakeUp_lives s w h.inv hmem).inv, ?_, fun x hx hf => ?_, fun x hx hf => ?_⟩
  · rw [wakeUp_suspended h.inv hw, filter_erase_congr h.inv.suspended.nodup
      fun x hx => hget x .futex hx]
    refine (h.order.sublist List.erase_sublist).imp_of_mem fun {a b} ha hb hlt => ?_
    have hnodup := h.inv.suspended.nodup.filter fun c => s.getState c .futex
    rw [wakeUp_ctx s w a ((hnodup.mem_erase_iff).mp ha).1,
      wakeUp_ctx s w b ((hnodup.mem_erase_iff).mp hb).1]
    exact hlt
  · by_cases hxw : x = w
    · rw [hxw, hawake.futex] at hf
      cases hf
    · rw [hget x _ hxw] at hf
      rw [wakeUp_ctx s w x hxw]
      exact h.counted x hx hf
  · by_cases hxw : x = w
    · rw [hxw, hawake.futex] at hf
      cases hf
    · rw [hget x _ hxw] at hf ⊢
      exact h.suspended x hx hf

lemma wakeUp_waiters (h : Slept s) (hw : w ∈ s.suspended) :
    (s.wakeUp w).waiters futex bitset = (s.waiters futex bitset).erase w := by
  rw [Emulator.waiters, wakeUp_suspended h.inv hw]
  refine filter_erase_congr h.inv.suspended.nodup fun x hx => ?_
  rw [Emulator.waits, Emulator.getState, wakeUp_ctx s w x hx]
  rfl

/-- What a wake does: `woken` wake up and the others stay as they are. -/
structure Woke (s s' : Emulator) (woken : List ℕ) : Prop where
  slept : Slept s'
  contexts : s'.contexts = s.contexts
  suspended : s'.suspended = s.suspended.filter fun x => x ∉ woken
  awake : ∀ x ∈ woken, Awake s' x
  frame : ∀ x, x ∉ woken → s'.ctx x = s.ctx x

lemma futexWake_woke (h : Slept s) (count : ℕ) :
    Woke s (s.futexWake futex bitset count).1 ((s.waiters futex bitset).take count) ∧
      (s.futexWake futex bitset count).2 = ((s.waiters futex bitset).take count).length := by
  induction count generalizing s with
  | zero => exact ⟨⟨h, rfl, by simp [Emulator.futexWake], by simp, fun _ _ => rfl⟩,
      by simp [Emulator.futexWake]⟩
  | succ count ih =>
    rw [Emulator.futexWake, h.wakeup_context]
    cases hlist : s.waiters futex bitset with
    | nil => exact ⟨⟨h, rfl, by simp, by simp, fun _ _ => rfl⟩, by simp⟩
    | cons w rest =>
      have hw : w ∈ s.waiters futex bitset := by
        rw [hlist]
        exact List.mem_cons_self
      have hsus : w ∈ s.suspended := List.mem_of_mem_filter hw
      obtain ⟨hwoke, hcount⟩ := ih (h.wakeUp hsus)
      rw [wakeUp_waiters h hsus, hlist, List.erase_cons_head] at hwoke hcount
      rw [List.head?_cons]
      dsimp only
      rw [List.take_succ_cons]
      have hlt := h.waiters_order futex bitset
      rw [hlist, List.pairwise_cons] at hlt
      have hnot : w ∉ rest.take count := fun hmem =>
        lt_irrefl _ (hlt.1 w (List.mem_of_mem_take hmem))
      refine ⟨⟨hwoke.slept, hwoke.contexts.trans (wakeUp_lives s w h.inv
        ((h.inv.suspended.mem w).mp hsus).1).contexts, ?_, fun x hx => ?_, fun x hx => ?_⟩, ?_⟩
      · rw [hwoke.suspended, wakeUp_suspended h.inv hsus,
          h.inv.suspended.nodup.erase_eq_filter, List.filter_filter]
        refine List.filter_congr fun x _ => ?_
        by_cases hx : x = w <;> simp [hx]
      · rcases List.mem_cons.mp hx with rfl | hx
        · have hawake := wakeUp_awake s x
          have hctx := hwoke.frame x hnot
          exact ⟨(congrArg (fun ctx : Context => ctx.state .futex) hctx).trans hawake.futex,
            (congrArg (fun ctx : Context => ctx.state .suspended) hctx).trans hawake.suspended,
            (congrArg Context.eax hctx).trans hawake.eax⟩
        · exact hwoke.awake x hx
      · rw [List.mem_cons, not_or] at hx
        rw [hwoke.frame x hx.2, wakeUp_ctx s w x hx.1]
      · rw [hcount, List.length_cons]

lemma Woke.waiters {woken : List ℕ} (h : Woke s s' woken) :
    s'.waiters futex bitset = (s.waiters futex bitset).filter fun x => x ∉ woken := by
  rw [Emulator.waiters, Emulator.waiters, h.suspended, List.filter_filter, List.filter_filter]
  refine List.filter_congr fun x _ => ?_
  by_cases hx : x ∈ woken
  · simp [hx]
  · rw [Emulator.waits, Emulator.waits, Emulator.getState, h.frame x hx, Bool.and_comm]
    rfl

end Waiters

/-- The contexts that a call of `c` may wake up: they wait at the address in the memory of `c`
with an intersecting bitset. -/
def Emulator.own (s : Emulator) (c : ℕ) (futex bitset : Word) (x : ℕ) : Bool :=
  s.waits futex bitset x && (s.ctx x).memory = (s.ctx c).memory

/-- A wake of `n` among the contexts with `P`: it wakes up as many as there are, in the order in
which they went to sleep, no other context changes, and `ret` counts them. -/
def Wakes (s s' : Emulator) (P : ℕ → Bool) (n ret : ℕ) : Prop :=
  ∃ woken : List ℕ,
    (∀ x ∈ woken, x ∈ s.contexts ∧ P x = true) ∧
    woken.Pairwise (fun a b => (s.ctx a).wakeup_futex_sleep < (s.ctx b).wakeup_futex_sleep) ∧
    (∀ x ∈ woken, ∀ y ∈ s.contexts, P y = true → y ∉ woken →
      (s.ctx x).wakeup_futex_sleep < (s.ctx y).wakeup_futex_sleep) ∧
    woken.length = min n (s.contexts.filter P).length ∧ ret = woken.length ∧
    (∀ x ∈ woken, Awake s' x) ∧ ∀ x, x ∉ woken → s'.ctx x = s.ctx x

section Wakes

variable {s s' : Emulator} {c : ℕ} {futex bitset : Word} {n : ℕ}

lemma own_waits {x : ℕ} (h : s.own c futex bitset x = true) :
    s.waits futex bitset x = true ∧ (s.ctx x).memory = (s.ctx c).memory := by
  simpa [Emulator.own] using h

lemma Woke.wakes (h : Slept s) (hw : Woke s s' ((s.waiters futex bitset).take n))
    (hown : ∀ x ∈ (s.waiters futex bitset).take n, (s.ctx x).memory = (s.ctx c).memory) :
    Wakes s s' (s.own c futex bitset) n ((s.waiters futex bitset).take n).length := by
  have horder := h.waiters_order futex bitset
  have hnodup : (s.waiters futex bitset).Nodup := h.inv.suspended.nodup.filter _
  set all := s.waiters futex bitset with hall
  have hmem : ∀ x ∈ all.take n, x ∈ s.contexts ∧ s.own c futex bitset x = true := by
    intro x hx
    obtain ⟨hc, hwaits⟩ := h.mem_waiters.mp (List.mem_of_mem_take hx)
    refine ⟨hc, ?_⟩
    simp [Emulator.own, hwaits, hown x hx]
  have hsub : ∀ x, x ∈ s.contexts.filter (s.own c futex bitset) → x ∈ all := by
    intro x hx
    obtain ⟨hc, ho⟩ := List.mem_filter.mp hx
    exact h.mem_waiters.mpr ⟨hc, (own_waits ho).1⟩
  have hlow : (all.take n).length ≤ (s.contexts.filter (s.own c futex bitset)).length := by
    refine (List.subperm_of_subset (hnodup.sublist (List.take_sublist n all)) ?_).length_le
    exact fun x hx => List.mem_filter.mpr (hmem x hx)
  have hhigh : (s.contexts.filter (s.own c futex bitset)).length ≤ all.length :=
    (List.subperm_of_subset (h.inv.nodup.filter _) hsub).length_le
  refine ⟨all.take n, hmem, horder.sublist (List.take_sublist n all), fun x hx y hy ho hnot => ?_,
    ?_, rfl, hw.awake, hw.frame⟩
  · have hy' : y ∈ all := hsub y (List.mem_filter.mpr ⟨hy, ho⟩)
    rw [← List.take_append_drop n all] at hy' horder
    have hdrop : y ∈ all.drop n := (List.mem_append.mp hy').resolve_left hnot
    exact (List.pairwise_append.mp horder).2.2 x hx y hdrop
  · rw [List.length_take] at hlow ⊢
    omega

lemma Wakes.own {P : ℕ → Bool} {ret x : ℕ} (h : Wakes s s' P n ret)
    (hbefore : s.getState x .futex = true) (hafter : s'.getState x .futex = false) :
    P x = true := by
  obtain ⟨woken, hmem, -, -, -, -, -, hframe⟩ := h
  by_contra hnot
  have hx : x ∉ woken := fun hin => hnot (hmem x hin).2
  have hsame : s'.getState x .futex = s.getState x .futex :=
    congrArg (fun ctx : Context => ctx.state .futex) (hframe x hx)
  rw [hsame, hbefore] at hafter
  cases hafter

lemma Wakes.frame {P : ℕ → Bool} {ret x : ℕ} (h : Wakes s s' P n ret) (hP : P x = false) :
    s'.ctx x = s.ctx x := by
  obtain ⟨woken, hmem, -, -, -, -, -, hframe⟩ := h
  refine hframe x fun hin => ?_
  rw [(hmem x hin).2] at hP
  cases hP

end Wakes

def Requeues (s s' : Emulator) (c : ℕ) (addr1 addr2 : Word) : Prop :=
  ∀ x, s'.ctx x = s.ctx x ∨
    s.getState x .futex = true ∧ (s.ctx x).wakeup_futex = addr1 ∧
      (s.ctx x).memory = (s.ctx c).memory ∧
      s'.ctx x = { s.ctx x with wakeup_futex := addr2 }

def NotLost (s : Emulator) : Prop :=
  ∀ x ∈ s.contexts, s.getState x .futex = true → s.getState x .suspended = true ∧ x ∈ s.suspended

/-- What a call of `c` that returns has done -/
def FutexCall (m m' : Machine) (c : ℕ) (args : FutexArgs) (ret : Word) : Prop :=
  let s := m.emulator
  let s' := m'.emulator
  let n := args.val1.toNat
  NotLost s' ∧ s'.contexts = s.contexts ∧
  match args.cmd with
  | 0 | 9 => (s'.getState c .futex = true → m.read c args.addr1 = args.val1) ∧
      ∀ x, x ≠ c → s'.ctx x = s.ctx x
  | 1 | 10 => ∃ k, Wakes s s' (s.own c args.addr1 (args.bitset 10)) n k ∧ ret = k
  | 4 =>
    if m.read c args.addr1 ≠ args.val3 then m' = m ∧ ret = eagain
    else ∃ s₁ k, Wakes s s₁ (s.own c args.addr1 0xffffffff) n k ∧ ret = k ∧
      Requeues s₁ s' c args.addr1 args.addr2
  | 5 => ∃ newval cond, args.wakeOp (m.read c args.addr2) = some (newval, cond) ∧
      m'.bytes = (m.write c args.addr2 newval).bytes ∧
      ∃ s₁ k₁, Wakes s s₁ (s.own c args.addr1 0xffffffff) n k₁ ∧
        if cond then
          ∃ k₂, Wakes s₁ s' (s₁.own c args.addr2 0xffffffff) args.timeout_ptr.toNat k₂ ∧
            ret = k₁ + k₂
        else (∀ x, s'.ctx x = s₁.ctx x) ∧ ret = k₁
  | _ => True

/-- No context of another memory is among the ones that the call finds. -/
def Fits (m : Machine) (c : ℕ) (args : FutexArgs) : Prop :=
  let s := m.emulator
  let own (list : List ℕ) : Prop := ∀ x ∈ list, (s.ctx x).memory = (s.ctx c).memory
  let first := (s.waiters args.addr1 0xffffffff).take args.val1.toNat
  match args.cmd with
  | 1 | 10 => own ((s.waiters args.addr1 (args.bitset 10)).take args.val1.toNat)
  | 4 => m.read c args.addr1 = args.val3 → own first ∧ (args.addr1 ≠ args.addr2 →
      own (s.suspended.filter fun x =>
        s.getState x .futex && (s.ctx x).wakeup_futex = args.addr1))
  | 5 => own first ∧ ∀ newval, args.wakeOp (m.read c args.addr2) = some (newval, true) →
      own (((s.waiters args.addr2 0xffffffff).filter fun x => x ∉ first).take
        args.timeout_ptr.toNat)
  | _ => True

section Calls

variable {m m' : Machine} {s s' : Emulator} {c : ℕ} {args : FutexArgs} {ret : Word}

lemma Slept.notLost (h : Slept s) : NotLost s := fun x hx hf =>
  ⟨h.suspended x hx hf, (h.inv.suspended.mem x).mpr ⟨hx, h.suspended x hx hf⟩⟩

lemma Slept.setCtx (h : Slept s) {context : Context} (hstate : context.state = (s.ctx c).state)
    (hrunning : context.in_running = (s.ctx c).in_running)
    (hsuspended : context.in_suspended = (s.ctx c).in_suspended)
    (hfinished : context.in_finished = (s.ctx c).in_finished)
    (hzombie : context.in_zombie = (s.ctx c).in_zombie)
    (hsleep : context.wakeup_futex_sleep = (s.ctx c).wakeup_futex_sleep) :
    Slept (s.setCtx c context) := by
  have hget := getState_setCtx (s := s) hstate
  have hsleep' := apply_setCtx Context.wakeup_futex_sleep hsleep
  refine ⟨h.inv.setCtx hstate hrunning hsuspended hfinished hzombie, ?_, fun x hx hf => ?_,
    fun x hx hf => ?_⟩
  · simp only [hget, hsleep']
    exact h.order
  · rw [hget] at hf
    rw [hsleep']
    exact h.counted x hx hf
  · rw [hget] at hf ⊢
    exact h.suspended x hx hf

lemma Slept.moved (h : Slept s) (c : ℕ) (addr2 : Word) :
    Slept (s.setCtx c { s.ctx c with wakeup_futex := addr2 }) :=
  h.setCtx rfl rfl rfl rfl rfl rfl

lemma requeue_spec {list : List ℕ} (hnodup : list.Nodup) (h : Slept s) (addr1 addr2 : Word) :
    let s' := list.foldl (fun s c =>
      if s.getState c .futex && (s.ctx c).wakeup_futex = addr1 then
        s.setCtx c { s.ctx c with wakeup_futex := addr2 }
      else s) s
    Slept s' ∧ s'.contexts = s.contexts ∧ ∀ x, s'.ctx x =
      if x ∈ list ∧ (s.getState x .futex && (s.ctx x).wakeup_futex = addr1) = true then
        { s.ctx x with wakeup_futex := addr2 }
      else s.ctx x := by
  induction list generalizing s with
  | nil => exact ⟨h, rfl, fun x => by simp⟩
  | cons y list ih =>
    rw [List.nodup_cons] at hnodup
    rw [List.foldl_cons]
    by_cases hy : (s.getState y .futex && (s.ctx y).wakeup_futex = addr1) = true
    · rw [if_pos hy]
      obtain ⟨hslept, hcontexts, hctx⟩ := ih hnodup.2
        (h.moved y addr2)
      refine ⟨hslept, hcontexts, fun x => ?_⟩
      rw [hctx]
      by_cases hx : x = y
      · subst hx
        simp only [hnodup.1, false_and, if_false, List.mem_cons, true_or, true_and, hy, if_true]
        simp [Emulator.setCtx]
      · have hsame : (s.setCtx y { s.ctx y with wakeup_futex := addr2 }).ctx x = s.ctx x := by
          simp [Emulator.setCtx, hx]
        rw [Emulator.getState, hsame]
        simp only [List.mem_cons, hx, false_or]
        rfl
    · rw [if_neg hy]
      obtain ⟨hslept, hcontexts, hctx⟩ := ih hnodup.2 h
      refine ⟨hslept, hcontexts, fun x => ?_⟩
      rw [hctx]
      by_cases hx : x = y
      · subst hx
        rw [if_neg fun hand => hy hand.2, if_neg fun hand => hy hand.2]
      · simp only [List.mem_cons, hx, false_or]

lemma Slept.running (h : Slept s) (hc : c ∈ s.running) : c ∈ s.contexts ∧
    s.getState c .futex = false ∧ s.getState c .suspended = false ∧
    s.getState c .finished = false ∧ s.getState c .zombie = false := by
  obtain ⟨hmem, hrun⟩ := (h.inv.running.mem c).mp hc
  rw [h.inv.runs c hmem] at hrun
  simp only [Bool.and_eq_true, Bool.not_eq_true'] at hrun
  obtain ⟨⟨⟨hsus, hfin⟩, hzom⟩, -⟩ := hrun
  refine ⟨hmem, ?_, hsus, hfin, hzom⟩
  by_contra hf
  have hsus' := h.suspended c hmem (by simpa using hf)
  rw [hsus] at hsus'
  cases hsus'

lemma normalize_of_alive {state : State} {flag : Flag} (hr : flag ≠ .running)
    (hf : state .finished = false) (hz : state .zombie = false) :
    normalize state flag = state flag := by
  unfold normalize
  simp [hf, hz, Function.update_of_ne hr]

/-- A running context goes to sleep behind all others. -/
lemma futexSleep_spec (h : Slept s) (hc : c ∈ s.running) (addr1 bitset : Word) :
    Slept (s.futexSleep c addr1 bitset) ∧
      (s.futexSleep c addr1 bitset).contexts = s.contexts ∧
      ∀ x, x ≠ c → (s.futexSleep c addr1 bitset).ctx x = s.ctx x := by
  obtain ⟨hmem, hfutex, hsus, hfin, hzom⟩ := h.running hc
  set s₁ : Emulator := { s.setCtx c { s.ctx c with
      wakeup_futex := addr1
      wakeup_futex_bitset := bitset
      wakeup_futex_sleep := s.futex_sleep_count + 1 } with
    futex_sleep_count := s.futex_sleep_count + 1 } with hs₁
  have hinv₁ : Inv s₁ := by
    have hset : Inv (s.setCtx c { s.ctx c with
        wakeup_futex := addr1
        wakeup_futex_bitset := bitset
        wakeup_futex_sleep := s.futex_sleep_count + 1 }) := h.inv.setCtx rfl rfl rfl rfl rfl
    exact ⟨hset.nodup, hset.fresh, ⟨hset.running.nodup, hset.running.mem, hset.running.isIn⟩,
      ⟨hset.suspended.nodup, hset.suspended.mem, hset.suspended.isIn⟩,
      ⟨hset.finished.nodup, hset.finished.mem, hset.finished.isIn⟩,
      ⟨hset.zombie.nodup, hset.zombie.mem, hset.zombie.isIn⟩, hset.once, hset.runs⟩
  have hstate₁ : (s₁.ctx c).state = (s.ctx c).state := by simp [hs₁, Emulator.setCtx]
  have hother₁ : ∀ x, x ≠ c → s₁.ctx x = s.ctx x := fun x hx => by
    simp [hs₁, Emulator.setCtx, hx]
  set s₂ := s₁.setState c .suspended with hs₂
  have hinv₂ : Inv s₂ := hinv₁.updateState hmem _
  have hother₂ : ∀ x, x ≠ c → s₂.ctx x = s.ctx x := fun x hx => by
    rw [hs₂, Emulator.setState, updateState_ctx, if_neg hx, hother₁ x hx]
  have hget₂ : ∀ flag, flag ≠ .running → s₂.getState c flag =
      Function.update (s.ctx c).state .suspended true flag := by
    intro flag hr
    rw [hs₂, Emulator.setState, updateState_getState, if_pos rfl, hstate₁]
    refine normalize_of_alive hr ?_ ?_
    · rw [Function.update_of_ne (by decide)]
      exact hfin
    · rw [Function.update_of_ne (by decide)]
      exact hzom
  have hlist₂ : s₂.suspended = s.suspended ++ [c] := by
    have hlist := (updateState_lists s₁ c
      (Function.update (s₁.ctx c).state .suspended true)).2.1
    have hin : (s₁.ctx c).in_suspended = false := by
      rw [hinv₁.suspended.isIn c hmem, Emulator.getState, hstate₁]
      exact hsus
    have hval : normalize (Function.update (s₁.ctx c).state .suspended true) .suspended = true := by
      have hget := hget₂ .suspended (by decide)
      rw [hs₂, Emulator.setState, updateState_getState, if_pos rfl] at hget
      rw [hget]
      simp
    rw [hin, hval] at hlist
    exact hlist
  have hinv₃ : Inv (s₂.setState c .futex) := hinv₂.updateState hmem _
  have hother : ∀ x, x ≠ c → (s₂.setState c .futex).ctx x = s.ctx x := fun x hx => by
    rw [Emulator.setState, updateState_ctx, if_neg hx, hother₂ x hx]
  have hget : ∀ flag, flag ≠ .running → flag ≠ .futex →
      (s₂.setState c .futex).getState c flag = s₂.getState c flag := by
    intro flag hr hf
    rw [Emulator.setState, updateState_getState, if_pos rfl, normalize_of_alive hr]
    · rw [Function.update_of_ne hf]
      rfl
    · have hfin₂ := hget₂ .finished (by decide)
      rw [Function.update_of_ne (by decide)] at hfin₂ ⊢
      exact hfin₂.trans hfin
    · have hzom₂ := hget₂ .zombie (by decide)
      rw [Function.update_of_ne (by decide)] at hzom₂ ⊢
      exact hzom₂.trans hzom
  have hsus₃ : (s₂.setState c .futex).getState c .suspended = true := by
    rw [hget .suspended (by decide) (by decide), hget₂ .suspended (by decide)]
    simp
  have hlist₃ : (s₂.setState c .futex).suspended = s.suspended ++ [c] := by
    have hlist := (updateState_lists s₂ c (Function.update (s₂.ctx c).state .futex true)).2.1
    have hin : (s₂.ctx c).in_suspended = true := by
      rw [hinv₂.suspended.isIn c hmem, hget₂ .suspended (by decide)]
      simp
    have hval := hsus₃
    rw [Emulator.setState, updateState_getState, if_pos rfl] at hval
    rw [hin, hval, hlist₂] at hlist
    exact hlist
  have hsleep : ((s₂.setState c .futex).ctx c).wakeup_futex_sleep = s.futex_sleep_count + 1 := by
    rw [Emulator.setState, updateState_ctx, if_pos rfl]
    change (s₂.ctx c).wakeup_futex_sleep = _
    rw [hs₂, Emulator.setState, updateState_ctx, if_pos rfl]
    simp [hs₁, Emulator.setCtx]
  have hgetOther : ∀ x flag, x ≠ c →
      (s₂.setState c .futex).getState x flag = s.getState x flag := fun x flag hx => by
    rw [Emulator.getState, hother x hx]
    rfl
  have hout : c ∉ s.suspended := fun hin => by
    have hin' := ((h.inv.suspended.mem c).mp hin).2
    rw [hsus] at hin'
    cases hin'
  change Slept (s₂.setState c .futex) ∧ (s₂.setState c .futex).contexts = s.contexts ∧
    ∀ x, x ≠ c → (s₂.setState c .futex).ctx x = s.ctx x
  refine ⟨⟨hinv₃, ?_, fun x hx hf => ?_, fun x hx hf => ?_⟩, rfl, hother⟩
  · rw [hlist₃, List.filter_append]
    have hold : s.suspended.filter (fun x => (s₂.setState c .futex).getState x .futex) =
        s.suspended.filter fun x => s.getState x .futex := by
      refine List.filter_congr fun x hx => hgetOther x _ ?_
      rintro rfl
      exact hout hx
    rw [hold]
    have hne : ∀ x ∈ s.suspended.filter (fun x => s.getState x .futex), x ≠ c := by
      rintro x hx rfl
      exact hout (List.mem_of_mem_filter hx)
    refine List.pairwise_append.mpr ⟨h.order.imp_of_mem fun {a b} ha hb hlt => ?_, ?_,
      fun a ha b hb => ?_⟩
    · rw [hother a (hne a ha), hother b (hne b hb)]
      exact hlt
    · exact (List.pairwise_singleton _ c).sublist List.filter_sublist
    · have hbc : b = c := List.mem_singleton.mp (List.mem_of_mem_filter hb)
      have hcount := h.counted a ((h.inv.suspended.mem a).mp (List.mem_of_mem_filter ha)).1
        (List.mem_filter.mp ha).2
      rw [hbc, hsleep, hother a (hne a ha)]
      omega
  · change _ ≤ s.futex_sleep_count + 1
    by_cases hxc : x = c
    · rw [hxc, hsleep]
    · rw [hgetOther x _ hxc] at hf
      rw [hother x hxc]
      have hcount := h.counted x hx hf
      omega
  · by_cases hxc : x = c
    · rw [hxc]
      exact hsus₃
    · rw [hgetOther x _ hxc] at hf ⊢
      exact h.suspended x hx hf

lemma own_caller (h : Slept s) (hc : c ∈ s.running) (futex bitset : Word) :
    s.own c futex bitset c = false := by
  rw [Emulator.own, Emulator.waits, (h.running hc).2.1]
  rfl

lemma wakes_iff (h : Slept s) (futex bitset : Word) (n : ℕ) :
    Wakes s (s.futexWake futex bitset n).1 (s.own c futex bitset) n
        (s.futexWake futex bitset n).2 ↔
      ∀ x ∈ (s.waiters futex bitset).take n, (s.ctx x).memory = (s.ctx c).memory := by
  obtain ⟨hwoke, hcount⟩ := @futexWake_woke _ futex bitset h n
  constructor
  · intro hwakes x hx
    have hwaits := (h.mem_waiters.mp (List.mem_of_mem_take hx)).2
    exact (own_waits (hwakes.own (waits_futex hwaits) (hwoke.awake x hx).futex)).2
  · intro hown
    rw [hcount]
    exact hwoke.wakes h hown

lemma Wakes.memory {s₁ : Emulator} {futex bitset : Word} {n k x : ℕ} (h : Slept s)
    (hc : c ∈ s.running) (hwakes : Wakes s s₁ (s.own c futex bitset) n k)
    (hbefore : s.getState x .futex = true) (hafter : s'.getState x .futex = false)
    (hkeep : s₁.getState x .futex = true → s'.getState x .futex = false →
      (s₁.ctx x).memory = (s₁.ctx c).memory) : (s.ctx x).memory = (s.ctx c).memory := by
  cases hown : s.own c futex bitset x with
  | true => exact (own_waits hown).2
  | false =>
    have hx := hwakes.frame hown
    have hcaller := hwakes.frame (own_caller h hc futex bitset)
    have hwaits : s₁.getState x .futex = true :=
      (congrArg (fun ctx : Context => ctx.state .futex) hx).trans hbefore
    have hmemory := hkeep hwaits hafter
    rw [hx, hcaller] at hmemory
    exact hmemory

/-- What a call does to the emulator, and when it fulfils its contract -/
structure Called (m m' : Machine) (c : ℕ) (args : FutexArgs) (ret : Word) : Prop where
  slept : Slept m'.emulator
  contexts : m'.emulator.contexts = m.emulator.contexts
  call : FutexCall m m' c args ret ↔ Fits m c args

lemma wait_called (h : Slept m.emulator) (hc : c ∈ m.emulator.running)
    (hcmd : args.cmd = 0 ∨ args.cmd = 9)
    (hs : executeSyscall_futex m c args = some (m', ret)) : Called m m' c args ret := by
  have hresult : (m' = m ∨ m.read c args.addr1 = args.val1 ∧
      m'.emulator = m.emulator.futexSleep c args.addr1 (args.bitset 9)) := by
    rcases hcmd with hcmd | hcmd <;>
    · simp only [executeSyscall_futex, hcmd] at hs
      split at hs
      · simp only [Option.some.injEq, Prod.mk.injEq] at hs
        exact .inl hs.1.symm
      · rename_i heq
        split at hs
        · cases hs
        · simp only [Option.some.injEq, Prod.mk.injEq] at hs
          refine .inr ⟨not_not.mp heq, ?_⟩
          rw [← hs.1]
  have hfits : Fits m c args := by
    rcases hcmd with hcmd | hcmd <;> simp [Fits, hcmd]
  have hbody : Slept m'.emulator ∧ m'.emulator.contexts = m.emulator.contexts ∧
      (m'.emulator.getState c .futex = true → m.read c args.addr1 = args.val1) ∧
      ∀ x, x ≠ c → m'.emulator.ctx x = m.emulator.ctx x := by
    rcases hresult with rfl | ⟨hval, hm'⟩
    · refine ⟨h, rfl, fun hf => ?_, fun _ _ => rfl⟩
      rw [(h.running hc).2.1] at hf
      cases hf
    · obtain ⟨hslept, hcontexts, hctx⟩ := futexSleep_spec h hc args.addr1 (args.bitset 9)
      rw [← hm'] at hslept hcontexts hctx
      exact ⟨hslept, hcontexts, fun _ => hval, hctx⟩
  obtain ⟨hslept, hcontexts, hwait, hframe⟩ := hbody
  refine ⟨hslept, hcontexts, iff_of_true ⟨hslept.notLost, hcontexts, ?_⟩ hfits⟩
  rcases hcmd with hcmd | hcmd <;>
  · simp only [hcmd]
    exact ⟨hwait, hframe⟩

lemma natCast_lt {n k : ℕ} (hn : n < 2 ^ 32) (hk : k < 2 ^ 32) (h : (n : Word) = k) : n = k := by
  have hval := congrArg BitVec.toNat h
  simp only [BitVec.natCast_eq_ofNat, BitVec.toNat_ofNat] at hval
  rwa [Nat.mod_eq_of_lt hn, Nat.mod_eq_of_lt hk] at hval

lemma Wakes.le {P : ℕ → Bool} {n k : ℕ} (h : Wakes s s' P n k) : k ≤ n := by
  obtain ⟨woken, -, -, -, hlength, rfl, -⟩ := h
  rw [hlength]
  exact min_le_left _ _

lemma wake_called (h : Slept m.emulator) (hcmd : args.cmd = 1 ∨ args.cmd = 10)
    (hs : executeSyscall_futex m c args = some (m', ret)) : Called m m' c args ret := by
  set n := args.val1.toNat with hn
  have hresult : m'.emulator = (m.emulator.futexWake args.addr1 (args.bitset 10) n).1 ∧
      ret = (m.emulator.futexWake args.addr1 (args.bitset 10) n).2 := by
    rcases hcmd with hcmd | hcmd <;>
    · simp only [executeSyscall_futex, hcmd, Option.some.injEq, Prod.mk.injEq] at hs
      exact ⟨by rw [← hs.1], hs.2.symm⟩
  obtain ⟨hwoke, hcount⟩ := @futexWake_woke _ args.addr1 (args.bitset 10) h n
  have hle : (m.emulator.futexWake args.addr1 (args.bitset 10) n).2 ≤ n := by
    rw [hcount, List.length_take]
    exact min_le_left _ _
  have hlt : n < 2 ^ 32 := args.val1.isLt
  have hcall : (∃ k, Wakes m.emulator m'.emulator
      (m.emulator.own c args.addr1 (args.bitset 10)) n k ∧ ret = k) ↔
      ∀ x ∈ (m.emulator.waiters args.addr1 (args.bitset 10)).take n,
        (m.emulator.ctx x).memory = (m.emulator.ctx c).memory := by
    rw [← wakes_iff h args.addr1 (args.bitset 10) n, hresult.1, hresult.2]
    constructor
    · rintro ⟨k, hk, heq⟩
      have hk' := hk.le
      have hsame := natCast_lt (by omega) (by omega) heq
      rw [hsame]
      exact hk
    · exact fun hk => ⟨_, hk, rfl⟩
  refine ⟨by rw [hresult.1]; exact hwoke.slept, by rw [hresult.1]; exact hwoke.contexts, ?_⟩
  have hnot : NotLost m'.emulator := by
    rw [hresult.1]
    exact hwoke.slept.notLost
  have hcontexts : m'.emulator.contexts = m.emulator.contexts := by
    rw [hresult.1]
    exact hwoke.contexts
  rcases hcmd with hcmd | hcmd <;>
  · simp only [FutexCall, Fits, hcmd]
    rw [← hn, hcall]
    exact ⟨fun hand => hand.2.2, fun hfits => ⟨hnot, hcontexts, hfits⟩⟩

lemma requeue_called (h : Slept m.emulator) (hc : c ∈ m.emulator.running) (hcmd : args.cmd = 4)
    (hs : executeSyscall_futex m c args = some (m', ret)) : Called m m' c args ret := by
  set n := args.val1.toNat with hn
  simp only [executeSyscall_futex, hcmd, ← hn] at hs
  split at hs
  · cases hs
  split at hs
  · rename_i hne
    simp only [Option.some.injEq, Prod.mk.injEq] at hs
    obtain ⟨rfl, rfl⟩ := hs
    refine ⟨h, rfl, ?_⟩
    simp only [FutexCall, Fits, hcmd, if_pos hne]
    exact iff_of_true ⟨h.notLost, trivial, trivial, trivial⟩ fun heq => absurd heq hne
  · rename_i heq
    simp only [Option.some.injEq, Prod.mk.injEq] at hs
    obtain ⟨rfl, rfl⟩ := hs
    obtain ⟨hwoke, hcount⟩ :=
      @futexWake_woke _ args.addr1 0xffffffff h n
    have hwakes := wakes_iff (c := c) h args.addr1 0xffffffff n
    set s := m.emulator with hsm
    set F := (s.waiters args.addr1 0xffffffff).take n with hF
    set s₁ := (s.futexWake args.addr1 0xffffffff n).1 with hs₁
    obtain ⟨hslept, hcontexts, hctx⟩ := requeue_spec hwoke.slept.inv.suspended.nodup hwoke.slept
      args.addr1 args.addr2
    change Slept (s₁.requeue args.addr1 args.addr2) at hslept
    change (s₁.requeue args.addr1 args.addr2).contexts = _ at hcontexts
    replace hctx : ∀ x, (s₁.requeue args.addr1 args.addr2).ctx x = _ := hctx
    set s' := s₁.requeue args.addr1 args.addr2 with hs'
    have hget : ∀ x flag, s'.getState x flag = s₁.getState x flag := by
      intro x flag
      rw [Emulator.getState, hctx]
      split <;> rfl
    have hsuspended : ∀ x, x ∈ s₁.suspended ↔ x ∈ s.suspended ∧ x ∉ F := fun x => by
      rw [hwoke.suspended]
      simp
    refine ⟨hslept, hcontexts.trans hwoke.contexts, ?_⟩
    simp only [FutexCall, Fits, hcmd, if_neg heq, ← hn, ← hsm, ← hF]
    have hval : m.read c args.addr1 = args.val3 := not_not.mp heq
    constructor
    · rintro ⟨-, -, t₁, k, ht, -, hmoves⟩ -
      have hsame : ∀ x, t₁.getState x .futex = true → s'.getState x .futex = false → False := by
        intro x ht₁ hx
        have hstate : s'.getState x .futex = t₁.getState x .futex := by
          rcases hmoves x with heq' | ⟨-, -, -, heq'⟩
          · exact congrArg (fun ctx : Context => ctx.state .futex) heq'
          · rw [Emulator.getState, heq']
            rfl
        rw [hstate, ht₁] at hx
        cases hx
      have hown : ∀ x ∈ F, (s.ctx x).memory = (s.ctx c).memory := by
        intro x hx
        have hwaits := (h.mem_waiters.mp (List.mem_of_mem_take hx)).2
        refine ht.memory h hc (waits_futex hwaits) ?_ fun h₁ h₂ => (hsame x h₁ h₂).elim
        rw [hget]
        exact (hwoke.awake x hx).futex
      refine ⟨hown, fun hne x hx => ?_⟩
      by_contra hforeign
      obtain ⟨hsus, hmatch⟩ := List.mem_filter.mp hx
      have hxF : x ∉ F := fun hin => hforeign (hown x hin)
      have hother : s.own c args.addr1 0xffffffff x = false := by
        rw [Emulator.own, Bool.and_eq_false_iff]
        exact .inr (by simpa using hforeign)
      have ht₁ := ht.frame hother
      have hcaller := ht.frame (own_caller h hc args.addr1 0xffffffff)
      have hmatch₁ : (s₁.getState x .futex && (s₁.ctx x).wakeup_futex = args.addr1) = true := by
        rw [Emulator.getState, hwoke.frame x hxF]
        exact hmatch
      have hmoved : (s'.ctx x).wakeup_futex = args.addr2 := by
        rw [hctx, if_pos ⟨(hsuspended x).mpr ⟨hsus, hxF⟩, hmatch₁⟩]
      have hwas : (s.ctx x).wakeup_futex = args.addr1 := by
        simp only [Bool.and_eq_true, decide_eq_true_eq] at hmatch
        exact hmatch.2
      rcases hmoves x with hstay | ⟨-, -, hmem, -⟩
      · rw [hstay, ht₁, hwas] at hmoved
        exact hne hmoved
      · rw [ht₁, hcaller] at hmem
        exact hforeign hmem
    · intro hfits
      obtain ⟨hown, hmoved⟩ := hfits hval
      refine ⟨hslept.notLost, hcontexts.trans hwoke.contexts, s₁, _, hwakes.mpr hown, rfl,
        fun x => ?_⟩
      rw [hctx]
      split
      · rename_i hand
        obtain ⟨hsus, hxF⟩ := (hsuspended x).mp hand.1
        have hmatch := hand.2
        simp only [Bool.and_eq_true, decide_eq_true_eq] at hmatch
        by_cases hne : args.addr1 = args.addr2
        · left
          rw [← hne, ← hmatch.2]
        · right
          refine ⟨hmatch.1, hmatch.2, ?_, rfl⟩
          have hcaller : s₁.ctx c = s.ctx c := by
            refine hwoke.frame c fun hin => ?_
            have hwaits := (h.mem_waiters.mp (List.mem_of_mem_take hin)).2
            have hfutex := waits_futex hwaits
            rw [(h.running hc).2.1] at hfutex
            cases hfutex
          rw [hwoke.frame x hxF, hcaller]
          refine hmoved hne x (List.mem_filter.mpr ⟨hsus, ?_⟩)
          rw [Emulator.getState, hwoke.frame x hxF] at hmatch
          simp only [Bool.and_eq_true, decide_eq_true_eq]
          exact hmatch
      · exact .inl rfl

lemma Woke.caller {s₁ : Emulator} {futex bitset : Word} {n : ℕ} (h : Slept s)
    (hc : c ∈ s.running) (hw : Woke s s₁ ((s.waiters futex bitset).take n)) :
    s₁.ctx c = s.ctx c := by
  refine hw.frame c fun hin => ?_
  have hwaits := (h.mem_waiters.mp (List.mem_of_mem_take hin)).2
  have hfutex := waits_futex hwaits
  rw [(h.running hc).2.1] at hfutex
  cases hfutex

lemma wakeOp_result (hcmd : args.cmd = 5)
    (hs : executeSyscall_futex m c args = some (m', ret)) :
    ∃ newval cond, args.wakeOp (m.read c args.addr2) = some (newval, cond) ∧
      m'.bytes = (m.write c args.addr2 newval).bytes ∧
      (let woken := m.emulator.futexWake args.addr1 0xffffffff args.val1.toNat
      let woken' := woken.1.futexWake args.addr2 0xffffffff args.timeout_ptr.toNat
      if cond then m'.emulator = woken'.1 ∧ ret = woken.2 + woken'.2
      else m'.emulator = woken.1 ∧ ret = woken.2) := by
  simp only [executeSyscall_futex, hcmd, Option.bind_eq_bind, Option.bind_eq_some_iff] at hs
  obtain ⟨⟨newval, cond⟩, hop, hs⟩ := hs
  refine ⟨newval, cond, hop, ?_⟩
  cases cond with
  | true =>
    simp only [if_true, Option.pure_def, Option.some.injEq, Prod.mk.injEq] at hs
    obtain ⟨rfl, rfl⟩ := hs
    exact ⟨rfl, rfl, rfl⟩
  | false =>
    simp only [Bool.false_eq_true, if_false, Option.pure_def, Option.some.injEq,
      Prod.mk.injEq] at hs
    obtain ⟨rfl, rfl⟩ := hs
    exact ⟨rfl, rfl, rfl⟩

lemma wakeOp_called (h : Slept m.emulator) (hc : c ∈ m.emulator.running) (hcmd : args.cmd = 5)
    (hs : executeSyscall_futex m c args = some (m', ret)) : Called m m' c args ret := by
  obtain ⟨newval, cond, hop, hbytes, hresult⟩ := wakeOp_result hcmd hs
  set n := args.val1.toNat with hn
  set n' := args.timeout_ptr.toNat with hn'
  set s := m.emulator with hsm
  obtain ⟨hwoke, hcount⟩ := @futexWake_woke _ args.addr1 0xffffffff h n
  have hwakes := wakes_iff (c := c) h args.addr1 0xffffffff n
  set F := (s.waiters args.addr1 0xffffffff).take n with hF
  set woken := s.futexWake args.addr1 0xffffffff n with hwoken
  set s₁ := woken.1 with hs₁
  have hcaller : s₁.ctx c = s.ctx c := hwoke.caller h hc
  have hawake : ∀ x ∈ F, s.getState x .futex = true := fun x hx =>
    waits_futex (h.mem_waiters.mp (List.mem_of_mem_take hx)).2
  cases cond with
  | false =>
    obtain ⟨hm', hret⟩ := hresult
    have hslept : Slept m'.emulator := by
      rw [hm']
      exact hwoke.slept
    have hcontexts : m'.emulator.contexts = s.contexts := by
      rw [hm']
      exact hwoke.contexts
    refine ⟨hslept, hcontexts, ?_⟩
    simp only [FutexCall, Fits, hcmd, hop, ← hn, ← hsm, ← hF]
    constructor
    · rintro ⟨-, -, newval', cond', heq, -, t₁, k, ht, hrest⟩
      simp only [Option.some.injEq, Prod.mk.injEq] at heq
      obtain ⟨rfl, rfl⟩ := heq
      refine ⟨fun x hx => ?_, fun _ heq => by simp at heq⟩
      rw [if_neg (by simp)] at hrest
      have hgone : t₁.getState x .futex = false := by
        rw [Emulator.getState, ← hrest.1 x, hm']
        exact (hwoke.awake x hx).futex
      exact (own_waits (ht.own (hawake x hx) hgone)).2
    · rintro ⟨hown, -⟩
      refine ⟨hslept.notLost, hcontexts, newval, false, rfl, hbytes, s₁, _, hwakes.mpr hown, ?_⟩
      rw [if_neg (by simp), hm']
      exact ⟨fun _ => rfl, hret⟩
  | true =>
    obtain ⟨hm', hret⟩ := hresult
    obtain ⟨hwoke', hcount'⟩ :=
      @futexWake_woke _ args.addr2 0xffffffff hwoke.slept n'
    have hc₁ : ∀ x ∈ (s₁.waiters args.addr2 0xffffffff).take n', x ∉ F ∧
        s₁.getState x .futex = true := by
      intro x hx
      have hx' := List.mem_of_mem_take hx
      rw [hwoke.waiters] at hx'
      exact ⟨by simpa using (List.mem_filter.mp hx').2,
        waits_futex (hwoke.slept.mem_waiters.mp (List.mem_of_mem_take hx)).2⟩
    have hsecond : (s₁.waiters args.addr2 0xffffffff).take n' =
        ((s.waiters args.addr2 0xffffffff).filter fun x => x ∉ F).take n' := by
      rw [hwoke.waiters]
    have hslept : Slept m'.emulator := by
      rw [hm']
      exact hwoke'.slept
    have hcontexts : m'.emulator.contexts = s.contexts := by
      rw [hm']
      exact hwoke'.contexts.trans hwoke.contexts
    refine ⟨hslept, hcontexts, ?_⟩
    simp only [FutexCall, Fits, hcmd, hop, ← hn, ← hn', ← hsm, ← hF]
    rw [← hsecond]
    constructor
    · rintro ⟨-, -, newval', cond', heq, -, t₁, k, ht, hrest⟩
      simp only [Option.some.injEq, Prod.mk.injEq] at heq
      obtain ⟨rfl, rfl⟩ := heq
      rw [if_pos rfl] at hrest
      obtain ⟨k', ht', -⟩ := hrest
      have hmemory : ∀ x, s.getState x .futex = true → m'.emulator.getState x .futex = false →
          (s.ctx x).memory = (s.ctx c).memory := fun x hbefore hafter =>
        ht.memory h hc hbefore hafter fun h₁ h₂ => (own_waits (ht'.own h₁ h₂)).2
      have hfirst : ∀ x ∈ F, m'.emulator.getState x .futex = false := by
        intro x hx
        have hnot : x ∉ (s₁.waiters args.addr2 0xffffffff).take n' := fun hin => (hc₁ x hin).1 hx
        rw [hm', Emulator.getState, hwoke'.frame x hnot]
        exact (hwoke.awake x hx).futex
      refine ⟨fun x hx => hmemory x (hawake x hx) (hfirst x hx), fun _ _ x hx => ?_⟩
      obtain ⟨hxF, hwaits⟩ := hc₁ x hx
      refine hmemory x ?_ ?_
      · rw [Emulator.getState, hwoke.frame x hxF] at hwaits
        exact hwaits
      · rw [hm']
        exact (hwoke'.awake x hx).futex
    · rintro ⟨hown, hown'⟩
      have hsecondOwn : ∀ x ∈ (s₁.waiters args.addr2 0xffffffff).take n',
          (s₁.ctx x).memory = (s₁.ctx c).memory := by
        intro x hx
        rw [hcaller, hwoke.frame x (hc₁ x hx).1]
        exact hown' newval rfl x hx
      have hwakes' := (wakes_iff (c := c) hwoke.slept args.addr2 0xffffffff n').mpr hsecondOwn
      rw [← hm'] at hwakes'
      refine ⟨hslept.notLost, hcontexts, newval, true, rfl, hbytes, s₁, _, hwakes.mpr hown, ?_⟩
      rw [if_pos rfl]
      exact ⟨_, hwakes', hret⟩

lemma futex_called (h : Slept m.emulator) (hc : c ∈ m.emulator.running)
    (hs : executeSyscall_futex m c args = some (m', ret)) : Called m m' c args ret := by
  have hcmd : args.cmd = 0 ∨ args.cmd = 9 ∨ args.cmd = 1 ∨ args.cmd = 10 ∨ args.cmd = 4 ∨
      args.cmd = 5 := by
    unfold executeSyscall_futex at hs
    dsimp only at hs
    split at hs
    · exact .inl ‹_›
    · exact .inr (.inl ‹_›)
    · exact .inr (.inr (.inl ‹_›))
    · exact .inr (.inr (.inr (.inl ‹_›)))
    · exact .inr (.inr (.inr (.inr (.inl ‹_›))))
    · exact .inr (.inr (.inr (.inr (.inr ‹_›))))
    · cases hs
  rcases hcmd with hcmd | hcmd | hcmd | hcmd | hcmd | hcmd
  · exact wait_called h hc (.inl hcmd) hs
  · exact wait_called h hc (.inr hcmd) hs
  · exact wake_called h (.inl hcmd) hs
  · exact wake_called h (.inr hcmd) hs
  · exact requeue_called h hc hcmd hs
  · exact wakeOp_called h hc hcmd hs

lemma executeSyscall_slept (h : Slept m.emulator) (hc : c ∈ m.emulator.running)
    (hs : executeSyscall m c args = some m') : Slept m'.emulator := by
  simp only [executeSyscall, Option.bind_eq_bind, Option.bind_eq_some_iff] at hs
  obtain ⟨⟨m₁, ret⟩, hcall, hs⟩ := hs
  have hslept := (futex_called h hc hcall).slept
  dsimp only at hs
  split at hs
  · simp only [Option.pure_def, Option.some.injEq] at hs
    rw [← hs]
    exact hslept
  · simp only [Option.pure_def, Option.some.injEq] at hs
    rw [← hs]
    exact hslept.setCtx rfl rfl rfl rfl rfl rfl

/-- A context that is created does not wait. -/
lemma newContext_slept (h : Slept s) : Slept s.newContext := by
  have hnew : s.next ∉ s.contexts := fun hmem => absurd (h.inv.fresh _ hmem) (lt_irrefl _)
  have hctx : ∀ x, x ≠ s.next → s.newContext.ctx x = s.ctx x := fun x hx => by
    rw [Emulator.newContext, Emulator.setState, updateState_ctx, if_neg hx]
    simp [Emulator.setCtx, hx]
  have hself : ∀ flag, flag = .futex ∨ flag = .suspended →
      s.newContext.getState s.next flag = false := by
    intro flag hflag
    rw [Emulator.newContext, Emulator.setState, updateState_getState, if_pos rfl]
    rcases hflag with rfl | rfl <;>
    · refine normalize_of_false (by decide) (by decide) (by decide) ?_
      rw [Function.update_of_ne (by decide)]
      simp [Emulator.setCtx]
  have hget : ∀ x flag, x ≠ s.next → s.newContext.getState x flag = s.getState x flag := by
    intro x flag hx
    rw [Emulator.getState, hctx x hx]
    rfl
  have hinv := (newContext_born h.inv).inv
  have hlist : s.newContext.suspended = s.suspended := by
    have hlist := (updateState_lists { s.setCtx s.next { state := fun _ => false } with
      contexts := s.contexts ++ [s.next]
      next := s.next + 1 } s.next (Function.update (fun _ => false) .running true)).2.1
    have hval : normalize (Function.update (fun _ => false) .running true) .suspended = false :=
      normalize_of_false (by decide) (by decide) (by decide) rfl
    rw [hval] at hlist
    simpa [Emulator.newContext, Emulator.setState, Emulator.setCtx, Emulator.updateList] using hlist
  have hne : ∀ x ∈ s.suspended, x ≠ s.next := by
    rintro x hx rfl
    exact hnew ((h.inv.suspended.mem _).mp hx).1
  have hmem : ∀ x ∈ s.newContext.contexts, x ∈ s.contexts ∨ x = s.next := fun x hx => by
    have hx' : x ∈ s.contexts ++ [s.next] := hx
    simpa using hx'
  refine ⟨hinv, ?_, fun x hx hf => ?_, fun x hx hf => ?_⟩
  · rw [hlist]
    have hfilter : s.suspended.filter (fun x => s.newContext.getState x .futex) =
        s.suspended.filter fun x => s.getState x .futex :=
      List.filter_congr fun x hx => hget x _ (hne x hx)
    rw [hfilter]
    refine h.order.imp_of_mem fun {a b} ha hb hlt => ?_
    rw [hctx a (hne a (List.mem_of_mem_filter ha)), hctx b (hne b (List.mem_of_mem_filter hb))]
    exact hlt
  · rcases hmem x hx with hx | rfl
    · have hxn : x ≠ s.next := fun heq => hnew (heq ▸ hx)
      rw [hget x _ hxn] at hf
      rw [hctx x hxn]
      exact h.counted x hx hf
    · rw [hself _ (.inl rfl)] at hf
      cases hf
  · rcases hmem x hx with hx | rfl
    · have hxn : x ≠ s.next := fun heq => hnew (heq ▸ hx)
      rw [hget x _ hxn] at hf ⊢
      exact h.suspended x hx hf
    · rw [hself _ (.inl rfl)] at hf
      cases hf

lemma Slept.next_memory (h : Slept s) (n : ℕ) : Slept { s with next_memory := n } :=
  ⟨h.inv.next_memory n, h.order, h.counted, h.suspended⟩

lemma loadProgram_slept (h : Slept s) : Slept s.loadProgram := by
  have hset : Slept (s.newContext.setCtx s.next { s.newContext.ctx s.next with
      memory := s.newContext.next_memory }) := (newContext_slept h).setCtx rfl rfl rfl rfl rfl rfl
  exact hset.next_memory _

lemma clone_slept (h : Slept s) (vm thread : Bool) : Slept (s.clone c vm thread) := by
  have hset : Slept (s.newContext.setCtx s.next { s.newContext.ctx s.next with
      parent := some c
      group_parent := if thread then some ((s.newContext.ctx c).group_parent.getD c) else none
      memory := if vm then (s.newContext.ctx c).memory else s.newContext.next_memory }) :=
    (newContext_slept h).setCtx rfl rfl rfl rfl rfl rfl
  exact hset.next_memory _

lemma act_slept (action : Act) (m m' : Machine) (h : Slept m.emulator)
    (hs : act action m = some m') : Slept m'.emulator := by
  cases action with
  | load =>
    simp only [act, Option.some.injEq] at hs
    rw [← hs]
    exact loadProgram_slept h
  | clone c vm thread =>
    simp only [act, Option.ite_none_right_eq_some, Option.some.injEq] at hs
    rw [← hs.2]
    exact clone_slept h vm thread
  | store c addr value =>
    simp only [act, Option.ite_none_right_eq_some, Option.some.injEq] at hs
    rw [← hs.2]
    exact h
  | futex c args =>
    simp only [act, Option.ite_none_right_eq_some] at hs
    exact executeSyscall_slept h hs.1 hs.2

lemma empty_slept : Slept Machine.empty.emulator :=
  ⟨empty_inv, .nil, fun _ hc => absurd hc List.not_mem_nil, fun _ hc => absurd hc List.not_mem_nil⟩

end Calls

/-- A call of a running context that returns fulfils its contract. -/
def Fulfils (action : Act) (m : Machine) : Prop :=
  match action with
  | .futex c args => c ∈ m.emulator.running → ∀ m' ret,
      executeSyscall_futex m c args = some (m', ret) → FutexCall m m' c args ret
  | _ => True

/-- A call of a running context that returns finds no context of another memory. -/
def Keeps (action : Act) (m : Machine) : Prop :=
  match action with
  | .futex c args => c ∈ m.emulator.running → (executeSyscall_futex m c args).isSome →
      Fits m c args
  | _ => True

lemma fulfils_iff {action : Act} {m : Machine} (h : Slept m.emulator) :
    Fulfils action m ↔ Keeps action m := by
  cases action with
  | load => exact Iff.rfl
  | clone c vm thread => exact Iff.rfl
  | store c addr value => exact Iff.rfl
  | futex c args =>
    refine forall_congr' fun hc => ?_
    cases hs : executeSyscall_futex m c args with
    | none => simp
    | some result =>
      have hcalled := futex_called h hc hs
      rw [← hcalled.call]
      simp only [Option.some.injEq, Option.isSome_some, forall_const]
      refine ⟨fun hall => hall result.1 result.2 rfl, fun hcall m' ret heq => ?_⟩
      rw [heq] at hcall
      exact hcall

lemma along_fulfils_iff (actions : List Act) {m : Machine} (h : Slept m.emulator) :
    Along act Fulfils actions m ↔ Along act Keeps actions m := by
  induction actions generalizing m with
  | nil => exact Iff.rfl
  | cons action actions ih =>
    rw [Along, Along, fulfils_iff h]
    refine and_congr_right fun _ => ?_
    cases hs : act action m with
    | none => exact Iff.rfl
    | some m' => exact ih (act_slept action m m' h hs)

/-- The calls of a run fulfil their contracts exactly when none of them finds a context of
another memory. -/
theorem futexRun_iff (actions : List Act) :
    Along act Fulfils actions .empty ↔ Along act Keeps actions .empty :=
  along_fulfils_iff actions empty_slept

/-- A parent wakes up its child, which waits at the same address of its own memory. -/
theorem futexRun_fork : ¬ ∀ actions, Along act Fulfils actions .empty := by
  intro hall
  have hrun := (along_fulfils_iff [.load, .clone 1 false false,
    .futex 2 ⟨0x1000, 0, 0, 0, 0, 0⟩, .futex 1 ⟨0x1000, 1, 1, 0, 0, 0⟩] empty_slept).mp (hall _)
  obtain ⟨-, -, -, hkeeps, -⟩ := hrun
  have hfits := hkeeps (by decide +kernel) (by decide +kernel)
  have hmemory := hfits 2 (by decide +kernel)
  exact absurd hmemory (by decide +kernel)

end OISA.X86.Contexts
