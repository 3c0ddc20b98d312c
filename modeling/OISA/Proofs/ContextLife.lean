import OISA.Lib.Runs
import OISA.X86.Contexts

/-!
# The life of a context

Every operation keeps the lists and the flags in step.
-/

namespace OISA.X86.Contexts

open OISA.Lib

section Normalize

variable (state : State)

lemma normalize_finished : normalize state .finished = state .finished := by
  unfold normalize
  cases h : state .finished <;> cases hz : state .zombie <;> simp [h, hz]

lemma normalize_zombie : normalize state .zombie = (state .zombie && !state .finished) := by
  unfold normalize
  cases h : state .finished <;> cases hz : state .zombie <;> simp [h, hz]

lemma normalize_running : normalize state .running =
    (!normalize state .suspended && !normalize state .finished && !normalize state .zombie &&
      !normalize state .locked) := by
  unfold normalize
  simp

end Normalize

/-- A list has the contexts with the flag, and the contexts know that they are in it. -/
structure Listed (s : Emulator) (list : List ℕ) (isIn : Context → Bool) (flag : Flag) : Prop where
  nodup : list.Nodup
  mem : ∀ c, c ∈ list ↔ c ∈ s.contexts ∧ s.getState c flag = true
  isIn : ∀ c ∈ s.contexts, isIn (s.ctx c) = s.getState c flag

structure Inv (s : Emulator) : Prop where
  nodup : s.contexts.Nodup
  fresh : ∀ c ∈ s.contexts, c < s.next
  running : Listed s s.running Context.in_running .running
  suspended : Listed s s.suspended Context.in_suspended .suspended
  finished : Listed s s.finished Context.in_finished .finished
  zombie : Listed s s.zombie Context.in_zombie .zombie
  once : ∀ c ∈ s.contexts, s.getState c .finished = true → s.getState c .zombie = false
  runs : ∀ c ∈ s.contexts, s.getState c .running = (!s.getState c .suspended &&
    !s.getState c .finished && !s.getState c .zombie && !s.getState c .locked)

section UpdateState

variable {s : Emulator} {c : ℕ}

lemma updateState_ctx (s : Emulator) (c : ℕ) (state : State) (x : ℕ) :
    (s.updateState c state).ctx x = if x = c then { s.ctx c with
      state := normalize state
      in_running := normalize state .running
      in_suspended := normalize state .suspended
      in_finished := normalize state .finished
      in_zombie := normalize state .zombie } else s.ctx x := by
  by_cases hx : x = c
  · subst hx
    simp [Emulator.updateState, Emulator.updateRunningContexts, Emulator.updateZombieContexts,
      Emulator.updateFinishedContexts, Emulator.updateSuspendedContexts, Emulator.setCtx]
  · simp [Emulator.updateState, Emulator.updateRunningContexts, Emulator.updateZombieContexts,
      Emulator.updateFinishedContexts, Emulator.updateSuspendedContexts, Emulator.setCtx, hx]

lemma updateState_getState (s : Emulator) (c : ℕ) (state : State) (x : ℕ) (flag : Flag) :
    (s.updateState c state).getState x flag =
      if x = c then normalize state flag else s.getState x flag := by
  rw [Emulator.getState, updateState_ctx]
  split <;> rfl

lemma updateState_lists (s : Emulator) (c : ℕ) (state : State) :
    (s.updateState c state).running = Emulator.updateList c s.running (s.ctx c).in_running
        (normalize state .running) ∧
      (s.updateState c state).suspended = Emulator.updateList c s.suspended
        (s.ctx c).in_suspended (normalize state .suspended) ∧
      (s.updateState c state).finished = Emulator.updateList c s.finished
        (s.ctx c).in_finished (normalize state .finished) ∧
      (s.updateState c state).zombie = Emulator.updateList c s.zombie
        (s.ctx c).in_zombie (normalize state .zombie) := by
  simp [Emulator.updateState, Emulator.updateRunningContexts, Emulator.updateZombieContexts,
    Emulator.updateFinishedContexts, Emulator.updateSuspendedContexts, Emulator.setCtx]

lemma mem_updateList {list : List ℕ} {isIn present : Bool} (hnodup : list.Nodup)
    (hin : c ∈ list ↔ isIn = true) :
    (Emulator.updateList c list isIn present).Nodup ∧
      ∀ x, x ∈ Emulator.updateList c list isIn present ↔
        if x = c then present = true else x ∈ list := by
  unfold Emulator.updateList
  cases present <;> cases isIn
  · have hout : c ∉ list := fun h => by simpa using hin.mp h
    refine ⟨hnodup, fun x => ?_⟩
    by_cases hx : x = c
    · simp [hx, hout]
    · simp [hx]
  · refine ⟨hnodup.erase c, fun x => ?_⟩
    by_cases hx : x = c
    · simp [hx, hnodup.mem_erase_iff]
    · simp [hx, hnodup.mem_erase_iff]
  · have hout : c ∉ list := fun h => by simpa using hin.mp h
    refine ⟨List.nodup_append.mpr ⟨hnodup, List.nodup_singleton c, fun a ha b hb heq => ?_⟩,
      fun x => ?_⟩
    · rw [List.mem_singleton] at hb
      exact hout (hb ▸ heq ▸ ha)
    · by_cases hx : x = c
      · simp [hx]
      · simp [hx]
  · refine ⟨hnodup, fun x => ?_⟩
    by_cases hx : x = c
    · simp [hx, hin]
    · simp [hx]

lemma Listed.update {list : List ℕ} {isIn : Context → Bool} {flag : Flag}
    (h : Listed s list isIn flag) (hc : c ∈ s.contexts) {s' : Emulator} {present : Bool}
    (hcontexts : s'.contexts = s.contexts)
    (hstate : ∀ x, s'.getState x flag = if x = c then present else s.getState x flag)
    (hisIn : ∀ x, isIn (s'.ctx x) = if x = c then present else isIn (s.ctx x)) :
    Listed s' (Emulator.updateList c list (isIn (s.ctx c)) present) isIn flag := by
  have hin : c ∈ list ↔ isIn (s.ctx c) = true := by
    rw [h.isIn c hc, h.mem c]
    exact and_iff_right hc
  obtain ⟨hnodup, hmem⟩ := @mem_updateList c list (isIn (s.ctx c)) present h.nodup hin
  refine ⟨hnodup, fun x => ?_, fun x hx => ?_⟩
  · rw [hmem, hcontexts, hstate]
    split
    · rename_i heq
      rw [heq]
      exact (and_iff_right hc).symm
    · exact h.mem x
  · rw [hcontexts] at hx
    rw [hisIn, hstate]
    split
    · rfl
    · exact h.isIn x hx

/-- An update repairs the flags of its context. -/
lemma updateState_inv (hnodup : s.contexts.Nodup) (hfresh : ∀ x ∈ s.contexts, x < s.next)
    (hrun : Listed s s.running Context.in_running .running)
    (hsus : Listed s s.suspended Context.in_suspended .suspended)
    (hfin : Listed s s.finished Context.in_finished .finished)
    (hzom : Listed s s.zombie Context.in_zombie .zombie)
    (honce : ∀ x ∈ s.contexts, x ≠ c → s.getState x .finished = true →
      s.getState x .zombie = false)
    (hruns : ∀ x ∈ s.contexts, x ≠ c → s.getState x .running = (!s.getState x .suspended &&
      !s.getState x .finished && !s.getState x .zombie && !s.getState x .locked))
    (hc : c ∈ s.contexts) (state : State) : Inv (s.updateState c state) := by
  have hstate := updateState_getState s c state
  have hctx := updateState_ctx s c state
  have hisIn : ∀ {α : Type} (f : Context → α) (v : α), f { s.ctx c with
      state := normalize state
      in_running := normalize state .running
      in_suspended := normalize state .suspended
      in_finished := normalize state .finished
      in_zombie := normalize state .zombie } = v →
      ∀ x, f ((s.updateState c state).ctx x) = if x = c then v else f (s.ctx x) := by
    intro α f v hv x
    rw [hctx]
    split
    · exact hv
    · rfl
  have hcontexts : (s.updateState c state).contexts = s.contexts := rfl
  have hrunning := hrun.update hc hcontexts (fun x => hstate x .running) (hisIn _ _ rfl)
  have hsuspended := hsus.update hc hcontexts (fun x => hstate x .suspended) (hisIn _ _ rfl)
  have hfinished := hfin.update hc hcontexts (fun x => hstate x .finished) (hisIn _ _ rfl)
  have hzombie := hzom.update hc hcontexts (fun x => hstate x .zombie) (hisIn _ _ rfl)
  obtain ⟨hrlist, hslist, hflist, hzlist⟩ := updateState_lists s c state
  refine ⟨hnodup, hfresh, ?_, ?_, ?_, ?_, fun x hx hfin => ?_, fun x hx => ?_⟩
  · rwa [hrlist]
  · rwa [hslist]
  · rwa [hflist]
  · rwa [hzlist]
  · rw [hstate] at hfin ⊢
    split at hfin
    · rw [normalize_finished] at hfin
      rw [if_pos ‹_›, normalize_zombie, hfin]
      simp
    · rw [if_neg ‹_›]
      exact honce x hx ‹_› hfin
  · simp only [hstate]
    split
    · exact normalize_running state
    · exact hruns x hx ‹_›

lemma Inv.updateState (h : Inv s) (hc : c ∈ s.contexts) (state : State) :
    Inv (s.updateState c state) :=
  updateState_inv h.nodup h.fresh h.running h.suspended h.finished h.zombie
    (fun x hx _ => h.once x hx) (fun x hx _ => h.runs x hx) hc state

end UpdateState

structure Life where
  finished : Bool
  zombie : Bool
  parent : Option ℕ
  group_parent : Option ℕ
  deriving DecidableEq

def Emulator.life (s : Emulator) (c : ℕ) : Life where
  finished := s.getState c .finished
  zombie := s.getState c .zombie
  parent := (s.ctx c).parent
  group_parent := (s.ctx c).group_parent

/-- An operation that keeps the contexts and gives each of them a new life -/
structure Lives (s s' : Emulator) (life : ℕ → Life) : Prop where
  inv : Inv s'
  contexts : s'.contexts = s.contexts
  life : ∀ x, s'.life x = life x

lemma Lives.refl {s : Emulator} (h : Inv s) : Lives s s s.life := ⟨h, rfl, fun _ => rfl⟩

section Lives

variable {s s' s'' : Emulator} {c : ℕ}

lemma Lives.trans {life life' : ℕ → Life} (h : Lives s s' life) (h' : Lives s' s'' life') :
    Lives s s'' life' :=
  ⟨h'.inv, h'.contexts.trans h.contexts, h'.life⟩

lemma Lives.congr {life life' : ℕ → Life} (h : Lives s s' life) (heq : ∀ x, life x = life' x) :
    Lives s s' life' :=
  ⟨h.inv, h.contexts, fun x => (h.life x).trans (heq x)⟩

lemma Inv.updateState_lives (h : Inv s) (hc : c ∈ s.contexts) (state : State) :
    Lives s (s.updateState c state) fun x => if x = c then { s.life c with
      finished := state .finished
      zombie := state .zombie && !state .finished } else s.life x := by
  refine ⟨h.updateState hc state, rfl, fun x => ?_⟩
  simp only [Emulator.life, updateState_getState, updateState_ctx]
  split
  · rw [normalize_finished, normalize_zombie]
  · rfl

lemma Inv.once_eq (h : Inv s) (hc : c ∈ s.contexts) :
    (s.getState c .zombie && !s.getState c .finished) = s.getState c .zombie := by
  cases hf : s.getState c .finished with
  | false => simp
  | true => simp [h.once c hc hf]

lemma Inv.flag_lives (h : Inv s) (hc : c ∈ s.contexts) (flag : Flag) (value : Bool)
    (hflag : flag ∉ lifeFlags) :
    Lives s (s.updateState c (Function.update (s.ctx c).state flag value)) s.life := by
  have hne : Flag.finished ≠ flag ∧ Flag.zombie ≠ flag := by
    constructor <;> rintro rfl <;> exact hflag (by decide)
  refine (h.updateState_lives hc _).congr fun x => ?_
  rw [Function.update_of_ne hne.1, Function.update_of_ne hne.2]
  split
  · rename_i hx
    rw [hx]
    have honce := h.once_eq hc
    simp only [Emulator.life, Life.mk.injEq, and_true]
    exact ⟨rfl, honce⟩
  · rfl

lemma Inv.setFinished_lives (h : Inv s) (hc : c ∈ s.contexts) :
    Lives s (s.setState c .finished) fun x => if x = c then { s.life c with
      finished := true
      zombie := false } else s.life x := by
  refine (h.updateState_lives hc _).congr fun x => ?_
  simp

lemma Inv.setZombie_lives (h : Inv s) (hc : c ∈ s.contexts) :
    Lives s (s.setState c .zombie) fun x => if x = c then { s.life c with
      zombie := !s.getState c .finished } else s.life x := by
  refine (h.updateState_lives hc _).congr fun x => ?_
  simp [Emulator.life, Emulator.getState]

lemma apply_setCtx {α : Type} (f : Context → α) {context : Context}
    (hf : f context = f (s.ctx c)) (x : ℕ) : f ((s.setCtx c context).ctx x) = f (s.ctx x) := by
  by_cases hx : x = c
  · subst hx
    simp [Emulator.setCtx, hf]
  · simp [Emulator.setCtx, hx]

lemma getState_setCtx {context : Context} (hstate : context.state = (s.ctx c).state) (x : ℕ)
    (flag : Flag) : (s.setCtx c context).getState x flag = s.getState x flag :=
  congrFun (apply_setCtx Context.state hstate x) flag

lemma Inv.setCtx (h : Inv s) {context : Context} (hstate : context.state = (s.ctx c).state)
    (hrunning : context.in_running = (s.ctx c).in_running)
    (hsuspended : context.in_suspended = (s.ctx c).in_suspended)
    (hfinished : context.in_finished = (s.ctx c).in_finished)
    (hzombie : context.in_zombie = (s.ctx c).in_zombie) : Inv (s.setCtx c context) := by
  have hget := getState_setCtx (s := s) hstate
  have hlisted : ∀ {list : List ℕ} {isIn : Context → Bool} {flag : Flag},
      isIn context = isIn (s.ctx c) → Listed s list isIn flag →
      Listed (s.setCtx c context) list isIn flag := by
    intro list isIn flag hin hl
    refine ⟨hl.nodup, fun x => ?_, fun x hx => ?_⟩
    · rw [hget]
      exact hl.mem x
    · rw [apply_setCtx isIn hin, hget]
      exact hl.isIn x hx
  refine ⟨h.nodup, h.fresh, hlisted hrunning h.running, hlisted hsuspended h.suspended,
    hlisted hfinished h.finished, hlisted hzombie h.zombie, fun x hx => ?_, fun x hx => ?_⟩
  · rw [hget, hget]
    exact h.once x hx
  · simp only [hget]
    exact h.runs x hx

lemma foldl_lives {op : Emulator → ℕ → Emulator} (next : ℕ → Life → Life) {list : List ℕ}
    (hop : ∀ s x, Inv s → x ∈ s.contexts →
      Lives s (op s x) fun y => if y = x then next x (s.life x) else s.life y)
    (h : Inv s) (hlist : ∀ x ∈ list, x ∈ s.contexts) (hnodup : list.Nodup) :
    Lives s (list.foldl op s) fun x => if x ∈ list then next x (s.life x) else s.life x := by
  induction list generalizing s with
  | nil => exact (Lives.refl h).congr fun x => by simp
  | cons y list ih =>
    rw [List.nodup_cons] at hnodup
    have hstep := hop s y h (hlist y List.mem_cons_self)
    have hrest := ih hstep.inv
      (fun x hx => by rw [hstep.contexts]; exact hlist x (List.mem_cons_of_mem _ hx)) hnodup.2
    rw [List.foldl_cons]
    refine (hstep.trans hrest).congr fun x => ?_
    rw [hstep.life]
    by_cases hxy : x = y
    · subst hxy
      simp [hnodup.1]
    · simp [hxy]

def Life.orphan (c : ℕ) (life : Life) : Life :=
  if life.parent = some c then { life with
    parent := none
    finished := life.finished || life.zombie
    zombie := false }
  else life

lemma orphan_lives (c : ℕ) (s : Emulator) (x : ℕ) (h : Inv s) (hx : x ∈ s.contexts) :
    Lives s (s.orphan c x) fun y => if y = x then (s.life x).orphan c else s.life y := by
  unfold Emulator.orphan
  by_cases hp : (s.ctx x).parent = some c
  · rw [if_pos hp]
    have hp' : (s.life x).parent = some c := hp
    have hinv : Inv (s.setCtx x { s.ctx x with parent := none }) := h.setCtx rfl rfl rfl rfl rfl
    set s₁ := s.setCtx x { s.ctx x with parent := none } with hs₁
    have hlife : ∀ y, s₁.life y = if y = x then { s.life x with parent := none } else s.life y := by
      intro y
      by_cases hy : y = x
      · subst hy
        simp [Emulator.life, Emulator.getState, hs₁, Emulator.setCtx]
      · simp [Emulator.life, Emulator.getState, hs₁, Emulator.setCtx, hy]
    have h₁ : Lives s s₁ _ := ⟨hinv, rfl, hlife⟩
    have hself := hlife x
    rw [if_pos rfl] at hself
    have hz : s₁.getState x .zombie = (s.life x).zombie := congrArg Life.zombie hself
    dsimp only
    rw [hz]
    cases hzombie : (s.life x).zombie with
    | true =>
      rw [if_pos rfl]
      refine (h₁.trans (hinv.setFinished_lives hx)).congr fun y => ?_
      rw [hself, hlife y, Life.orphan, if_pos hp', hzombie, Bool.or_true]
      by_cases hy : y = x
      · rw [if_pos hy, if_pos hy]
      · rw [if_neg hy, if_neg hy, if_neg hy]
    | false =>
      rw [if_neg (by simp)]
      refine h₁.congr fun y => ?_
      rw [Life.orphan, if_pos hp', hzombie]
      split
      · rw [Bool.or_false]
        rw [← hzombie]
      · rfl
  · rw [if_neg hp]
    refine (Lives.refl h).congr fun y => ?_
    have hp' : ¬ (s.life x).parent = some c := hp
    rw [Life.orphan, if_neg hp']
    split
    · rw [‹y = x›]
    · rfl

lemma wakeUp_lives (s : Emulator) (x : ℕ) (h : Inv s) (hx : x ∈ s.contexts) :
    Lives s (s.wakeUp x) fun y => if y = x then s.life x else s.life y := by
  have h₁ := h.flag_lives hx .futex false (by decide)
  have hx₁ : x ∈ (s.clearState x .futex).contexts := hx
  have h₂ := h₁.inv.flag_lives hx₁ .suspended false (by decide)
  have h₁₂ := h₁.trans h₂
  unfold Emulator.wakeUp
  refine ⟨h₁₂.inv.setCtx rfl rfl rfl rfl rfl, h₁₂.contexts, fun y => ?_⟩
  have hy := h₂.life y
  rw [h₁.life] at hy
  have hsame : ∀ (s : Emulator) (v : BitVec 32),
      (s.setCtx x { s.ctx x with eax := v }).life y = s.life y := by
    intro s v
    by_cases hyx : y = x
    · subst hyx
      simp [Emulator.life, Emulator.getState, Emulator.setCtx]
    · simp [Emulator.life, Emulator.getState, Emulator.setCtx, hyx]
  rw [hsame]
  refine hy.trans ?_
  split
  · rw [‹y = x›]
  · rfl

lemma returnFromSignalHandler_lives {s : Emulator} {c : ℕ} (h : Inv s) (hc : c ∈ s.contexts) :
    Lives s (if s.getState c .handler then s.returnFromSignalHandler c else s) s.life := by
  split
  · exact h.flag_lives hc .handler false (by decide)
  · exact Lives.refl h

/-- The life of a context that finishes: it waits for its parent, if it has one. -/
def Life.finish (life : Life) : Life :=
  if life.parent.isSome then { life with
    finished := life.finished || life.zombie
    zombie := !(life.finished || life.zombie) }
  else { life with
    finished := true
    zombie := false }

lemma setLast_lives {s : Emulator} {c : ℕ} (h : Inv s) (hc : c ∈ s.contexts)
    (hz : (s.life c).zombie = false) :
    Lives s (s.setState c (if (s.ctx c).parent.isSome then .zombie else .finished)) fun x =>
      if x = c then (s.life c).finish else s.life x := by
  by_cases hp : (s.ctx c).parent.isSome = true
  · rw [if_pos hp]
    have hp' : (s.life c).parent.isSome = true := hp
    refine (h.setZombie_lives hc).congr fun x => ?_
    rw [Life.finish, if_pos hp', hz, Bool.or_false]
    rfl
  · rw [if_neg hp]
    have hp' : ¬ (s.life c).parent.isSome = true := hp
    refine (h.setFinished_lives hc).congr fun x => ?_
    rw [Life.finish, if_neg hp']

lemma finish_lives {s : Emulator} {c : ℕ} {woken : List ℕ} (h : Inv s) (hc : c ∈ s.contexts)
    (hwoken : woken.Nodup ∧ ∀ w ∈ woken, w ∈ s.contexts) (hf : (s.life c).finished = false)
    (hz : (s.life c).zombie = false) :
    Lives s (s.finish c woken) fun x =>
      let life := if x ∈ s.contexts then (s.life x).orphan c else s.life x
      if x = c then life.finish else life := by
  unfold Emulator.finish
  have hnot : ¬ (s.getState c .finished || s.getState c .zombie) = true := by
    have hf' : s.getState c .finished = false := hf
    have hz' : s.getState c .zombie = false := hz
    simp [hf', hz']
  rw [if_neg hnot]
  have h₁ := foldl_lives (fun _ life => life.orphan c) (orphan_lives c) h (fun _ => id) h.nodup
  set s₁ := s.contexts.foldl (fun s child => s.orphan c child) s
  have h₂ := foldl_lives (fun _ life => life) wakeUp_lives h₁.inv
    (fun w hw => by rw [h₁.contexts]; exact hwoken.2 w hw) hwoken.1
  set s₂ := woken.foldl Emulator.wakeUp s₁
  have hc₂ : c ∈ s₂.contexts := by
    rw [h₂.contexts, h₁.contexts]
    exact hc
  have h₃ := returnFromSignalHandler_lives h₂.inv hc₂
  dsimp only
  set s₃ := if s₂.getState c .handler then s₂.returnFromSignalHandler c else s₂
  have h₁₃ : Lives s s₃ fun x =>
      if x ∈ s.contexts then (s.life x).orphan c else s.life x := by
    refine ((h₁.trans h₂).trans h₃).congr fun x => ?_
    rw [h₂.life, h₁.life]
    split <;> rfl
  have hz₃ : (s₃.life c).zombie = false := by
    rw [h₁₃.life, if_pos hc, Life.orphan]
    split
    · rfl
    · exact hz
  have hc₃ : c ∈ s₃.contexts := by
    rw [h₁₃.contexts]
    exact hc
  refine (h₁₃.trans (setLast_lives h₁₃.inv hc₃ hz₃)).congr fun x => ?_
  rw [h₁₃.life c, h₁₃.life x]
  by_cases hx : x = c
  · rw [if_pos hx, if_pos hx, hx]
  · rw [if_neg hx, if_neg hx]

def Life.member (leader x : ℕ) (life : Life) : Life :=
  if life.group_parent ≠ some leader ∧ x ≠ leader then life
  else if x = leader then life.finish
  else { life with
    finished := true
    zombie := false }

lemma finishMember_lives (leader : ℕ) (s : Emulator) (x : ℕ) (h : Inv s) (hx : x ∈ s.contexts) :
    Lives s (s.finishMember leader x) fun y =>
      if y = x then (s.life x).member leader x else s.life y := by
  unfold Emulator.finishMember
  by_cases hout : (s.ctx x).group_parent ≠ some leader ∧ x ≠ leader
  · have hout' : (s.life x).group_parent ≠ some leader ∧ x ≠ leader := hout
    rw [if_pos hout, Life.member, if_pos hout']
    refine (Lives.refl h).congr fun y => ?_
    split
    · rw [‹y = x›]
    · rfl
  · have hout' : ¬ ((s.life x).group_parent ≠ some leader ∧ x ≠ leader) := hout
    rw [if_neg hout, Life.member, if_neg hout']
    have h₁ : Lives s (if s.getState x .zombie then s.setState x .finished else s) fun y =>
        if y = x then { s.life x with
          finished := (s.life x).finished || (s.life x).zombie
          zombie := false } else s.life y := by
      cases hz : s.getState x .zombie with
      | true =>
        have hz' : (s.life x).zombie = true := hz
        rw [if_pos rfl]
        refine (h.setFinished_lives hx).congr fun y => ?_
        rw [hz', Bool.or_true]
      | false =>
        have hz' : (s.life x).zombie = false := hz
        rw [if_neg (by simp)]
        refine (Lives.refl h).congr fun y => ?_
        split
        · rw [‹y = x›, hz', Bool.or_false, ← hz']
        · rfl
    dsimp only
    set s₁ := if s.getState x .zombie then s.setState x .finished else s
    have hx₁ : x ∈ s₁.contexts := by
      rw [h₁.contexts]
      exact hx
    have h₂ := returnFromSignalHandler_lives h₁.inv hx₁
    set s₂ := if s₁.getState x .handler then s₁.returnFromSignalHandler x else s₁
    have hx₂ : x ∈ s₂.contexts := by
      rw [h₂.contexts]
      exact hx₁
    have hself : s₂.life x = { s.life x with
        finished := (s.life x).finished || (s.life x).zombie
        zombie := false } := by
      rw [h₂.life, h₁.life, if_pos rfl]
    by_cases hleader : x = leader
    · rw [if_pos hleader, if_pos hleader]
      have hz₂ : (s₂.life x).zombie = false := by rw [hself]
      refine ((h₁.trans h₂).trans (setLast_lives h₂.inv hx₂ hz₂)).congr fun y => ?_
      rw [hself, h₂.life, h₁.life]
      split
      · simp [Life.finish]
      · rfl
    · rw [if_neg hleader, if_neg hleader]
      refine ((h₁.trans h₂).trans (h₂.inv.setFinished_lives hx₂)).congr fun y => ?_
      rw [hself, h₂.life, h₁.life]
      split <;> rfl

lemma finishLeader_lives {s : Emulator} {leader : ℕ} (h : Inv s)
    (hf : (s.life leader).finished = false) (hz : (s.life leader).zombie = false) :
    Lives s (s.finishLeader leader) fun x =>
      if x ∈ s.contexts then (s.life x).member leader x else s.life x := by
  unfold Emulator.finishLeader
  have hnot : ¬ (s.getState leader .finished || s.getState leader .zombie) = true := by
    have hf' : s.getState leader .finished = false := hf
    have hz' : s.getState leader .zombie = false := hz
    simp [hf', hz']
  rw [if_neg hnot]
  exact foldl_lives (fun x life => life.member leader x) (finishMember_lives leader) h
    (fun _ => id) h.nodup

/-- The life of a context that has been created, and the lives of the others -/
structure Born (s s' : Emulator) (life : Life) : Prop where
  inv : Inv s'
  contexts : s'.contexts = s.contexts ++ [s.next]
  life : ∀ x, s'.life x = if x = s.next then life else s.life x

lemma newContext_born {s : Emulator} (h : Inv s) :
    Born s s.newContext ⟨false, false, none, none⟩ := by
  set s₁ : Emulator := { s.setCtx s.next { state := fun _ => false } with
    contexts := s.contexts ++ [s.next]
    next := s.next + 1 } with hs₁
  have hnew : s.next ∉ s.contexts := fun hmem => absurd (h.fresh _ hmem) (lt_irrefl _)
  have hctx : ∀ x, s₁.ctx x =
      if x = s.next then { state := fun _ => false } else s.ctx x := fun x => by
    simp [hs₁, Emulator.setCtx, Function.update_apply]
  have hget : ∀ x flag, s₁.getState x flag = if x = s.next then false else s.getState x flag := by
    intro x flag
    rw [Emulator.getState, hctx]
    split <;> rfl
  have hmem : ∀ x, x ∈ s₁.contexts ↔ x ∈ s.contexts ∨ x = s.next := fun x => by simp [hs₁]
  have hlisted : ∀ {list : List ℕ} {isIn : Context → Bool} {flag : Flag},
      isIn { state := fun _ => false } = false → Listed s list isIn flag →
      Listed s₁ list isIn flag := by
    intro list isIn flag hin hl
    refine ⟨hl.nodup, fun x => ?_, fun x hx => ?_⟩
    · rw [hl.mem, hmem, hget]
      by_cases hx : x = s.next
      · subst hx
        simp [hnew]
      · simp [hx]
    · rw [hctx, hget]
      split
      · exact hin
      · rename_i hne
        exact hl.isIn x (((hmem x).mp hx).resolve_right hne)
  have hinv : Inv (s₁.setState s.next .running) := by
    refine updateState_inv ?_ (fun x hx => ?_) (hlisted rfl h.running) (hlisted rfl h.suspended)
      (hlisted rfl h.finished) (hlisted rfl h.zombie) (fun x hx hne => ?_) (fun x hx hne => ?_)
      ((hmem _).mpr (.inr rfl)) _
    · refine List.nodup_append.mpr ⟨h.nodup, List.nodup_singleton _, fun a ha b hb heq => ?_⟩
      rw [List.mem_singleton] at hb
      exact hnew (hb ▸ heq ▸ ha)
    · change x < s.next + 1
      rcases (hmem x).mp hx with hold | rfl
      · exact Nat.lt_succ_of_lt (h.fresh x hold)
      · exact Nat.lt_succ_self _
    · rw [hget, hget, if_neg hne, if_neg hne]
      exact h.once x (((hmem x).mp hx).resolve_right hne)
    · simp only [hget, if_neg hne]
      exact h.runs x (((hmem x).mp hx).resolve_right hne)
  refine ⟨hinv, rfl, fun x => ?_⟩
  change (s₁.setState s.next .running).life x = _
  simp only [Emulator.setState, Emulator.life, updateState_getState, updateState_ctx,
    normalize_finished, normalize_zombie, hctx, hget]
  by_cases hx : x = s.next
  · simp [hx]
  · simp [hx, Emulator.getState]

lemma Inv.next_memory {s : Emulator} (h : Inv s) (n : ℕ) : Inv { s with next_memory := n } :=
  ⟨h.nodup, h.fresh, ⟨h.running.nodup, h.running.mem, h.running.isIn⟩,
    ⟨h.suspended.nodup, h.suspended.mem, h.suspended.isIn⟩,
    ⟨h.finished.nodup, h.finished.mem, h.finished.isIn⟩,
    ⟨h.zombie.nodup, h.zombie.mem, h.zombie.isIn⟩, h.once, h.runs⟩

lemma loadProgram_born {s : Emulator} (h : Inv s) :
    Born s s.loadProgram ⟨false, false, none, none⟩ := by
  have hb := newContext_born h
  have hinv : Inv (s.newContext.setCtx s.next { s.newContext.ctx s.next with
      memory := s.newContext.next_memory }) := hb.inv.setCtx rfl rfl rfl rfl rfl
  refine ⟨hinv.next_memory _, hb.contexts, fun x => ?_⟩
  rw [← hb.life]
  by_cases hx : x = s.next
  · simp [Emulator.loadProgram, Emulator.life, Emulator.getState, Emulator.setCtx, hx]
  · simp [Emulator.loadProgram, Emulator.life, Emulator.getState, Emulator.setCtx, hx]

lemma clone_born {s : Emulator} (h : Inv s) (c : ℕ) (vm thread : Bool) :
    Born s (s.clone c vm thread) ⟨false, false, some c,
      if thread then some ((s.newContext.ctx c).group_parent.getD c) else none⟩ := by
  have hb := newContext_born h
  have hinv : Inv (s.newContext.setCtx s.next { s.newContext.ctx s.next with
      parent := some c
      group_parent := if thread then some ((s.newContext.ctx c).group_parent.getD c) else none
      memory := if vm then (s.newContext.ctx c).memory else s.newContext.next_memory }) :=
    hb.inv.setCtx rfl rfl rfl rfl rfl
  refine ⟨hinv.next_memory _, hb.contexts, fun x => ?_⟩
  have hlife := hb.life x
  by_cases hx : x = s.next
  · subst hx
    rw [if_pos rfl] at hlife ⊢
    have hfinished := congrArg Life.finished hlife
    have hzombie := congrArg Life.zombie hlife
    simp only [Emulator.life, Emulator.getState] at hfinished hzombie
    simp [Emulator.clone, Emulator.life, Emulator.getState, Emulator.setCtx, hfinished, hzombie]
  · rw [if_neg hx] at hlife ⊢
    rw [← hlife]
    simp [Emulator.clone, Emulator.life, Emulator.getState, Emulator.setCtx, hx]

structure Freed (s s' : Emulator) (c : ℕ) : Prop where
  inv : Inv s'
  contexts : s'.contexts = s.contexts.erase c
  life : ∀ x, s'.life x = s.life x

lemma freeContext_freed {s : Emulator} {c : ℕ} (h : Inv s) (hc : c ∈ s.contexts) :
    Freed s (s.freeContext c) c := by
  have hlists : (s.freeContext c).running = Emulator.updateList c s.running (s.ctx c).in_running
        false ∧
      (s.freeContext c).suspended = Emulator.updateList c s.suspended (s.ctx c).in_suspended
        false ∧
      (s.freeContext c).finished = Emulator.updateList c s.finished (s.ctx c).in_finished false ∧
      (s.freeContext c).zombie = Emulator.updateList c s.zombie (s.ctx c).in_zombie false := by
    simp [Emulator.freeContext, Emulator.updateRunningContexts, Emulator.updateZombieContexts,
      Emulator.updateFinishedContexts, Emulator.updateSuspendedContexts, Emulator.setCtx]
  have hctx : ∀ x, (s.freeContext c).ctx x = if x = c then { s.ctx c with
      in_running := false
      in_suspended := false
      in_finished := false
      in_zombie := false } else s.ctx x := by
    intro x
    by_cases hx : x = c
    · subst hx
      simp [Emulator.freeContext, Emulator.updateRunningContexts, Emulator.updateZombieContexts,
        Emulator.updateFinishedContexts, Emulator.updateSuspendedContexts, Emulator.setCtx]
    · simp [Emulator.freeContext, Emulator.updateRunningContexts, Emulator.updateZombieContexts,
        Emulator.updateFinishedContexts, Emulator.updateSuspendedContexts, Emulator.setCtx, hx]
  have hget : ∀ x flag, (s.freeContext c).getState x flag = s.getState x flag := by
    intro x flag
    rw [Emulator.getState, hctx]
    split
    · rename_i hx
      rw [hx]
      rfl
    · rfl
  have hmem : ∀ x, x ∈ (s.freeContext c).contexts ↔ x ≠ c ∧ x ∈ s.contexts := fun x =>
    h.nodup.mem_erase_iff
  have hlisted : ∀ {list : List ℕ} {isIn : Context → Bool} {flag : Flag},
      Listed s list isIn flag →
      Listed (s.freeContext c) (Emulator.updateList c list (isIn (s.ctx c)) false) isIn flag := by
    intro list isIn flag hl
    have hin : c ∈ list ↔ isIn (s.ctx c) = true := by
      rw [hl.isIn c hc, hl.mem c]
      exact and_iff_right hc
    obtain ⟨hnodup, hlmem⟩ := @mem_updateList c list (isIn (s.ctx c)) false hl.nodup hin
    refine ⟨hnodup, fun x => ?_, fun x hx => ?_⟩
    · rw [hlmem, hmem, hget, hl.mem]
      by_cases hx : x = c
      · simp [hx]
      · simp [hx]
    · obtain ⟨hne, hx⟩ := (hmem x).mp hx
      rw [hctx, if_neg hne, hget]
      exact hl.isIn x hx
  obtain ⟨hr, hs, hf, hz⟩ := hlists
  refine ⟨⟨h.nodup.erase c, fun x hx => h.fresh x ((hmem x).mp hx).2, ?_, ?_, ?_, ?_,
    fun x hx => ?_, fun x hx => ?_⟩, rfl, fun x => ?_⟩
  · rw [hr]
    exact hlisted h.running
  · rw [hs]
    exact hlisted h.suspended
  · rw [hf]
    exact hlisted h.finished
  · rw [hz]
    exact hlisted h.zombie
  · rw [hget, hget]
    exact h.once x ((hmem x).mp hx).2
  · simp only [hget]
    exact h.runs x ((hmem x).mp hx).2
  · simp only [Emulator.life, hget, hctx]
    split
    · rename_i hx
      rw [hx]
    · rfl

end Lives

def Emulator.Live (s : Emulator) (c : ℕ) : Prop :=
  c ∈ s.contexts ∧ s.getState c .finished = false ∧ s.getState c .zombie = false

/-- Nothing refers to a freed context, and every zombie has a live parent. -/
structure Links (s : Emulator) : Prop where
  parent : ∀ c ∈ s.contexts, ∀ p, (s.ctx c).parent = some p → p ∈ s.contexts
  group_parent : ∀ c ∈ s.contexts, ∀ g, (s.ctx c).group_parent = some g → g ∈ s.contexts
  zombie : ∀ c ∈ s.contexts, s.getState c .zombie = true →
    ∃ p, (s.ctx c).parent = some p ∧ s.Live p

def Emulator.InGroup (s : Emulator) (leader c : ℕ) : Prop :=
  (s.ctx c).group_parent = some leader ∨ c = leader

/-- What an operation has to meet so that the links stay sound: a context that finishes, alone
or with its group, leaves no zombie without a live parent, and nothing else refers to a context
that is freed. -/
def Meets (op : Op) (s : Emulator) : Prop :=
  match op with
  | .finish c _ => s.Live c → ∀ p, (s.ctx c).parent = some p → s.Live p
  | .finishGroup c =>
    let leader := (s.ctx c).group_parent.getD c
    s.Live leader →
      (∀ p, (s.ctx leader).parent = some p → s.Live p ∧ ¬ s.InGroup leader p) ∧
      ∀ z ∈ s.contexts, s.getState z .zombie = true → ¬ s.InGroup leader z →
        ∀ p, (s.ctx z).parent = some p → ¬ s.InGroup leader p
  | .free c => ∀ x ∈ s.contexts, x ≠ c →
      (s.ctx x).parent ≠ some c ∧ (s.ctx x).group_parent ≠ some c
  | _ => True

def Stays (s s' : Emulator) : Prop :=
  ∀ c ∈ s.contexts, c ∈ s'.contexts → s.getState c .finished = true →
    s'.getState c .finished = true

section Links

variable {s s' : Emulator} {c : ℕ}

lemma live_iff : s.Live c ↔
    c ∈ s.contexts ∧ (s.life c).finished = false ∧ (s.life c).zombie = false :=
  Iff.rfl

lemma Links.congr (h : Links s) (hcontexts : s'.contexts = s.contexts)
    (hlife : ∀ x, s'.life x = s.life x) : Links s' := by
  have hlive : ∀ x, s.Live x → s'.Live x := fun x hx => by
    rw [live_iff, hcontexts, hlife]
    exact hx
  refine ⟨fun x hx p hp => ?_, fun x hx g hg => ?_, fun x hx hz => ?_⟩
  · rw [hcontexts] at hx ⊢
    have hp' : (s'.life x).parent = some p := hp
    rw [hlife] at hp'
    exact h.parent x hx p hp'
  · rw [hcontexts] at hx ⊢
    have hg' : (s'.life x).group_parent = some g := hg
    rw [hlife] at hg'
    exact h.group_parent x hx g hg'
  · rw [hcontexts] at hx
    have hz' : (s'.life x).zombie = true := hz
    rw [hlife] at hz'
    obtain ⟨p, hp, hp'⟩ := h.zombie x hx hz'
    have hsame : (s'.life x).parent = (s.life x).parent := by rw [hlife]
    exact ⟨p, hsame.trans hp, hlive p hp'⟩

lemma Lives.stays {life : ℕ → Life} (h : Lives s s' life)
    (hfin : ∀ x ∈ s.contexts, (s.life x).finished = true → (life x).finished = true) :
    Stays s s' := by
  intro x hx _ hf
  have hf' := hfin x hx hf
  rw [← h.life] at hf'
  exact hf'

lemma Born.links {life : Life} (hb : Born s s' life) (h : Inv s) (hl : Links s)
    (hzombie : life.zombie = false)
    (hparent : ∀ p, life.parent = some p → p ∈ s.contexts)
    (hgroup : ∀ g, life.group_parent = some g → g ∈ s.contexts) : Links s' ∧ Stays s s' := by
  have hmem : ∀ x, x ∈ s'.contexts ↔ x ∈ s.contexts ∨ x = s.next := fun x => by
    simp [hb.contexts]
  have hold : ∀ x ∈ s.contexts, s'.life x = s.life x := by
    intro x hx
    have hne : x ≠ s.next := (h.fresh x hx).ne
    rw [hb.life, if_neg hne]
  have hnew : s'.life s.next = life := by rw [hb.life, if_pos rfl]
  have hsub : ∀ x, x ∈ s.contexts → x ∈ s'.contexts := fun x hx => (hmem x).mpr (.inl hx)
  refine ⟨⟨fun x hx p hp => ?_, fun x hx g hg => ?_, fun x hx hz => ?_⟩, fun x hx _ hf => ?_⟩
  · have hp' : (s'.life x).parent = some p := hp
    rcases (hmem x).mp hx with hx | rfl
    · rw [hold x hx] at hp'
      exact hsub p (hl.parent x hx p hp')
    · rw [hnew] at hp'
      exact hsub p (hparent p hp')
  · have hg' : (s'.life x).group_parent = some g := hg
    rcases (hmem x).mp hx with hx | rfl
    · rw [hold x hx] at hg'
      exact hsub g (hl.group_parent x hx g hg')
    · rw [hnew] at hg'
      exact hsub g (hgroup g hg')
  · have hz' : (s'.life x).zombie = true := hz
    rcases (hmem x).mp hx with hx | rfl
    · rw [hold x hx] at hz'
      obtain ⟨p, hp, hlive⟩ := hl.zombie x hx hz'
      have hsame : (s'.life x).parent = (s.life x).parent := by rw [hold x hx]
      refine ⟨p, hsame.trans hp, hsub p hlive.1, ?_⟩
      have hlife := hold p hlive.1
      exact ⟨(congrArg Life.finished hlife).trans hlive.2.1,
        (congrArg Life.zombie hlife).trans hlive.2.2⟩
    · rw [hnew, hzombie] at hz'
      cases hz'
  · have hf' : (s.life x).finished = true := hf
    rw [← hold x hx] at hf'
    exact hf'

lemma Life.orphan_parent {x p : ℕ} {life : Life} :
    (life.orphan x).parent = some p ↔ life.parent = some p ∧ p ≠ x := by
  unfold Life.orphan
  by_cases h : life.parent = some x
  · rw [if_pos h, h]
    simp only [reduceCtorEq, Option.some.injEq, false_iff, not_and, not_not]
    exact fun hp => hp.symm
  · rw [if_neg h]
    refine ⟨fun hp => ⟨hp, ?_⟩, And.left⟩
    rintro rfl
    exact h hp

lemma Life.orphan_group_parent {x : ℕ} {life : Life} :
    (life.orphan x).group_parent = life.group_parent := by
  unfold Life.orphan
  split <;> rfl

lemma Life.orphan_live {x : ℕ} {life : Life} :
    (life.orphan x).finished = false ∧ (life.orphan x).zombie = false ↔
      life.finished = false ∧ life.zombie = false := by
  unfold Life.orphan
  split
  · simp
  · rfl

lemma Life.orphan_zombie {x : ℕ} {life : Life} (h : (life.orphan x).zombie = true) :
    life.zombie = true ∧ life.parent ≠ some x := by
  unfold Life.orphan at h
  split at h
  · cases h
  · exact ⟨h, ‹_›⟩

lemma Life.finish_live {life : Life} :
    ¬ (life.finish.finished = false ∧ life.finish.zombie = false) := by
  unfold Life.finish
  cases life.parent <;> simp

lemma Life.finish_links {life : Life} :
    life.finish.parent = life.parent ∧ life.finish.group_parent = life.group_parent := by
  unfold Life.finish
  split <;> exact ⟨rfl, rfl⟩

/-- A context that finishes keeps the links sound exactly when its parent lives. -/
lemma finish_links {woken : List ℕ} (h : Inv s) (hl : Links s) (hc : s.Live c)
    (hwoken : woken.Nodup ∧ ∀ w ∈ woken, w ∈ s.contexts) :
    Stays s (s.finish c woken) ∧ (Links (s.finish c woken) ↔
      ∀ p, (s.ctx c).parent = some p → s.Live p) := by
  have hlives := finish_lives h hc.1 hwoken hc.2.1 hc.2.2
  set s' := s.finish c woken
  have hself : s'.life c = ((s.life c).orphan c).finish := by
    rw [hlives.life]
    simp [hc.1]
  have hother : ∀ x ∈ s.contexts, x ≠ c → s'.life x = (s.life x).orphan c := by
    intro x hx hne
    rw [hlives.life]
    simp [hx, hne]
  have hparent : ∀ x ∈ s.contexts, ∀ p, (s'.life x).parent = some p ↔
      (s.life x).parent = some p ∧ p ≠ c := by
    intro x hx p
    by_cases hxc : x = c
    · rw [hxc, hself, Life.finish_links.1, Life.orphan_parent]
    · rw [hother x hx hxc, Life.orphan_parent]
  have hgroup : ∀ x ∈ s.contexts, (s'.life x).group_parent = (s.life x).group_parent := by
    intro x hx
    by_cases hxc : x = c
    · rw [hxc, hself, Life.finish_links.2, Life.orphan_group_parent]
    · rw [hother x hx hxc, Life.orphan_group_parent]
  have hlive : ∀ x, s'.Live x ↔ s.Live x ∧ x ≠ c := by
    intro x
    rw [live_iff, live_iff, hlives.contexts]
    by_cases hx : x ∈ s.contexts
    · by_cases hxc : x = c
      · rw [hxc, hself]
        simp only [hc.1, true_and, ne_eq, not_true_eq_false, and_false, iff_false]
        exact Life.finish_live
      · rw [hother x hx hxc, Life.orphan_live]
        simp [hx, hxc]
    · simp [hx]
  refine ⟨hlives.stays fun x hx hf => ?_, fun hl' p hp => ?_, fun hmeets => ?_⟩
  · by_cases hxc : x = c
    · have hnot : (s.life c).finished = false := hc.2.1
      rw [hxc, hnot] at hf
      cases hf
    · have hx' := hother x hx hxc
      rw [hlives.life] at hx'
      rw [hx', Life.orphan]
      split
      · simp [hf]
      · exact hf
  · by_cases hpc : p = c
    · rw [hpc]
      exact hc
    · have hp' : ((s.life c).orphan c).parent = some p := Life.orphan_parent.mpr ⟨hp, hpc⟩
      have hzombie : s'.getState c .zombie = true := by
        change (s'.life c).zombie = true
        have hf : (s.life c).finished = false := hc.2.1
        have hz : (s.life c).zombie = false := hc.2.2
        have hor := (Life.orphan_live (x := c)).mpr ⟨hf, hz⟩
        rw [hself, Life.finish, hp']
        simp [hor.1, hor.2]
      have hc' : c ∈ s'.contexts := by
        rw [hlives.contexts]
        exact hc.1
      obtain ⟨q, hq, hq'⟩ := hl'.zombie c hc' hzombie
      have hqp : (s.life c).parent = some q := ((hparent c hc.1 q).mp hq).1
      have heq : some q = some p := hqp.symm.trans hp
      rw [Option.some.injEq] at heq
      rw [← heq]
      exact ((hlive q).mp hq').1
  · refine ⟨fun x hx p hp => ?_, fun x hx g hg => ?_, fun x hx hz => ?_⟩
    · rw [hlives.contexts] at hx ⊢
      exact hl.parent x hx p ((hparent x hx p).mp hp).1
    · rw [hlives.contexts] at hx ⊢
      exact hl.group_parent x hx g ((hgroup x hx).symm.trans hg)
    · rw [hlives.contexts] at hx
      by_cases hxc : x = c
      · have hz' : (s'.life c).zombie = true := hxc ▸ hz
        have hsome : ((s.life c).orphan c).parent.isSome = true := by
          rw [hself, Life.finish] at hz'
          by_contra hnone
          rw [if_neg hnone] at hz'
          cases hz'
        obtain ⟨p, hp⟩ := Option.isSome_iff_exists.mp hsome
        obtain ⟨hp, hpc⟩ := Life.orphan_parent.mp hp
        rw [hxc]
        exact ⟨p, (hparent c hc.1 p).mpr ⟨hp, hpc⟩, (hlive p).mpr ⟨hmeets p hp, hpc⟩⟩
      · have hz' : ((s.life x).orphan c).zombie = true := by
          rw [← hother x hx hxc]
          exact hz
        obtain ⟨hzx, hne⟩ := Life.orphan_zombie hz'
        obtain ⟨p, hp, hp'⟩ := hl.zombie x hx hzx
        have hpc : p ≠ c := by
          rintro rfl
          exact hne hp
        exact ⟨p, (hparent x hx p).mpr ⟨hp, hpc⟩, (hlive p).mpr ⟨hp', hpc⟩⟩

/-- A group that finishes keeps the links sound exactly when the parent of its leader and of
every zombie outside lives outside. -/
lemma finishLeader_links {leader : ℕ} (h : Inv s) (hl : Links s) (hc : s.Live leader) :
    Stays s (s.finishLeader leader) ∧ (Links (s.finishLeader leader) ↔
      (∀ p, (s.ctx leader).parent = some p → s.Live p ∧ ¬ s.InGroup leader p) ∧
      ∀ z ∈ s.contexts, s.getState z .zombie = true → ¬ s.InGroup leader z →
        ∀ p, (s.ctx z).parent = some p → ¬ s.InGroup leader p) := by
  have hlives := finishLeader_lives h hc.2.1 hc.2.2
  set s' := s.finishLeader leader
  have hself : s'.life leader = (s.life leader).finish := by
    rw [hlives.life, if_pos hc.1]
    simp [Life.member]
  have hout : ∀ x ∈ s.contexts, ¬ s.InGroup leader x → s'.life x = s.life x := by
    intro x hx hnot
    have hne : (s.life x).group_parent ≠ some leader ∧ x ≠ leader := not_or.mp hnot
    rw [hlives.life, if_pos hx, Life.member, if_pos hne]
  have hin : ∀ x ∈ s.contexts, s.InGroup leader x → x ≠ leader →
      s'.life x = { s.life x with
        finished := true
        zombie := false } := by
    intro x hx hgroup hne
    have hnot : ¬ ((s.life x).group_parent ≠ some leader ∧ x ≠ leader) :=
      fun hand => (not_or.mpr hand) hgroup
    rw [hlives.life, if_pos hx, Life.member, if_neg hnot, if_neg hne]
  have hlinks : ∀ x ∈ s.contexts, (s'.life x).parent = (s.life x).parent ∧
      (s'.life x).group_parent = (s.life x).group_parent := by
    intro x hx
    by_cases hgroup : s.InGroup leader x
    · by_cases hxl : x = leader
      · rw [hxl, hself]
        exact Life.finish_links
      · rw [hin x hx hgroup hxl]
        exact ⟨rfl, rfl⟩
    · rw [hout x hx hgroup]
      exact ⟨rfl, rfl⟩
  have hlive : ∀ x, s'.Live x ↔ s.Live x ∧ ¬ s.InGroup leader x := by
    intro x
    rw [live_iff, live_iff, hlives.contexts]
    by_cases hx : x ∈ s.contexts
    · by_cases hgroup : s.InGroup leader x
      · by_cases hxl : x = leader
        · rw [hxl, hself]
          simp only [hc.1, true_and, hxl ▸ hgroup, not_true_eq_false, and_false, iff_false]
          exact Life.finish_live
        · rw [hin x hx hgroup hxl]
          simp [hgroup]
      · rw [hout x hx hgroup]
        simp [hgroup]
    · simp [hx]
  refine ⟨hlives.stays fun x hx hf => ?_, fun hl' => ⟨fun p hp => ?_,
    fun z hz hzombie hnot p hp => ?_⟩, fun hmeets => ?_⟩
  · rw [if_pos hx, Life.member]
    split
    · exact hf
    · split
      · rename_i hxl
        have hnot : (s.life leader).finished = false := hc.2.1
        rw [hxl, hnot] at hf
        cases hf
      · rfl
  · have hzombie : s'.getState leader .zombie = true := by
      change (s'.life leader).zombie = true
      have hf : (s.life leader).finished = false := hc.2.1
      have hz : (s.life leader).zombie = false := hc.2.2
      have hp' : (s.life leader).parent = some p := hp
      rw [hself, Life.finish, hp']
      simp [hf, hz]
    have hmem : leader ∈ s'.contexts := by
      rw [hlives.contexts]
      exact hc.1
    obtain ⟨q, hq, hq'⟩ := hl'.zombie leader hmem hzombie
    have heq : some q = some p := hq.symm.trans ((hlinks leader hc.1).1.trans hp)
    rw [Option.some.injEq] at heq
    rw [← heq]
    exact (hlive q).mp hq'
  · have hzombie' : s'.getState z .zombie = true := by
      change (s'.life z).zombie = true
      rw [hout z hz hnot]
      exact hzombie
    have hmem : z ∈ s'.contexts := by
      rw [hlives.contexts]
      exact hz
    obtain ⟨q, hq, hq'⟩ := hl'.zombie z hmem hzombie'
    have heq : some q = some p := hq.symm.trans ((hlinks z hz).1.trans hp)
    rw [Option.some.injEq] at heq
    rw [← heq]
    exact ((hlive q).mp hq').2
  · refine ⟨fun x hx p hp => ?_, fun x hx g hg => ?_, fun x hx hz => ?_⟩
    · rw [hlives.contexts] at hx ⊢
      exact hl.parent x hx p ((hlinks x hx).1.symm.trans hp)
    · rw [hlives.contexts] at hx ⊢
      exact hl.group_parent x hx g ((hlinks x hx).2.symm.trans hg)
    · rw [hlives.contexts] at hx
      have hz' : (s'.life x).zombie = true := hz
      by_cases hgroup : s.InGroup leader x
      · by_cases hxl : x = leader
        · rw [hxl, hself, Life.finish] at hz'
          have hsome : (s.life leader).parent.isSome = true := by
            by_contra hnone
            rw [if_neg hnone] at hz'
            cases hz'
          obtain ⟨p, hp⟩ := Option.isSome_iff_exists.mp hsome
          rw [hxl]
          exact ⟨p, (hlinks leader hc.1).1.trans hp, (hlive p).mpr (hmeets.1 p hp)⟩
        · rw [hin x hx hgroup hxl] at hz'
          cases hz'
      · rw [hout x hx hgroup] at hz'
        obtain ⟨p, hp, hp'⟩ := hl.zombie x hx hz'
        exact ⟨p, (hlinks x hx).1.trans hp,
          (hlive p).mpr ⟨hp', hmeets.2 x hx hz' hgroup p hp⟩⟩

lemma reap_links {z : ℕ} (h : Inv s) (hl : Links s) (hz : z ∈ s.contexts)
    (hzombie : s.getState z .zombie = true) :
    Links (s.setState z .finished) ∧ Stays s (s.setState z .finished) := by
  have hlives := h.setFinished_lives hz
  set s' := s.setState z .finished
  have hlinks : ∀ x, (s'.life x).parent = (s.life x).parent ∧
      (s'.life x).group_parent = (s.life x).group_parent := by
    intro x
    rw [hlives.life]
    split
    · rename_i hx
      rw [hx]
      exact ⟨rfl, rfl⟩
    · exact ⟨rfl, rfl⟩
  refine ⟨⟨fun x hx p hp => ?_, fun x hx g hg => ?_, fun x hx hz' => ?_⟩,
    hlives.stays fun x _ hf => ?_⟩
  · exact hl.parent x hx p ((hlinks x).1.symm.trans hp)
  · exact hl.group_parent x hx g ((hlinks x).2.symm.trans hg)
  · have hz'' : (s'.life x).zombie = true := hz'
    rw [hlives.life] at hz''
    split at hz''
    · cases hz''
    · obtain ⟨p, hp, hp'⟩ := hl.zombie x hx hz''
      have hpz : p ≠ z := by
        rintro rfl
        rw [hp'.2.2] at hzombie
        cases hzombie
      have hlife : s'.life p = s.life p := by rw [hlives.life, if_neg hpz]
      refine ⟨p, (hlinks x).1.trans hp, hp'.1, ?_⟩
      exact ⟨(congrArg Life.finished hlife).trans hp'.2.1,
        (congrArg Life.zombie hlife).trans hp'.2.2⟩
  · split
    · rfl
    · exact hf

lemma freeContext_links (h : Inv s) (hl : Links s) (hc : c ∈ s.contexts)
    (hf : s.getState c .finished = true) :
    Stays s (s.freeContext c) ∧ (Links (s.freeContext c) ↔ ∀ x ∈ s.contexts, x ≠ c →
      (s.ctx x).parent ≠ some c ∧ (s.ctx x).group_parent ≠ some c) := by
  have hfreed := freeContext_freed h hc
  set s' := s.freeContext c
  have hmem : ∀ x, x ∈ s'.contexts ↔ x ≠ c ∧ x ∈ s.contexts := fun x => by
    rw [hfreed.contexts]
    exact h.nodup.mem_erase_iff
  have hgone : c ∉ s'.contexts := fun hin => ((hmem c).mp hin).1 rfl
  have hparent : ∀ x, (s'.ctx x).parent = (s.ctx x).parent := fun x =>
    congrArg Life.parent (hfreed.life x)
  have hgroup : ∀ x, (s'.ctx x).group_parent = (s.ctx x).group_parent := fun x =>
    congrArg Life.group_parent (hfreed.life x)
  refine ⟨fun x _ _ hfin => (congrArg Life.finished (hfreed.life x)).trans hfin,
    fun hl' x hx hne => ⟨fun hp => ?_, fun hg => ?_⟩, fun hmeets => ?_⟩
  · exact hgone (hl'.parent x ((hmem x).mpr ⟨hne, hx⟩) c ((hparent x).trans hp))
  · exact hgone (hl'.group_parent x ((hmem x).mpr ⟨hne, hx⟩) c ((hgroup x).trans hg))
  · refine ⟨fun x hx p hp => ?_, fun x hx g hg => ?_, fun x hx hz => ?_⟩
    · obtain ⟨hne, hx'⟩ := (hmem x).mp hx
      rw [hparent] at hp
      refine (hmem p).mpr ⟨fun hpc => ?_, hl.parent x hx' p hp⟩
      exact (hmeets x hx' hne).1 (hpc ▸ hp)
    · obtain ⟨hne, hx'⟩ := (hmem x).mp hx
      rw [hgroup] at hg
      refine (hmem g).mpr ⟨fun hgc => ?_, hl.group_parent x hx' g hg⟩
      exact (hmeets x hx' hne).2 (hgc ▸ hg)
    · obtain ⟨hne, hx⟩ := (hmem x).mp hx
      obtain ⟨p, hp, hp'⟩ := hl.zombie x hx ((congrArg Life.zombie (hfreed.life x)).symm.trans hz)
      have hpc : p ≠ c := by
        rintro rfl
        rw [hp'.2.1] at hf
        cases hf
      refine ⟨p, (hparent x).trans hp, (hmem p).mpr ⟨hpc, hp'.1⟩, ?_, ?_⟩
      · exact (congrArg Life.finished (hfreed.life p)).trans hp'.2.1
      · exact (congrArg Life.zombie (hfreed.life p)).trans hp'.2.2

end Links

/-- What holds of the contexts in a sound state: the lists have the contexts with their flags,
a context runs when nothing stops it, and the links are sound. -/
structure Sound (s : Emulator) : Prop where
  running : ∀ c, c ∈ s.running ↔ c ∈ s.contexts ∧ s.getState c .running = true
  suspended : ∀ c, c ∈ s.suspended ↔ c ∈ s.contexts ∧ s.getState c .suspended = true
  finished : ∀ c, c ∈ s.finished ↔ c ∈ s.contexts ∧ s.getState c .finished = true
  zombie : ∀ c, c ∈ s.zombie ↔ c ∈ s.contexts ∧ s.getState c .zombie = true
  runs : ∀ c ∈ s.contexts, s.getState c .running = true ↔ s.getState c .suspended = false ∧
    s.getState c .finished = false ∧ s.getState c .zombie = false ∧ s.getState c .locked = false
  links : Links s

lemma Inv.sound_iff {s : Emulator} (h : Inv s) : Sound s ↔ Links s := by
  refine ⟨Sound.links, fun hl => ⟨h.running.mem, h.suspended.mem, h.finished.mem, h.zombie.mem,
    fun c hc => ?_, hl⟩⟩
  rw [h.runs c hc]
  simp [and_assoc]

lemma empty_inv : Inv Emulator.empty := by
  constructor <;> try constructor
  all_goals simp [Emulator.empty]

lemma empty_links : Links Emulator.empty := by
  constructor <;> simp [Emulator.empty]

/-- What one operation keeps: the lists always, the links exactly when it meets its condition -/
lemma step_spec {op : Op} {s s' : Emulator} (h : Inv s) (hl : Links s) (hs : step op s = some s') :
    Inv s' ∧ Stays s s' ∧ (Links s' ↔ Meets op s) := by
  cases op with
  | load =>
    rw [step, Option.some.injEq] at hs
    subst hs
    have hb := loadProgram_born h
    obtain ⟨hlinks, hstays⟩ := hb.links h hl rfl (by simp) (by simp)
    exact ⟨hb.inv, hstays, iff_of_true hlinks trivial⟩
  | clone c vm thread =>
    simp only [step, Option.ite_none_right_eq_some, Option.some.injEq] at hs
    obtain ⟨⟨hc, -⟩, rfl⟩ := hs
    have hb := clone_born h c vm thread
    have hsame : (s.newContext.ctx c).group_parent = (s.ctx c).group_parent := by
      have hlife := (newContext_born h).life c
      rw [if_neg (h.fresh c hc).ne] at hlife
      exact congrArg Life.group_parent hlife
    have hgroup : ∀ g, (if thread then some ((s.newContext.ctx c).group_parent.getD c) else none) =
        some g → g ∈ s.contexts := by
      intro g hg
      rw [hsame] at hg
      cases thread with
      | false => cases hg
      | true =>
        rw [if_pos rfl, Option.some.injEq] at hg
        cases hgroup : (s.ctx c).group_parent with
        | none =>
          rw [hgroup, Option.getD_none] at hg
          rw [← hg]
          exact hc
        | some leader =>
          rw [hgroup, Option.getD_some] at hg
          rw [← hg]
          exact hl.group_parent c hc leader hgroup
    have hparent : ∀ p, some c = some p → p ∈ s.contexts := by
      intro p hp
      rw [Option.some.injEq] at hp
      rw [← hp]
      exact hc
    obtain ⟨hlinks, hstays⟩ := hb.links h hl rfl hparent hgroup
    exact ⟨hb.inv, hstays, iff_of_true hlinks trivial⟩
  | setFlag c flag =>
    simp only [step, Option.ite_none_right_eq_some, Option.some.injEq] at hs
    obtain ⟨⟨hc, hflag⟩, rfl⟩ := hs
    have hlives := h.flag_lives hc flag true hflag
    exact ⟨hlives.inv, hlives.stays fun _ _ hf => hf,
      iff_of_true (hl.congr hlives.contexts hlives.life) trivial⟩
  | clearFlag c flag =>
    simp only [step, Option.ite_none_right_eq_some, Option.some.injEq] at hs
    obtain ⟨⟨hc, hflag⟩, rfl⟩ := hs
    have hlives := h.flag_lives hc flag false hflag
    exact ⟨hlives.inv, hlives.stays fun _ _ hf => hf,
      iff_of_true (hl.congr hlives.contexts hlives.life) trivial⟩
  | finish c woken =>
    simp only [step, Option.ite_none_right_eq_some, Option.some.injEq] at hs
    obtain ⟨⟨hc, hwoken⟩, rfl⟩ := hs
    by_cases hlive : s.Live c
    · obtain ⟨hstays, hlinks⟩ := finish_links h hl hlive hwoken
      refine ⟨(finish_lives h hc hwoken hlive.2.1 hlive.2.2).inv, hstays, ?_⟩
      rw [hlinks, Meets]
      exact ⟨fun hp _ => hp, fun hp => hp hlive⟩
    · have hdone : s.getState c .finished || s.getState c .zombie := by
        rw [Emulator.Live] at hlive
        cases hf : s.getState c .finished <;> cases hz : s.getState c .zombie <;> simp_all
      rw [Emulator.finish, if_pos hdone]
      exact ⟨h, fun _ _ _ hf => hf, iff_of_true hl fun hlive' => absurd hlive' hlive⟩
  | finishGroup c =>
    have hleader : s' = s.finishLeader ((s.ctx c).group_parent.getD c) ∧
        (s.ctx c).group_parent.getD c ∈ s.contexts := by
      simp only [step, Option.ite_none_right_eq_some] at hs
      obtain ⟨hc, hs⟩ := hs
      cases hgroup : (s.ctx c).group_parent with
      | none =>
        simp only [hgroup, Option.some.injEq] at hs
        exact ⟨hs.symm, hc⟩
      | some leader =>
        simp only [hgroup, Option.ite_none_right_eq_some, Option.some.injEq] at hs
        exact ⟨hs.2.symm, hs.1.1⟩
    obtain ⟨rfl, hmem⟩ := hleader
    rw [Meets]
    set leader := (s.ctx c).group_parent.getD c
    by_cases hlive : s.Live leader
    · obtain ⟨hstays, hlinks⟩ := finishLeader_links h hl hlive
      refine ⟨(finishLeader_lives h hlive.2.1 hlive.2.2).inv, hstays, ?_⟩
      rw [hlinks]
      exact ⟨fun hp _ => hp, fun hp => hp hlive⟩
    · have hdone : s.getState leader .finished || s.getState leader .zombie := by
        rw [Emulator.Live] at hlive
        cases hf : s.getState leader .finished <;> cases hz : s.getState leader .zombie <;>
          simp_all
      rw [Emulator.finishLeader, if_pos hdone]
      exact ⟨h, fun _ _ _ hf => hf, iff_of_true hl fun hlive' => absurd hlive' hlive⟩
  | waitpid c pid =>
    simp only [step, Option.ite_none_right_eq_some] at hs
    obtain ⟨-, hs⟩ := hs
    cases hz : s.getZombie c pid with
    | none =>
      simp only [hz, Option.some.injEq] at hs
      subst hs
      exact ⟨h, fun _ _ _ hf => hf, iff_of_true hl trivial⟩
    | some z =>
      simp only [hz, Option.some.injEq] at hs
      subst hs
      obtain ⟨hmem, hzombie⟩ := (h.zombie.mem z).mp (List.mem_of_find?_eq_some hz)
      obtain ⟨hlinks, hstays⟩ := reap_links h hl hmem hzombie
      exact ⟨(h.setFinished_lives hmem).inv, hstays, iff_of_true hlinks trivial⟩
  | free c =>
    simp only [step, Option.ite_none_right_eq_some, Option.some.injEq] at hs
    obtain ⟨⟨hc, hf⟩, rfl⟩ := hs
    obtain ⟨hstays, hlinks⟩ := freeContext_links h hl hc hf
    exact ⟨(freeContext_freed h hc).inv, hstays, hlinks⟩

/-- Every state that a run reaches is sound and no step takes a context out of the finished
state. -/
def SoundRun (ops : List Op) (s : Emulator) : Prop :=
  Sound s ∧ Along step (fun op s => ∀ s', step op s = some s' → Sound s' ∧ Stays s s') ops s

lemma along_sound_iff (ops : List Op) {s : Emulator} (h : Inv s) (hl : Links s) :
    Along step (fun op s => ∀ s', step op s = some s' → Sound s' ∧ Stays s s') ops s ↔
      Along step (fun op s => (step op s).isSome → Meets op s) ops s := by
  induction ops generalizing s with
  | nil => exact Iff.rfl
  | cons op ops ih =>
    rw [Along, Along]
    cases hs : step op s with
    | none => simp
    | some s' =>
      obtain ⟨hinv, hstays, hlinks⟩ := step_spec h hl hs
      have hhead : (∀ t, some s' = some t → Sound t ∧ Stays s t) ↔ Meets op s := by
        rw [← hlinks, ← hinv.sound_iff]
        refine ⟨fun hall => (hall s' rfl).1, fun hsound t ht => ?_⟩
        rw [Option.some.injEq] at ht
        rw [← ht]
        exact ⟨hsound, hstays⟩
      rw [hhead, Option.elim_some, Option.elim_some]
      simp only [Option.isSome_some, forall_const]
      refine and_congr_right fun hmeets => ?_
      exact ih hinv (hlinks.mpr hmeets)

/-- The states of a run are sound exactly as long as its operations meet their conditions. -/
theorem soundRun_iff (ops : List Op) : SoundRun ops .empty ↔
    Along step (fun op s => (step op s).isSome → Meets op s) ops .empty := by
  rw [SoundRun, along_sound_iff ops empty_inv empty_links]
  exact and_iff_right (empty_inv.sound_iff.mpr empty_links)

/-- The thread outlives the leader of its group. -/
theorem soundRun_leader_freed : ¬ ∀ ops, SoundRun ops .empty := by
  intro hall
  have hrun := (along_sound_iff [.load, .clone 1 true true, .finish 1 [], .free 1]
    empty_inv empty_links).mp (hall _).2
  obtain ⟨-, -, -, hfree, -⟩ := hrun
  have hmeets := hfree (by decide +kernel)
  exact (hmeets 2 (by decide +kernel) (by decide)).2 (by decide +kernel)

end OISA.X86.Contexts
