import OISA.Proofs.FutexWaiters
import OISA.Proofs.SpeculativeIsolation
import OISA.X86.Speculation

/-!
# The wrong path leaves no trace

What a context executes in speculative mode changes its registers and the speculative memory,
which the recovery throws away.
-/

namespace OISA.X86.Speculation

open OISA.Lib OISA.X86.Contexts

section Accesses

variable {m : Memory} {s : SpecMem}

lemma accessPage_memory (page : SpecMem.Page) (access : Memory.AccessType) (a : Word)
    (buffer : List UInt8) : (s.accessPage page access a buffer).state.memory = s.memory := by
  unfold SpecMem.accessPage
  dsimp only
  split
  · rfl
  · cases access <;> rfl

lemma write_memory (s : SpecMem) (a : Word) (buffer : List UInt8) :
    (s.Write a buffer).state.memory = s.memory := by
  refine transfer_invariant (P := fun t : SpecMem => t.memory = s.memory) (fun a buffer t ht => ?_)
    buffer rfl
  unfold SpecMem.AccessAligned
  split
  · exact (accessPage_memory _ _ _ _).trans ht
  · dsimp only
    split
    · exact ht
    · have hpage := (SpecMem.newPage_eq t a).2
      split
      · rw [hpage] at *
        exact (accessPage_memory _ _ _ _).trans ht
      · dsimp only
        rw [hpage]
        exact ht

lemma getBuffer_view {m' : Memory} {a : Word} {size : ℕ} {access : Memory.AccessType}
    {buffer : Option (List UInt8)} (h : getBuffer m a size access = some (buffer, m')) :
    m'.view = m.view ∧ m'.safe = m.safe := by
  unfold getBuffer at h
  dsimp only at h
  split at h
  · simp only [Option.some.injEq, Prod.mk.injEq] at h
    rw [← h.2]
    exact ⟨rfl, rfl⟩
  · split at h
    · simp only [Option.some.injEq, Prod.mk.injEq] at h
      rw [← h.2]
      exact ⟨rfl, rfl⟩
    · rename_i page hget
      split at h
      · cases h
      · simp only [Option.some.injEq, Prod.mk.injEq] at h
        rw [← h.2]
        refine ⟨?_, rfl⟩
        funext b
        rw [Memory.view_setPage]
        split
        · rename_i htag
          rw [Memory.view, Memory.getPage_of_tag htag, hget]
          rfl
        · rfl

lemma fetchBuffer_view {m' : Memory} {safe_mode : Bool} {eip : Word} {buffer : List UInt8}
    (h : fetchBuffer safe_mode m true eip = some (buffer, m')) : m'.view = m.view := by
  unfold fetchBuffer at h
  split at h
  · cases h
  · rename_i m₁ hget
    simp only [Option.some.injEq, Prod.mk.injEq] at h
    rw [← h.2]
    exact (getBuffer_view hget).1
  · rename_i m₁ hget
    rw [SpecMem.unsafe_access (m := { m₁ with safe := false }) rfl (.inr rfl)] at h
    simp only [Option.some.injEq, Prod.mk.injEq] at h
    rw [← h.2]
    exact (getBuffer_view hget).1

end Accesses

structure Isolated {R : Type} (c c' : Context R) : Prop where
  state : c'.state = c.state
  backup : c'.backup_regs = c.backup_regs
  view : c'.memory.view = c.memory.view

section Steps

variable {R : Type} {syscall : Context R → Option (Context R)} {c c' c₀ : Context R}

lemma Isolated.refl (c : Context R) : Isolated c c := ⟨rfl, rfl, rfl⟩

lemma Isolated.trans {c'' : Context R} (h : Isolated c c') (h' : Isolated c' c'') :
    Isolated c c'' :=
  ⟨h'.state.trans h.state, h'.backup.trans h.backup, h'.view.trans h.view⟩

lemma executeInst_isolated {inst : Inst R} (hspec : c.state .specMode = true)
    (h : executeInst syscall inst c = some c') : Isolated c c' := by
  induction inst generalizing c with
  | done regs =>
    simp only [executeInst, Option.some.injEq] at h
    rw [← h]
    exact ⟨rfl, rfl, rfl⟩
  | throws regs =>
    simp only [executeInst, hspec, if_true, Option.some.injEq] at h
    rw [← h]
    exact ⟨rfl, rfl, rfl⟩
  | memoryRead address size next ih =>
    simp only [executeInst, hspec, if_true, SpecMem.read_spec] at h
    exact ih _ hspec h
  | memoryWrite address buffer next ih =>
    simp only [executeInst, hspec, if_true] at h
    split at h
    · cases h
    · have hwrite : Isolated c { c with spec_mem := (c.spec_mem.Write address buffer).state } :=
        ⟨rfl, rfl, congrArg Memory.view (write_memory c.spec_mem address buffer)⟩
      exact hwrite.trans (ih hspec h)
  | int80 next ih =>
    simp only [executeInst, hspec, if_true] at h
    exact ih hspec h

lemma execute_isolated {safe_mode : Bool} {decode : List UInt8 → Regs R → Inst R}
    (hspec : c.state .specMode = true)
    (h : execute syscall safe_mode decode c = some c') : Isolated c c' := by
  unfold execute at h
  rw [hspec] at h
  split at h
  · cases h
  · rename_i buffer m hfetch
    have hset : Isolated c (c.setMemory m) := ⟨rfl, rfl, fetchBuffer_view hfetch⟩
    exact hset.trans (executeInst_isolated hspec h)

lemma setEip_isolated (hspec : c.state .specMode = true) (eip : Word) :
    Isolated c (c.setEip eip) := by
  unfold Context.setEip
  have hnot : ¬ (c.regs.eip ≠ eip ∧ ¬ c.state .specMode) := fun h => h.2 hspec
  rw [if_neg hnot]
  exact ⟨rfl, rfl, rfl⟩

/-- The event starts a signal handler. -/
def Takes (event : Event) (c : Context R) : Prop :=
  match event with
  | .processEvents force => force = true ∧ c.state .running = true ∧ c.state .handler = false ∧
      ∃ sig, c.pendingSignal = some sig ∧ c.handler sig ≠ 0
  | _ => False

lemma runSignalHandler_taken {fuel sig : ℕ} (hhandler : c.handler sig ≠ 0)
    (h : runSignalHandler fuel c sig = some c') :
    c'.state = normalize (Function.update c.state .handler true) := by
  unfold runSignalHandler at h
  rw [if_neg fun hand => hhandler hand.2] at h
  simp only [Option.bind_eq_bind, Option.bind_eq_some_iff, Option.pure_def, Option.some.injEq,
    Option.guard_eq_some'] at h
  obtain ⟨-, -, -, -, -, -, -, -, -, -, -, -, rfl⟩ := h
  rfl

lemma runSignalHandler_ignored {fuel sig : ℕ} (hhandler : c.handler sig = 0)
    (h : runSignalHandler fuel c sig = some c') : sig = SIGCHLD ∧ c' = c := by
  unfold runSignalHandler at h
  split at h
  · rename_i hchild
    exact ⟨hchild.1, (Option.some.inj h).symm⟩
  · exfalso
    simp only [Option.bind_eq_bind, Option.bind_eq_some_iff, Option.pure_def,
      Option.guard_eq_some'] at h
    obtain ⟨_, _, _, _, _, _, _, _, _, _, _, hne, _⟩ := h
    exact hne hhandler

lemma step_isolated {fuel : ℕ} {safe_mode : Bool} {decode : List UInt8 → Regs R → Inst R}
    {event : Event} (hspec : c.state .specMode = true) (hnot : ¬ Takes event c)
    (h : step syscall fuel safe_mode decode event c = some c') : Isolated c c' := by
  cases event with
  | execute => exact execute_isolated hspec h
  | setEip eip =>
    rw [step, Option.some.injEq] at h
    rw [← h]
    exact setEip_isolated hspec eip
  | signal sig =>
    rw [step] at h
    split at h
    · rw [← Option.some.inj h]
      exact ⟨rfl, rfl, rfl⟩
    · rw [← Option.some.inj h]
      exact .refl c
  | processEvents force =>
    rw [step, processEvents] at h
    split at h
    · rename_i hforce
      rw [Bool.and_eq_true] at hforce
      unfold checkSignalHandler at h
      split at h
      · rw [← Option.some.inj h]
        exact .refl c
      · rename_i hhandler
        rw [Bool.not_eq_true] at hhandler
        split at h
        · rw [← Option.some.inj h]
          exact .refl c
        · rename_i sig hsig
          obtain ⟨c₁, hrun, rfl⟩ := Option.map_eq_some_iff.mp h
          have hzero : c.handler sig = 0 := by
            by_contra hne
            exact hnot ⟨hforce.1, hforce.2, hhandler, sig, hsig, hne⟩
          rw [(runSignalHandler_ignored hzero hrun).2]
          exact ⟨rfl, rfl, rfl⟩
    · rw [← Option.some.inj h]
      exact .refl c

/-- A context in speculative mode that runs a signal handler -/
structure InHandler (c : Context R) : Prop where
  specMode : c.state .specMode = true
  handler : c.state .handler = true
  finished : c.state .finished = false
  zombie : c.state .zombie = false

lemma step_taken {fuel : ℕ} {safe_mode : Bool} {decode : List UInt8 → Regs R → Inst R}
    {event : Event} (hspec : c.state .specMode = true) (hfin : c.state .finished = false)
    (hzom : c.state .zombie = false) (htakes : Takes event c)
    (h : step syscall fuel safe_mode decode event c = some c') : InHandler c' := by
  cases event with
  | execute => exact htakes.elim
  | setEip eip => exact htakes.elim
  | signal sig => exact htakes.elim
  | processEvents force =>
    obtain ⟨hforce, hrun, hhandler, sig, hsig, hne⟩ := htakes
    rw [step, processEvents, hforce, hrun] at h
    simp only [Bool.and_self, if_true] at h
    unfold checkSignalHandler at h
    rw [if_neg (by simp [hhandler]), hsig] at h
    obtain ⟨c₁, hrun, rfl⟩ := Option.map_eq_some_iff.mp h
    have hstate := runSignalHandler_taken hne hrun
    have hget : ∀ flag, flag ≠ .running →
        c₁.state flag = Function.update c.state .handler true flag := by
      intro flag hr
      rw [hstate]
      refine normalize_of_alive hr ?_ ?_
      · rw [Function.update_of_ne (by decide)]
        exact hfin
      · rw [Function.update_of_ne (by decide)]
        exact hzom
    refine ⟨?_, ?_, ?_, ?_⟩
    · change c₁.state .specMode = true
      rw [hget _ (by decide), Function.update_of_ne (by decide)]
      exact hspec
    · change c₁.state .handler = true
      rw [hget _ (by decide)]
      simp
    · change c₁.state .finished = false
      rw [hget _ (by decide), Function.update_of_ne (by decide)]
      exact hfin
    · change c₁.state .zombie = false
      rw [hget _ (by decide), Function.update_of_ne (by decide)]
      exact hzom

lemma InHandler.step {fuel : ℕ} {safe_mode : Bool} {decode : List UInt8 → Regs R → Inst R}
    {event : Event} (hin : InHandler c)
    (h : step syscall fuel safe_mode decode event c = some c') : InHandler c' := by
  have hnot : ¬ Takes event c := by
    intro htakes
    cases event with
    | processEvents force =>
      have hhandler := htakes.2.2.1
      rw [hin.handler] at hhandler
      cases hhandler
    | execute => exact htakes
    | setEip eip => exact htakes
    | signal sig => exact htakes
  have hstate := (step_isolated hin.specMode hnot h).state
  exact ⟨by rw [hstate]; exact hin.specMode, by rw [hstate]; exact hin.handler,
    by rw [hstate]; exact hin.finished, by rw [hstate]; exact hin.zombie⟩

end Steps

/-- The context is as it was: its registers, what its memory contains and where it is mapped, and
its flags. -/
structure Restored {R : Type} (c₀ c : Context R) : Prop where
  regs : c.regs = c₀.regs
  memory : c.memory.view = c₀.memory.view
  state : c.state = c₀.state

structure WrongPath {R : Type} (c₀ c : Context R) : Prop where
  backup : c.backup_regs = c₀.regs
  view : c.memory.view = c₀.memory.view
  specMode : c.state .specMode = true
  state : ∀ flag, flag ≠ .specMode → c.state flag = c₀.state flag

section Runs

variable {R : Type} {syscall : Context R → Option (Context R)} {c c' c₀ : Context R}

/-- A running context: its flags are what `UpdateState` stores, it runs, and it is not in
speculative mode. -/
structure OnRightPath (c : Context R) : Prop where
  normal : normalize c.state = c.state
  running : c.state .running = true
  specMode : c.state .specMode = false

lemma OnRightPath.alive (h : OnRightPath c) :
    c.state .finished = false ∧ c.state .zombie = false := by
  have hrun := normalize_running c.state
  rw [h.normal, h.running] at hrun
  simp only [Bool.true_eq, Bool.and_eq_true, Bool.not_eq_true'] at hrun
  exact ⟨hrun.1.1.2, hrun.1.2⟩

lemma setEip_wrongPath (h : OnRightPath c) {eip : Word} (heip : c.regs.eip ≠ eip) :
    WrongPath c (c.setEip eip) := by
  obtain ⟨hfin, hzom⟩ := h.alive
  have hspec := h.specMode
  have hcond : c.regs.eip ≠ eip ∧ ¬ c.state .specMode = true := ⟨heip, by rw [hspec]; simp⟩
  have hfin' : Function.update c.state .specMode true .finished = false := by
    rw [Function.update_of_ne (by decide)]
    exact hfin
  have hzom' : Function.update c.state .specMode true .zombie = false := by
    rw [Function.update_of_ne (by decide)]
    exact hzom
  have hstate : (c.setEip eip).state = normalize (Function.update c.state .specMode true) := by
    unfold Context.setEip
    rw [if_pos hcond]
    rfl
  unfold Context.setEip at hstate ⊢
  rw [if_pos hcond] at hstate ⊢
  refine ⟨rfl, rfl, ?_, fun flag hflag => ?_⟩
  · rw [hstate, normalize_of_alive (by decide) hfin' hzom']
    simp
  · rw [hstate]
    by_cases hr : flag = .running
    · have hall : ∀ f, f ≠ .running → f ≠ .specMode →
          normalize (Function.update c.state .specMode true) f = normalize c.state f := by
        intro f hf hs
        rw [normalize_of_alive hf hfin' hzom', h.normal, Function.update_of_ne hs]
      rw [hr, normalize_running, hall _ (by decide) (by decide), hall _ (by decide) (by decide),
        hall _ (by decide) (by decide), hall _ (by decide) (by decide), ← normalize_running,
        h.normal]
    · rw [normalize_of_alive hr hfin' hzom', Function.update_of_ne hflag]

lemma WrongPath.isolated (h : WrongPath c₀ c) (hi : Isolated c c') : WrongPath c₀ c' :=
  ⟨hi.backup.trans h.backup, hi.view.trans h.view, by rw [hi.state]; exact h.specMode,
    fun flag hflag => by rw [hi.state]; exact h.state flag hflag⟩

lemma WrongPath.recover (h₀ : OnRightPath c₀) (h : WrongPath c₀ c) : Restored c₀ c.recover := by
  refine ⟨h.backup, h.view, ?_⟩
  have hclear : Function.update c.state .specMode false = c₀.state := by
    funext flag
    by_cases hflag : flag = .specMode
    · rw [hflag, h₀.specMode]
      simp
    · rw [Function.update_of_ne hflag]
      exact h.state flag hflag
  change normalize (Function.update c.state .specMode false) = c₀.state
  rw [hclear]
  exact h₀.normal

lemma InHandler.recover (hin : InHandler c) : c.recover.state .handler = true := by
  change normalize (Function.update c.state .specMode false) .handler = true
  rw [normalize_of_alive (by decide)]
  · rw [Function.update_of_ne (by decide)]
    exact hin.handler
  · rw [Function.update_of_ne (by decide)]
    exact hin.finished
  · rw [Function.update_of_ne (by decide)]
    exact hin.zombie

lemma run_inHandler {fuel : ℕ} {safe_mode : Bool} {decode : List UInt8 → Regs R → Inst R}
    {events : List Event} (hin : InHandler c)
    (h : run (step syscall fuel safe_mode decode) events c = some c') : InHandler c' :=
  run_invariant (P := fun _ _ => True) (fun _ _ _ hin _ hs => InHandler.step hin hs) hin
    (along_of_forall (fun _ _ => trivial) events c) h

lemma run_restored_iff (h₀ : OnRightPath c₀) {fuel : ℕ} {safe_mode : Bool}
    {decode : List UInt8 → Regs R → Inst R} {events : List Event} (hwrong : WrongPath c₀ c)
    (h : run (step syscall fuel safe_mode decode) events c = some c') :
    Restored c₀ c'.recover ↔
      Along (step syscall fuel safe_mode decode) (fun event c => ¬ Takes event c) events c := by
  induction events generalizing c with
  | nil =>
    rw [run_nil, Option.some.injEq] at h
    rw [← h]
    exact iff_of_true (hwrong.recover h₀) trivial
  | cons event events ih =>
    rw [run_cons, Option.bind_eq_some_iff] at h
    obtain ⟨c₁, hs, hrun⟩ := h
    rw [Along, hs, Option.elim_some]
    by_cases htakes : Takes event c
    · obtain ⟨hfin₀, hzom₀⟩ := h₀.alive
      have hfin : c.state .finished = false := by
        rw [hwrong.state _ (by decide)]
        exact hfin₀
      have hzom : c.state .zombie = false := by
        rw [hwrong.state _ (by decide)]
        exact hzom₀
      have hhandler := (run_inHandler (step_taken hwrong.specMode hfin hzom htakes hs) hrun).recover
      refine iff_of_false (fun hrestored => ?_) fun halong => halong.1 htakes
      have hbefore : c.state .handler = false := by
        cases event with
        | processEvents force => exact htakes.2.2.1
        | execute => exact htakes.elim
        | setEip eip => exact htakes.elim
        | signal sig => exact htakes.elim
      rw [hwrong.state _ (by decide), ← hrestored.state, hhandler] at hbefore
      cases hbefore
    · rw [ih (hwrong.isolated (step_isolated hwrong.specMode htakes hs)) hrun]
      exact (and_iff_right htakes).symm

/-- The wrong path leaves no trace exactly when no signal handler starts on it. -/
theorem wrongPath_restored_iff (fuel : ℕ) (safe_mode : Bool)
    (decode : List UInt8 → Regs R → Inst R) (events : List Event) (eip : Word)
    (h₀ : OnRightPath c) (heip : c.regs.eip ≠ eip)
    (hrun : run (step syscall fuel safe_mode decode) events (c.setEip eip) = some c') :
    Restored c c'.recover ↔ Along (step syscall fuel safe_mode decode)
      (fun event c => ¬ Takes event c) events (c.setEip eip) :=
  run_restored_iff h₀ (setEip_wrongPath h₀ heip) hrun

end Runs

def stackMemory : Memory :=
  Memory.setPage {} 0x8000#32 (some (Memory.Page.new 0x8000#32 Memory.fullPerm))

def exampleContext : Context Unit where
  regs := ⟨0, 0, 0, 0, 0x8800#32, 0, 0, 0, 0, 0, 0, 0, 0, 0, 0x5000#32, 0, 0, ()⟩
  backup_regs := ⟨0, 0, 0, 0, 0, 0, 0, 0, 0, 0, 0, 0, 0, 0, 0, 0, 0, ()⟩
  state flag := flag = .running
  spec_mem := { memory := stackMemory }
  pending := 0
  blocked := 0
  handler sig := if sig = 10 then 0x7000#32 else 0
  signal_regs := none
  ret_code_ptr := 0

lemma exampleContext_onRightPath : OnRightPath exampleContext := by
  refine ⟨funext fun flag => ?_, rfl, rfl⟩
  cases flag <;> rfl

def nops : List UInt8 → Regs Unit → Inst Unit := fun _ regs => .done regs

theorem wrongPath_restored_nop :
    Restored exampleContext ((exampleContext.setEip 0x6000#32).recover) := by
  have hrun : run (step (fun _ => none) 8 true nops) [.signal 10, .processEvents false]
      (exampleContext.setEip 0x6000#32) = some { exampleContext.setEip 0x6000#32 with
        pending := 0x200 } := rfl
  have hiff := @wrongPath_restored_iff Unit (fun _ => none) _ _ 8 true nops _ 0x6000#32
    exampleContext_onRightPath (by decide) hrun
  have hrestored := hiff.mpr ⟨id, And.intro (fun htakes => by cases htakes.1) trivial⟩
  exact ⟨hrestored.regs, hrestored.memory, hrestored.state⟩

/-- A signal that arrives on the wrong path starts its handler. -/
theorem wrongPath_not_restored : ¬ ∀ (syscall : Context Unit → Option (Context Unit))
    (fuel : ℕ) (safe_mode : Bool) (decode : List UInt8 → Regs Unit → Inst Unit)
    (events : List Event) (eip : Word) (c c' : Context Unit), OnRightPath c → c.regs.eip ≠ eip →
    run (step syscall fuel safe_mode decode) events (c.setEip eip) = some c' →
    Restored c c'.recover := by
  intro hall
  have hsome : (run (step (fun _ => none) 8 true nops) [.signal 10, .processEvents true]
      (exampleContext.setEip 0x6000#32)).isSome = true := by decide +kernel
  obtain ⟨c', hrun⟩ := Option.isSome_iff_exists.mp hsome
  have heip : exampleContext.regs.eip ≠ 0x6000#32 := by decide
  have hrestored := hall _ _ _ _ _ _ _ _ exampleContext_onRightPath heip hrun
  have hpath := setEip_wrongPath exampleContext_onRightPath heip
  obtain ⟨-, htakes, -⟩ := (run_restored_iff exampleContext_onRightPath hpath hrun).mp hrestored
  exact htakes ⟨rfl, rfl, rfl, 10, by decide +kernel, by decide⟩

end OISA.X86.Speculation
