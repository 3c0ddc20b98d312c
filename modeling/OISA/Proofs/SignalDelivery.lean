import OISA.Proofs.AddressSpaceCalls
import OISA.Proofs.WrongPath
import OISA.X86.Signals

/-!
# Delivery of signals

A signal saves the registers that the interrupted program goes on with, except inside a system
call that has a return value still to come.
-/

namespace OISA.X86.Signals

open OISA.Lib OISA.Memory OISA.X86.Contexts OISA.X86.Speculation OISA.X86.AddressSpace

/-- The mapped addresses of a memory -/
def mapped (m : Memory) : Word → Bool := fun x => (m.getPage x).isSome

section Mapped

variable {m m' : Memory} {a x : Word} {access : AccessType}

lemma mapped_setPage {page : Page} (h : mapped m a = true) :
    mapped (m.setPage a (some page)) = mapped m := by
  funext y
  unfold mapped
  rw [getPage_setPage]
  split
  · rename_i htag
    have hget : m.getPage y = m.getPage a := getPage_of_tag htag
    rw [hget]
    exact h.symm
  · rfl

lemma accessAtPageBoundary_safe (a : Word) (buffer : List UInt8) (m : Memory) :
    (AccessAtPageBoundary access a buffer m).state.safe = m.safe := by
  unfold AccessAtPageBoundary
  split
  · rfl
  · split
    · rfl
    · split
      · rfl
      · cases access with
        | Read | Exec | Invalid | Modified => rfl
        | Write | Init =>
          dsimp only
          split
          · rfl
          · rename_i hnew
            unfold newPage at hnew
            split at hnew
            · cases hnew
            · simp only [Option.some.injEq, Prod.mk.injEq] at hnew
              rw [← hnew.1]
              rfl

lemma accessAtPageBoundary_mapped (h : m.safe = true ∨ mapped m a = true) (buffer : List UInt8) :
    mapped (AccessAtPageBoundary access a buffer m).state = mapped m := by
  unfold AccessAtPageBoundary
  split
  · rfl
  · split
    · rename_i page hget
      apply mapped_setPage
      unfold mapped
      rw [hget]
      rfl
    · rename_i hget
      have hsafe : m.safe = true := by
        rcases h with h | h
        · exact h
        · unfold mapped at h
          rw [hget] at h
          cases h
      rw [if_pos hsafe]

lemma access_safe (m : Memory) (a : Word) (buffer : List UInt8) (access : AccessType) :
    (m.Access a buffer access).state.safe = m.safe := by
  apply transfer_invariant (P := fun t : Memory => t.safe = m.safe) _ buffer rfl
  intro a buffer t ht
  rw [accessAtPageBoundary_safe, ht]

lemma access_mapped (m : Memory) (a : Word) (buffer : List UInt8) (access : AccessType)
    (h : m.safe = true ∨ ∀ i < buffer.length, mapped m (a + BitVec.ofNat 32 i) = true) :
    mapped (m.Access a buffer access).state = mapped m := by
  rw [access_eq_bytewise]
  induction buffer generalizing a m with
  | nil => rfl
  | cons b buffer ih =>
    have hfirst : m.safe = true ∨ mapped m a = true := by
      apply h.imp_right
      intro hall
      have hzero := hall 0 (Nat.succ_pos _)
      rwa [BitVec.add_zero] at hzero
    have hsame := @accessAtPageBoundary_mapped _ _ access hfirst [b]
    rw [bytewise]
    cases herror : (AccessAtPageBoundary access a [b] m).error with
    | some e =>
      rw [Outcome.append_of_error herror]
      exact hsame
    | none =>
      rw [Outcome.append_of_none herror]
      refine (ih _ (a + 1#32) ?_).trans hsame
      rw [accessAtPageBoundary_safe, hsame]
      apply h.imp_right
      intro hall i hi
      have hnext := hall (i + 1) (Nat.succ_lt_succ hi)
      have hadd : a + BitVec.ofNat 32 (i + 1) = a + 1#32 + BitVec.ofNat 32 i := by
        rw [BitVec.add_assoc, BitVec.ofNat_add, BitVec.add_comm (1#32)]
      rwa [hadd] at hnext

lemma read_mapped (m : Memory) (a : Word) (buffer : List UInt8) :
    mapped (m.Read a buffer).state = mapped m := by
  apply transfer_invariant (P := fun t : Memory => mapped t = mapped m) _ buffer rfl
  intro a buffer t ht
  rw [← ht]
  unfold AccessAtPageBoundary
  split
  · rfl
  · split
    · rename_i page hget
      apply mapped_setPage
      unfold mapped
      rw [hget]
      rfl
    · split <;> rfl

lemma forTags_safe {body : Word → Memory → Option Memory}
    (hbody : ∀ t m m', body t m = some m' → m'.safe = m.safe) {tag2 : Word} {fuel : ℕ} {tag : Word}
    (h : forTags body tag2 fuel tag m = some m') : m'.safe = m.safe := by
  induction fuel generalizing tag m with
  | zero => cases h
  | succ fuel ih =>
    rw [forTags] at h
    split at h
    · obtain ⟨m₁, hm₁, hrest⟩ := Option.bind_eq_some_iff.mp h
      rw [ih hrest, hbody _ _ _ hm₁]
    · cases h
      rfl

lemma map_safe {fuel : ℕ} {size perm : Word} (h : m.Map fuel a size perm = some m') :
    m'.safe = m.safe := by
  refine forTags_safe ?_ h
  intro t m m' hm'
  rw [map_body, Option.some.injEq] at hm'
  rw [← hm']
  rfl

end Mapped

section Delivery

variable {R : Type} {c c' : Context R} {fuel sig : ℕ}

def FrameMapped (c : Context R) : Prop :=
  c.memory.safe = true ∨
    ∀ i < 96, mapped c.memory (c.regs.esp - 96 + BitVec.ofNat 32 i) = true

/-- What a signal that is delivered changes. -/
structure Delivered (fuel : ℕ) (c : Context R) (sig : ℕ) (c' : Context R) : Prop where
  installed : c.handler sig ≠ 0
  idle : c.state .handler = false
  state : c'.state = normalize (Function.update c.state .handler true)
  saved : c'.signal_regs = some c.regs
  pending : c'.pending = c.pending
  eip : c'.regs.eip = c.handler sig
  pages : FrameMapped c → ∀ m m', m.Unmap fuel c'.ret_code_ptr PageSize = some m' →
    mapped m = mapped c'.memory → mapped m' = mapped c.memory

lemma signalFrame_length (c : Context R) (sig : ℕ) :
    ((signalFrame c sig).flatMap wordBytes).length = 96 := rfl

lemma unmap_minus_one (fuel : ℕ) (m : Memory) : m.Unmap fuel (-1) PageSize = none := by
  unfold Memory.Unmap
  rw [if_pos]
  left
  decide

/-- The page that `MapSpace` finds and `Map` makes can be taken away again. -/
lemma unmap_map (hfuel : 2 ^ 20 ≤ fuel) {m m₁ : Memory} {ptr perm : Word}
    (hspace : m.MapSpace fuel PageSize PageSize = some ptr)
    (hmap : m.Map fuel ptr PageSize perm = some m₁) (hne : ptr ≠ -1) :
    (∀ i < 9, mapped m₁ (ptr + BitVec.ofNat 32 i) = true) ∧
    (∀ x, mapped m x = true → mapped m₁ x = true) ∧
    ∀ m₂ m', m₂.Unmap fuel ptr PageSize = some m' → mapped m₂ = mapped m₁ →
      mapped m' = mapped m := by
  have hsize : PageSize.toNat = 4096 := rfl
  obtain ⟨haligned, hfree⟩ := mapSpace_spec hspace hne
  have hbound : ptr.toNat + PageSize.toNat ≤ 0xFFFFF000 := by
    have hnot : ptr.toNat ≠ 0xFFFFF000 := by
      intro hlast
      rw [map_last hlast] at hmap
      cases hmap
    omega
  obtain ⟨m₁', hm₁', hpages⟩ := map_range m haligned (by omega) (by omega) hbound hfuel perm
  rw [hmap, Option.some.injEq] at hm₁'
  subst hm₁'
  refine ⟨?_, ?_, ?_⟩
  · intro i hi
    have hin : InBytes ptr.toNat PageSize.toNat (ptr + BitVec.ofNat 32 i) := by
      unfold InBytes
      rw [BitVec.toNat_add, BitVec.toNat_ofNat]
      omega
    unfold mapped
    rw [(hpages _).1 hin]
    rfl
  · intro x hx
    unfold mapped
    by_cases hin : InBytes ptr.toNat PageSize.toNat x
    · rw [(hpages x).1 hin]
      rfl
    · rw [(hpages x).2 hin]
      exact hx
  · intro m₂ m' hunmap hsame
    obtain ⟨m'', hm'', hgone⟩ :=
      @unmap_range _ _ fuel m₂ haligned (by omega) (by omega) hbound hfuel
    rw [hunmap, Option.some.injEq] at hm''
    subst hm''
    funext x
    unfold mapped
    by_cases hin : InBytes ptr.toNat PageSize.toNat x
    · rw [(hgone x).1 hin, hfree x hin.1 hin.2]
    · rw [(hgone x).2 hin]
      have hx := congrFun hsame x
      unfold mapped at hx
      rw [hx, (hpages x).2 hin]

lemma runSignalHandler_delivered (hfuel : 2 ^ 20 ≤ fuel) (hinstalled : c.handler sig ≠ 0)
    (h : runSignalHandler fuel c sig = some c') : Delivered fuel c sig c' := by
  unfold runSignalHandler at h
  rw [if_neg fun hand => hinstalled hand.2] at h
  simp only [Option.bind_eq_bind, Option.bind_eq_some_iff, Option.pure_def, Option.some.injEq,
    Option.guard_eq_some'] at h
  obtain ⟨ptr, hspace, m, hmap, _, hinit, _, hwrite, _, hidle, _, -, rfl⟩ := h
  have hidle' : c.state .handler = false := Bool.eq_false_iff.mpr hidle
  refine ⟨hinstalled, hidle', rfl, rfl, rfl, rfl, ?_⟩
  intro hframe m₂ m' hunmap hsame
  change m₂.Unmap fuel ptr PageSize = some m' at hunmap
  by_cases hne : ptr = -1
  · rw [hne, unmap_minus_one] at hunmap
    cases hunmap
  obtain ⟨hcode, hgrows, htaken⟩ := unmap_map hfuel hspace hmap hne
  apply htaken m₂ m' hunmap
  rw [hsame]
  -- neither the return code nor the frame maps a page
  have hret : mapped (m.Init ptr signal_ret_code).state = mapped m :=
    access_mapped m ptr signal_ret_code .Init (Or.inr hcode)
  refine (access_mapped (m.Init ptr signal_ret_code).state _ _ .Write ?_).trans hret
  rw [hret, signalFrame_length]
  refine hframe.imp (fun hsafe => ?_) fun hall i hi => ?_
  · rw [← hsafe, ← map_safe hmap]
    exact access_safe m ptr signal_ret_code .Init
  · exact hgrows _ (hall i hi)

lemma runSignalHandler_cases (hfuel : 2 ^ 20 ≤ fuel)
    (h : runSignalHandler fuel c sig = some c') :
    (sig = SIGCHLD ∧ c.handler sig = 0 ∧ c' = c) ∨ Delivered fuel c sig c' := by
  by_cases hhandler : c.handler sig = 0
  · obtain ⟨hchild, hsame⟩ := runSignalHandler_ignored hhandler h
    exact Or.inl ⟨hchild, hhandler, hsame⟩
  · exact Or.inr (runSignalHandler_delivered hfuel hhandler h)

lemma checkSignalHandler_cases (hfuel : 2 ^ 20 ≤ fuel)
    (h : checkSignalHandler c fuel = some c') :
    ((c.state .handler = true ∨ c.pendingSignal = none) ∧ c' = c) ∨
    (c.state .handler = false ∧ ∃ sig, c.pendingSignal = some sig ∧
      ((sig = SIGCHLD ∧ c.handler sig = 0 ∧
          c' = { c with pending := withoutSignal c.pending sig }) ∨
        ∃ c₁, Delivered fuel c sig c₁ ∧
          c' = { c₁ with pending := withoutSignal c₁.pending sig })) := by
  unfold checkSignalHandler at h
  split at h
  · rename_i hhandler
    exact Or.inl ⟨Or.inl hhandler, (Option.some.inj h).symm⟩
  · rename_i hidle
    split at h
    · rename_i hnone
      exact Or.inl ⟨Or.inr hnone, (Option.some.inj h).symm⟩
    · rename_i sig hsig
      obtain ⟨c₁, hrun, rfl⟩ := Option.map_eq_some_iff.mp h
      right
      refine ⟨Bool.eq_false_iff.mpr hidle, sig, hsig, ?_⟩
      rcases runSignalHandler_cases hfuel hrun with ⟨hchild, hzero, rfl⟩ | hdelivered
      · exact Or.inl ⟨hchild, hzero, rfl⟩
      · exact Or.inr ⟨c₁, hdelivered, rfl⟩

lemma checkSignalHandlerIntr_cases (hfuel : 2 ^ 20 ≤ fuel) {flags : ℕ → Word}
    (h : checkSignalHandlerIntr fuel flags c = some c') :
    c.state .handler = false ∧ ∃ sig, c.pendingSignal = some sig ∧
      ((sig = SIGCHLD ∧ c.handler sig = 0) ∨
        ∃ m c₁, mapped m = mapped c.memory ∧ m.safe = c.memory.safe ∧
          Delivered fuel { c.setMemory m with regs := interrupted (flags sig) c.regs } sig c₁ ∧
          c' = { c₁ with pending := withoutSignal c₁.pending sig }) := by
  simp only [checkSignalHandlerIntr, Option.bind_eq_bind, Option.bind_eq_some_iff,
    Option.pure_def, Option.some.injEq, Option.guard_eq_some'] at h
  obtain ⟨_, hidle, sig, hsig, c₀, hread, c₁, hrun, rfl⟩ := h
  have hmemory : ∃ m, c₀ = c.setMemory m ∧ mapped m = mapped c.memory ∧
      m.safe = c.memory.safe := by
    unfold readInt80 at hread
    split at hread
    · dsimp only at hread
      split at hread
      · refine ⟨_, (Option.some.inj hread).symm, read_mapped _ _ _, access_safe _ _ _ .Read⟩
      · cases hread
    · exact ⟨c.memory, (Option.some.inj hread).symm, rfl, rfl⟩
  obtain ⟨m, rfl, hmapped, hsafe⟩ := hmemory
  refine ⟨Bool.eq_false_iff.mpr hidle, sig, hsig, ?_⟩
  rcases runSignalHandler_cases hfuel hrun with ⟨hchild, hzero, -⟩ | hdelivered
  · exact Or.inl ⟨hchild, hzero⟩
  · exact Or.inr ⟨m, c₁, hmapped, hsafe, hdelivered, rfl⟩

end Delivery

/-- A context that is not finished: it runs when nothing stops it. -/
structure Alive (s : State) : Prop where
  finished : s .finished = false
  zombie : s .zombie = false
  running : s .running = (!s .suspended && !s .locked)

lemma normalize_alive {s : State} (hf : s .finished = false) (hz : s .zombie = false) :
    Contexts.normalize s = Function.update s .running (!s .suspended && !s .locked) := by
  simp [Contexts.normalize, hf, hz]

/-- Only one flag has changed, apart from whether the context runs. -/
structure Changes (s : State) (flag : Flag) (b : Bool) (s' : State) : Prop where
  alive : Alive s'
  self : s' flag = b
  other : ∀ f, f ≠ .running → f ≠ flag → s' f = s f

lemma Alive.changes {s : State} (h : Alive s) (flag : Flag)
    (hflag : flag ∉ [Flag.finished, Flag.zombie, Flag.running]) (b : Bool) :
    Changes s flag b (Contexts.normalize (Function.update s flag b)) := by
  rw [List.mem_cons, List.mem_cons, List.mem_singleton, not_or, not_or] at hflag
  obtain ⟨hf, hz, hr⟩ := hflag
  have hfin : Function.update s flag b .finished = false := by
    rw [Function.update_of_ne (Ne.symm hf), h.finished]
  have hzom : Function.update s flag b .zombie = false := by
    rw [Function.update_of_ne (Ne.symm hz), h.zombie]
  rw [normalize_alive hfin hzom]
  have hsame (f : Flag) (hne : f ≠ .running) : Function.update (Function.update s flag b) .running
      (!Function.update s flag b .suspended && !Function.update s flag b .locked) f =
        Function.update s flag b f := Function.update_of_ne hne _ _
  refine ⟨⟨?_, ?_, ?_⟩, ?_, fun f hrun hne => ?_⟩
  · rw [hsame _ (by decide), hfin]
  · rw [hsame _ (by decide), hzom]
  · rw [Function.update_self, hsame _ (by decide), hsame _ (by decide)]
  · rw [hsame _ hr, Function.update_self]
  · rw [hsame _ hrun, Function.update_of_ne hne]

section ProcessEvents

variable {R : Type} {q q' p' : Process R} {fuel : ℕ}

/-- The registers with which the program goes on where the signals are checked: those of the
interrupted call, where it is blocked -/
def goesOn (q : Process R) : Regs R :=
  if q.context.state .suspended then
    q.context.pendingSignal.elim q.context.regs fun sig =>
      interrupted (q.flags sig) q.context.regs
  else q.context.regs

/-- A signal is taken: in a context that runs, or in a call that can be interrupted, unless its
host thread is active. -/
structure Takes (thread_active : Bool) (q : Process R) (sig : ℕ) : Prop where
  lowest : q.context.pendingSignal = some sig
  idle : q.context.state .handler = false
  runs : q.context.state .suspended = false → q.context.state .running = true
  call : q.context.state .suspended = true → q.wait = some .sigsuspend ∨
    thread_active = false ∧ ∃ wait, q.wait = some wait ∧ wait ≠ .other

structure StartsHandler (fuel : ℕ) (thread_active : Bool) (q : Process R) (r : Regs R)
    (p' : Process R) : Prop where
  idle : q.context.state .handler = false
  handling : p'.context.state .handler = true
  awake : p'.context.state .suspended = false
  alive : Alive p'.context.state
  spec : p'.context.state .specMode = q.context.state .specMode
  signal : ∃ sig, Takes thread_active q sig ∧ q.context.handler sig ≠ 0 ∧
    p'.context.pending = withoutSignal q.context.pending sig ∧
    p'.context.regs.eip = q.context.handler sig
  saved : p'.context.signal_regs = some r
  pages : FrameMapped q.context → ∀ m m', m.Unmap fuel p'.context.ret_code_ptr PageSize = some m' →
    mapped m = mapped p'.context.memory → mapped m' = mapped q.context.memory

/-- No handler starts, and the registers are those without the signal. -/
structure GoesOn (ready : Option (Word × Memory)) (q p' : Process R) : Prop where
  handling : p'.context.state .handler = q.context.state .handler
  alive : Alive p'.context.state
  saved : p'.context.signal_regs = q.context.signal_regs
  page : p'.context.ret_code_ptr = q.context.ret_code_ptr
  pending : p'.context.pending = q.context.pending ∨
    q.context.pendingSignal = some SIGCHLD ∧ q.context.handler SIGCHLD = 0 ∧
      p'.context.pending = withoutSignal q.context.pending SIGCHLD
  regs : (p'.context.state .suspended = q.context.state .suspended ∧
      p'.context.regs = q.context.regs) ∨
    (q.context.state .suspended = true ∧ ∃ ret m, ready = some (ret, m) ∧
      p'.context.regs = { q.context.regs with eax := ret })

def IgnoredInCall (thread_active : Bool) (q : Process R) : Prop :=
  q.context.state .suspended = true ∧
    ∃ sig, Takes thread_active q sig ∧ q.context.handler sig = 0

lemma GoesOn.refl (halive : Alive q.context.state) (ready : Option (Word × Memory)) :
    GoesOn ready q q :=
  ⟨rfl, halive, rfl, rfl, Or.inl rfl, Or.inl ⟨rfl, rfl⟩⟩

lemma complete_goesOn (h : Alive q.context.state) (hsusp : q.context.state .suspended = true)
    (ready : Option (Word × Memory)) : GoesOn ready q (q.complete ready) := by
  cases ready with
  | none => exact .refl h none
  | some ready =>
    obtain ⟨ret, m⟩ := ready
    have hwoken := h.changes .suspended (by decide) false
    exact ⟨hwoken.other .handler (by decide) (by decide), hwoken.alive, rfl, rfl, Or.inl rfl,
      Or.inr ⟨hsusp, ret, m, rfl, rfl⟩⟩

lemma launchHandlers_cases (hfuel : 2 ^ 20 ≤ fuel) (h : Alive q.context.state)
    (thread_active : Bool)
    (hlaunch : launchHandlers fuel q = some p') :
    ((q.context.state .running = true → q.context.state .handler = true ∨
        q.context.pendingSignal = none) ∧ p' = q) ∨
    (q.context.state .handler = false ∧ q.context.state .suspended = false ∧
      q.context.pendingSignal ≠ none ∧
      (StartsHandler fuel thread_active q q.context.regs p' ∨ GoesOn none q p')) := by
  unfold launchHandlers at hlaunch
  split at hlaunch
  · rename_i hrun
    have hawake : q.context.state .suspended = false := by
      rw [h.running, Bool.and_eq_true, Bool.not_eq_true'] at hrun
      exact hrun.1
    obtain ⟨c', hcheck, rfl⟩ := Option.map_eq_some_iff.mp hlaunch
    rcases checkSignalHandler_cases hfuel hcheck with ⟨hnone, rfl⟩ | ⟨hidle, sig, hsig, hcase⟩
    · exact Or.inl ⟨fun _ => hnone, rfl⟩
    · right
      refine ⟨hidle, hawake, by rw [hsig]; exact Option.some_ne_none sig, ?_⟩
      rcases hcase with ⟨rfl, hzero, rfl⟩ | ⟨c₁, hd, rfl⟩
      · exact Or.inr ⟨rfl, h, rfl, rfl, Or.inr ⟨hsig, hzero, rfl⟩, Or.inl ⟨rfl, rfl⟩⟩
      · left
        have hstate : Changes q.context.state .handler true c₁.state := by
          rw [hd.state]
          exact h.changes .handler (by decide) true
        have htakes : Takes thread_active q sig :=
          ⟨hsig, hidle, fun _ => hrun, fun hsusp => by rw [hawake] at hsusp; cases hsusp⟩
        refine ⟨hidle, hstate.self, ?_, hstate.alive, ?_,
          ⟨sig, htakes, hd.installed, ?_, hd.eip⟩, hd.saved, hd.pages⟩
        · exact (hstate.other .suspended (by decide) (by decide)).trans hawake
        · exact hstate.other .specMode (by decide) (by decide)
        · exact congrArg (withoutSignal · sig) hd.pending
  · rename_i hrun
    exact Or.inl ⟨fun hr => absurd hr hrun, (Option.some.inj hlaunch).symm⟩

lemma FrameMapped.congr {c c' : Context R} (hmapped : mapped c'.memory = mapped c.memory)
    (hsafe : c'.memory.safe = c.memory.safe) (hesp : c'.regs.esp = c.regs.esp)
    (h : FrameMapped c) : FrameMapped c' := by
  unfold FrameMapped
  rw [hmapped, hsafe, hesp]
  exact h

lemma interrupted_esp (flags : Word) (r : Regs R) : (interrupted flags r).esp = r.esp := by
  unfold interrupted
  split <;> rfl

lemma wakeup_starts (h : Alive q.context.state) (hsusp : q.context.state .suspended = true)
    {thread_active : Bool} {sig : ℕ} (htakes : Takes thread_active q sig) {m : Memory}
    {c₁ : Context R}
    (hmapped : mapped m = mapped q.context.memory) (hsafe : m.safe = q.context.memory.safe)
    (hd : Delivered fuel { q.context.setMemory m with
      regs := interrupted (q.flags sig) q.context.regs } sig c₁) (blocked : BitVec 64) :
    StartsHandler fuel thread_active q (goesOn q) (Process.wakeup { q with
      context := { c₁ with
        pending := withoutSignal c₁.pending sig
        blocked := blocked } }) := by
  have hstate : Changes q.context.state .handler true c₁.state := by
    rw [hd.state]
    exact h.changes .handler (by decide) true
  have hwoken := hstate.alive.changes .suspended (by decide) false
  have hgoesOn : goesOn q = interrupted (q.flags sig) q.context.regs := by
    unfold goesOn
    rw [if_pos hsusp, htakes.lowest]
    rfl
  refine ⟨htakes.idle, ?_, hwoken.self, hwoken.alive, ?_,
    ⟨sig, htakes, hd.installed, ?_, hd.eip⟩, ?_, ?_⟩
  · exact (hwoken.other .handler (by decide) (by decide)).trans hstate.self
  · exact (hwoken.other .specMode (by decide) (by decide)).trans
      (hstate.other .specMode (by decide) (by decide))
  · exact congrArg (withoutSignal · sig) hd.pending
  · rw [hgoesOn]
    exact hd.saved
  · intro hframe m₂ m' hunmap hsame'
    rw [← hmapped]
    exact hd.pages (hframe.congr hmapped hsafe (interrupted_esp _ _)) m₂ m' hunmap hsame'

/-- The first loop -/
lemma resume_cases (hfuel : 2 ^ 20 ≤ fuel) (h : Alive q.context.state)
    (hsusp : q.context.state .suspended = true) {thread_active : Bool}
    {ready : Option (Word × Memory)} (hwait : q.wait = some .other → ready = none)
    (hresume : resume fuel thread_active ready q = some q') :
    StartsHandler fuel thread_active q (goesOn q) q' ∨ IgnoredInCall thread_active q ∨ q' = q ∨
      (q.context.pendingSignal = none ∧ q' = q.complete ready) := by
  have hsuspended : q.context.state .suspended = false → q.context.state .running = true := by
    intro hawake
    rw [hsusp] at hawake
    cases hawake
  have hintr (hcall : q.wait = some .sigsuspend ∨
        thread_active = false ∧ ∃ wait, q.wait = some wait ∧ wait ≠ .other) {c' : Context R}
      (hcheck : checkSignalHandlerIntr fuel q.flags q.context = some c')
      (blocked : Context R → BitVec 64)
      (hq' : q' = Process.wakeup { q with context := { c' with blocked := blocked c' } }) :
      StartsHandler fuel thread_active q (goesOn q) q' ∨ IgnoredInCall thread_active q := by
    obtain ⟨hidle, sig, hsig, ⟨-, hzero⟩ | ⟨m, c₁, hmapped, hsafe, hd, rfl⟩⟩ :=
      checkSignalHandlerIntr_cases hfuel hcheck
    · exact Or.inr ⟨hsusp, sig, ⟨hsig, hidle, hsuspended, fun _ => hcall⟩, hzero⟩
    · left
      rw [hq']
      exact wakeup_starts h hsusp ⟨hsig, hidle, hsuspended, fun _ => hcall⟩ hmapped hsafe hd _
  -- `read`, `write` and `poll`
  have hcall (wait : Wait) (hw : q.wait = some wait) (hother : wait ≠ .other)
      (hresume : (if thread_active then some q
        else if q.context.pendingSignal.isSome then
          (checkSignalHandlerIntr fuel q.flags q.context).map fun c =>
            Process.wakeup { q with context := c }
        else some (q.complete ready)) = some q') :
      StartsHandler fuel thread_active q (goesOn q) q' ∨ IgnoredInCall thread_active q ∨ q' = q ∨
        (q.context.pendingSignal = none ∧ q' = q.complete ready) := by
    split at hresume
    · exact Or.inr (Or.inr (Or.inl (Option.some.inj hresume).symm))
    · rename_i hactive
      split at hresume
      · obtain ⟨c', hcheck, rfl⟩ := Option.map_eq_some_iff.mp hresume
        rcases hintr (Or.inr ⟨Bool.eq_false_iff.mpr hactive, wait, hw, hother⟩) hcheck
          (fun c => c.blocked) rfl with hstarts | hignored
        · exact Or.inl hstarts
        · exact Or.inr (Or.inl hignored)
      · rename_i hnone
        have hpending : q.context.pendingSignal = none := by
          rwa [Bool.not_eq_true, Option.isSome_eq_false_iff, Option.isNone_iff_eq_none] at hnone
        exact Or.inr (Or.inr (Or.inr ⟨hpending, (Option.some.inj hresume).symm⟩))
  unfold resume at hresume
  cases hw : q.wait with
  | none =>
    rw [hw] at hresume
    exact Or.inr (Or.inr (Or.inl (Option.some.inj hresume).symm))
  | some wait =>
    rw [hw] at hresume
    cases wait with
    | other =>
      rw [hwait hw] at hresume
      exact Or.inr (Or.inr (Or.inl (Option.some.inj hresume).symm))
    | sigsuspend =>
      dsimp only at hresume
      split at hresume
      · obtain ⟨c', hcheck, rfl⟩ := Option.map_eq_some_iff.mp hresume
        rcases hintr (Or.inl hw) hcheck (fun _ => q.backup) rfl with hstarts | hignored
        · exact Or.inl hstarts
        · exact Or.inr (Or.inl hignored)
      · exact Or.inr (Or.inr (Or.inl (Option.some.inj hresume).symm))
    | read => exact hcall .read hw (by decide) hresume
    | write => exact hcall .write hw (by decide) hresume
    | poll => exact hcall .poll hw (by decide) hresume

/-- Both loops: a handler starts, or a blocked call meets a signal without one, or the context
goes on. -/
theorem processEvents_cases (hfuel : 2 ^ 20 ≤ fuel) (h : Alive q.context.state)
    {thread_active : Bool} {ready : Option (Word × Memory)}
    (hwait : q.context.state .suspended = true → q.wait = some .other → ready = none)
    (hevents : processEvents fuel true thread_active ready q = some p') :
    StartsHandler fuel thread_active q (goesOn q) p' ∨ IgnoredInCall thread_active q ∨
      GoesOn ready q p' := by
  rw [processEvents, if_pos rfl, Option.bind_eq_some_iff] at hevents
  obtain ⟨q₁, hwake, hlaunch⟩ := hevents
  unfold wakeSuspended at hwake
  split at hwake
  · rename_i hsusp
    rcases resume_cases hfuel h hsusp (hwait hsusp) hwake with
      hstarts | hignored | rfl | ⟨hnone, rfl⟩
    · -- a handler runs now, and no other starts
      rcases launchHandlers_cases hfuel hstarts.alive thread_active hlaunch with
        ⟨-, rfl⟩ | ⟨hidle, -⟩
      · exact Or.inl hstarts
      · rw [hstarts.handling] at hidle
        cases hidle
    · exact Or.inr (Or.inl hignored)
    · rcases launchHandlers_cases hfuel h thread_active hlaunch with ⟨-, rfl⟩ | ⟨-, hawake, -⟩
      · exact Or.inr (Or.inr (.refl h ready))
      · rw [hsusp] at hawake
        cases hawake
    · have hgoes := complete_goesOn h hsusp ready
      have hpending : (q.complete ready).context.pendingSignal = none := by
        rw [← hnone]
        cases ready <;> rfl
      rcases launchHandlers_cases hfuel hgoes.alive thread_active hlaunch with
        ⟨-, rfl⟩ | ⟨-, -, hsome, -⟩
      · exact Or.inr (Or.inr hgoes)
      · exact absurd hpending hsome
  · rename_i hawake
    obtain rfl := Option.some.inj hwake
    have hgoesOn : goesOn q = q.context.regs := by
      unfold goesOn
      rw [if_neg hawake]
    rcases launchHandlers_cases hfuel h thread_active hlaunch with
      ⟨-, rfl⟩ | ⟨-, -, -, hstarts | hgoes⟩
    · exact Or.inr (Or.inr (.refl h ready))
    · left
      rw [hgoesOn]
      exact hstarts
    · refine Or.inr (Or.inr ⟨hgoes.handling, hgoes.alive, hgoes.saved, hgoes.page,
        hgoes.pending, ?_⟩)
      rcases hgoes.regs with hsame | ⟨-, _, _, hready, -⟩
      · exact Or.inl hsame
      · cases hready

end ProcessEvents

section Purpose

variable {R : Type} (S : System R) (fuel : ℕ)

/-- Where a step checks the signals: the process there, and the value that the system call it
executes is still to return -/
def place (event : Event) (p : Process R) : Option (Process R × Option Word) :=
  match event with
  | .processEvents true _ ready =>
    some (if p.context.state .suspended ∧ p.wait = some .other then p.complete ready else p, none)
  | .execute =>
    let code := p.context.regs.eax
    if p.context.state .running ∧ executesSyscall S p ∧ processesEvents code then
      (beforeEvents S fuel p.atSyscall).map fun q =>
        (q, if code = SyscallCode_sigreturn then none else some 0)
    else none
  | _ => none

/-- The host thread of the context is active. -/
def Event.active : Event → Bool
  | .processEvents _ thread_active _ => thread_active
  | _ => false

def Event.ready : Event → Option (Word × Memory)
  | .processEvents _ _ ready => ready
  | _ => none

def Returns (event : Event) (p : Process R) : Prop :=
  event = .execute ∧ p.context.state .running = true ∧ executesSyscall S p = true ∧
    p.context.regs.eax = SyscallCode_sigreturn

/-- The registers that the program has after the step without the signal, or after its interrupted
call -/
def continued (q : Process R) (ret : Option Word) : Regs R :=
  if q.context.state .suspended then goesOn q
  else ret.elim q.context.regs fun ret => { q.context.regs with eax := ret }

/-- What is expected of the return from a handler: the registers, and the mapped addresses if
these are what they were when the handler started -/
structure Saved (R : Type) where
  regs : Regs R
  before : Word → Bool
  during : Word → Bool

structure Trace (R : Type) where
  process : Process R
  saved : Option (Saved R)

def starts (q p' : Process R) : Bool :=
  !q.context.state .handler && p'.context.state .handler

/-- A step, with what is expected of the return from the handler that it starts -/
def traced (event : Event) (t : Trace R) : Option (Trace R) :=
  (step S fuel event t.process).map fun p' =>
    { process := p'
      saved :=
        match place S fuel event t.process with
        | none => t.saved
        | some (q, ret) =>
          if starts q p' then
            some ⟨continued q ret, mapped q.context.memory, mapped p'.context.memory⟩
          else t.saved }

structure Transparent (event : Event) (t t' : Trace R) : Prop where
  /-- The lowest signal starts its handler, once, on the right path. -/
  started : ∀ q ret, place S fuel event t.process = some (q, ret) → starts q t'.process = true →
    ∃ sig, q.context.pendingSignal = some sig ∧
      t'.process.context.pending = withoutSignal q.context.pending sig ∧
      t'.process.context.regs.eip = q.context.handler sig ∧
      t'.process.context.state .specMode = false
  /-- Otherwise the program goes on as it would without one, also while a handler runs. -/
  unstarted : ∀ q ret, place S fuel event t.process = some (q, ret) →
    starts q t'.process = false →
      t'.process.context.state .handler = q.context.state .handler ∧
      (t'.process.context.pending = q.context.pending ∨
        q.context.pendingSignal = some SIGCHLD ∧ q.context.handler SIGCHLD = 0 ∧
          t'.process.context.pending = withoutSignal q.context.pending SIGCHLD) ∧
      (q.context.state .suspended = false → t'.process.context.regs = continued q ret) ∧
      (q.context.state .suspended = true → t'.process.context.regs = q.context.regs ∨
        ∃ v m, event.ready = some (v, m) ∧
          t'.process.context.regs = { q.context.regs with eax := v })
  /-- Signals are not lost where they are not checked. -/
  elsewhere : place S fuel event t.process = none →
    t'.process.context.state .handler = t.process.context.state .handler ∧
      ∀ i, t.process.context.pending.getLsbD i = true →
        t'.process.context.pending.getLsbD i = true
  /-- `sigreturn` goes on where the handler started, with the pages of then. -/
  returned : Returns S event t.process → ∃ q saved,
    place S fuel event t.process = some (q, none) ∧ t.saved = some saved ∧
      q.context.regs = saved.regs ∧
      (mapped t.process.context.memory = saved.during → mapped q.context.memory = saved.before)

/-- The condition: a handler starts on the right path, with a mapped stack and where no system call
is to return a value, and no blocked call is interrupted without one. -/
def Fine (event : Event) (p : Process R) : Prop :=
  ∀ q ret sig, place S fuel event p = some (q, ret) → Takes event.active q sig →
    (q.context.handler sig = 0 → q.context.state .suspended = false) ∧
    (q.context.handler sig ≠ 0 → q.context.state .specMode = false ∧ FrameMapped q.context ∧
      (q.context.state .suspended = false → ret = none))

end Purpose

section Steps

variable {R : Type} {S : System R} {fuel : ℕ} {p p' q : Process R} {event : Event}

structure Keeps (p p' : Process R) : Prop where
  alive : Alive p'.context.state
  handling : p'.context.state .handler = p.context.state .handler
  saved : p'.context.signal_regs = p.context.signal_regs
  page : p'.context.ret_code_ptr = p.context.ret_code_ptr

/-- The place of a step: either nothing about handlers has changed, or the handler has returned. -/
inductive Reaches (S : System R) (fuel : ℕ) (event : Event) (p q : Process R) : Prop
  | keeps (hnot : ¬ Returns S event p) (h : Keeps p q)
  | returns (h : Returns S event p) (alive : Alive q.context.state)
      (handling : p.context.state .handler = true) (idle : q.context.state .handler = false)
      (saved : p.context.signal_regs = some q.context.regs)
      (page : p.context.memory.Unmap fuel p.context.ret_code_ptr PageSize = some q.context.memory)

lemma Keeps.refl (h : Alive p.context.state) : Keeps p p := ⟨h, rfl, rfl, rfl⟩

lemma returnFromSignalHandler_spec {c c' : Context R} (h : Alive c.state)
    (hreturn : returnFromSignalHandler fuel c = some c') :
    Alive c'.state ∧ c.state .handler = true ∧ c'.state .handler = false ∧
      c.signal_regs = some c'.regs ∧
      c.memory.Unmap fuel c.ret_code_ptr PageSize = some c'.memory := by
  simp only [returnFromSignalHandler, Option.bind_eq_bind, Option.bind_eq_some_iff,
    Option.pure_def, Option.some.injEq, Option.guard_eq_some'] at hreturn
  obtain ⟨_, hhandler, m, hunmap, regs, hregs, rfl⟩ := hreturn
  have hstate := h.changes .handler (by decide) false
  exact ⟨hstate.alive, hhandler, hstate.self, hregs, hunmap⟩

lemma changeBlocked_keeps {how set_ptr : Word} {c c' : Context R}
    (h : changeBlocked how set_ptr c = some c') : c'.state = c.state ∧
      c'.signal_regs = c.signal_regs ∧ c'.ret_code_ptr = c.ret_code_ptr := by
  unfold changeBlocked at h
  split at h
  · obtain rfl := Option.some.inj h
    exact ⟨rfl, rfl, rfl⟩
  · simp only [Option.bind_eq_bind, Option.bind_eq_some_iff, Option.pure_def,
      Option.some.injEq] at h
    obtain ⟨_, -, _, -, rfl⟩ := h
    exact ⟨rfl, rfl, rfl⟩

lemma writeBlocked_keeps {old_set_ptr : Word} {c c' : Context R}
    (h : writeBlocked old_set_ptr c = some c') : c'.state = c.state ∧
      c'.signal_regs = c.signal_regs ∧ c'.ret_code_ptr = c.ret_code_ptr := by
  unfold writeBlocked at h
  split at h
  · obtain rfl := Option.some.inj h
    exact ⟨rfl, rfl, rfl⟩
  · dsimp only at h
    split at h
    · obtain rfl := Option.some.inj h
      exact ⟨rfl, rfl, rfl⟩
    · cases h

lemma Changes.keeps {flag : Flag} {b : Bool} (h : Changes p.context.state flag b p'.context.state)
    (hne : Flag.handler ≠ flag) (hsaved : p'.context.signal_regs = p.context.signal_regs)
    (hpage : p'.context.ret_code_ptr = p.context.ret_code_ptr) : Keeps p p' :=
  ⟨h.alive, h.other .handler (by decide) hne, hsaved, hpage⟩

/-- The system calls up to `ProcessEvents` -/
lemma beforeEvents_keeps (h : Alive p.context.state)
    (hcode : processesEvents p.context.regs.eax = true)
    (hbefore : beforeEvents S fuel p = some q) :
    (p.context.regs.eax ≠ SyscallCode_sigreturn ∧ Keeps p q) ∨
    (p.context.regs.eax = SyscallCode_sigreturn ∧
      ∃ c, returnFromSignalHandler fuel p.context = some c ∧ q.context = c) := by
  have hkill (pid sig : Word) :
      Keeps p (if S.self pid then { p with context := sendSignal p.context sig.toNat } else p) := by
    split
    · unfold sendSignal
      split
      · exact ⟨h, rfl, rfl, rfl⟩
      · exact .refl h
    · exact .refl h
  unfold beforeEvents at hbefore
  dsimp only at hbefore
  split at hbefore
  · rename_i hkillCode
    left
    rw [← Option.some.inj hbefore, hkillCode]
    exact ⟨by decide, hkill _ _⟩
  split at hbefore
  · rename_i htgkill
    left
    rw [← Option.some.inj hbefore, htgkill]
    exact ⟨by decide, hkill _ _⟩
  split at hbefore
  · rename_i hmask
    left
    simp only [rt_sigprocmask, Option.bind_eq_bind, Option.bind_eq_some_iff, Option.pure_def,
      Option.some.injEq] at hbefore
    obtain ⟨c₁, hchange, c₂, hwrite, rfl⟩ := hbefore
    obtain ⟨hs₁, hr₁, hp₁⟩ := changeBlocked_keeps hchange
    obtain ⟨hs₂, hr₂, hp₂⟩ := writeBlocked_keeps hwrite
    rw [hmask]
    refine ⟨by decide, ?_, ?_, hr₂.trans hr₁, hp₂.trans hp₁⟩
    · change Alive c₂.state
      rw [hs₂, hs₁]
      exact h
    · exact congrFun (hs₂.trans hs₁) .handler
  split at hbefore
  · rename_i hsuspend
    left
    simp only [rt_sigsuspend, Option.bind_eq_bind, Option.bind_eq_some_iff, Option.pure_def,
      Option.some.injEq, Option.guard_eq_some'] at hbefore
    obtain ⟨_, -, _, -, rfl⟩ := hbefore
    rw [hsuspend]
    exact ⟨by decide, (h.changes .suspended (by decide) true).keeps (by decide) rfl rfl⟩
  · rename_i hk ht hm hs
    right
    obtain ⟨c, hreturn, rfl⟩ := Option.map_eq_some_iff.mp hbefore
    refine ⟨?_, c, hreturn, rfl⟩
    simp only [processesEvents, Bool.or_eq_true, decide_eq_true_eq] at hcode
    tauto

/-- The process after a system call that returns -/
def finish (ret : Option Word) (p : Process R) : Process R :=
  if p.context.state .suspended then p else ret.elim p p.setEax

/-- The steps that check signals: `ProcessEvents` between the place and the end -/
lemma step_place (h : Alive p.context.state) (hstep : step S fuel event p = some p')
    {ret : Option Word} (hplace : place S fuel event p = some (q, ret)) :
    Reaches S fuel event p q ∧
      (q.context.state .suspended = true → q.wait = some .other → event.ready = none) ∧
      ∃ p₁, processEvents fuel true event.active event.ready q = some p₁ ∧ p' = finish ret p₁ := by
  cases event with
  | execute =>
    simp only [place] at hplace
    split at hplace
    · rename_i hexec
      obtain ⟨hrun, hsyscall, hcode⟩ := hexec
      obtain ⟨q', hbefore, heq⟩ := Option.map_eq_some_iff.mp hplace
      obtain ⟨rfl, rfl⟩ := Prod.mk.inj heq
      have hstep' : executeSyscall S fuel p.atSyscall = some p' := by
        simp only [step, Option.bind_eq_bind, Option.bind_eq_some_iff, Option.guard_eq_some',
          hsyscall, if_true] at hstep
        obtain ⟨_, -, hstep⟩ := hstep
        exact hstep
      have hcode' : processesEvents p.atSyscall.context.regs.eax = true := hcode
      simp only [executeSyscall, hcode', if_true, Option.bind_eq_bind, Option.bind_eq_some_iff,
        Option.pure_def, Option.some.injEq] at hstep'
      obtain ⟨q', hbefore', p₁, hevents, rfl⟩ := hstep'
      rw [hbefore, Option.some.injEq] at hbefore'
      subst hbefore'
      refine ⟨?_, fun _ _ => rfl, p₁, hevents, ?_⟩
      · rcases beforeEvents_keeps (p := p.atSyscall) h hcode' hbefore with
          ⟨hnot, hkeeps⟩ | ⟨hreturns, c, hreturn, rfl⟩
        · exact .keeps (fun hr => hnot hr.2.2.2) ⟨hkeeps.alive, hkeeps.handling, hkeeps.saved,
            hkeeps.page⟩
        · obtain ⟨halive, hhandler, hidle, hsaved, hunmap⟩ := returnFromSignalHandler_spec h hreturn
          exact .returns ⟨rfl, hrun, hsyscall, hreturns⟩ halive hhandler hidle hsaved hunmap
      · unfold finish
        by_cases hreturns : p.context.regs.eax = SyscallCode_sigreturn
        · have hnot : ¬ (p.atSyscall.context.regs.eax ≠ SyscallCode_sigreturn ∧
              ¬ p₁.context.state .suspended) := fun hand => hand.1 hreturns
          rw [if_neg hnot, if_pos hreturns]
          split <;> rfl
        · rw [if_neg hreturns]
          cases hsusp : p₁.context.state .suspended with
          | true => rw [if_neg (fun hand => hand.2 rfl), if_pos rfl]
          | false => rw [if_pos ⟨hreturns, Bool.false_ne_true⟩, if_neg Bool.false_ne_true]; rfl
    · cases hplace
  | processEvents force active ready =>
    cases force with
    | false => cases hplace
    | true =>
      obtain ⟨rfl, rfl⟩ := Prod.mk.inj (Option.some.inj hplace)
      have hnot : ¬ Returns S (.processEvents true active ready) p := fun hr => by cases hr.1
      have hfinish (p₁ : Process R) : p₁ = finish none p₁ := by
        unfold finish
        split <;> rfl
      by_cases hother : p.context.state .suspended = true ∧ p.wait = some .other
      · rw [if_pos hother]
        cases ready with
        | none =>
          exact ⟨.keeps hnot (.refl h), fun _ _ => rfl, p', hstep, hfinish p'⟩
        | some ready =>
          have hgoes := complete_goesOn h hother.1 (some ready)
          have hawake : (p.complete (some ready)).context.state .suspended = false :=
            (h.changes .suspended (by decide) false).self
          refine ⟨.keeps hnot ⟨hgoes.alive, hgoes.handling, hgoes.saved, hgoes.page⟩, ?_, p', ?_,
            hfinish p'⟩
          · intro hsusp
            rw [hawake] at hsusp
            cases hsusp
          · have hwake : wakeSuspended fuel active (some ready) p =
                some (p.complete (some ready)) := by
              unfold wakeSuspended resume
              rw [if_pos hother.1, hother.2]
            have hsecond : wakeSuspended fuel active (some ready) (p.complete (some ready)) =
                some (p.complete (some ready)) := by
              unfold wakeSuspended
              rw [hawake, if_neg Bool.false_ne_true]
            rw [step, processEvents, if_pos rfl, hwake] at hstep
            change processEvents fuel true active (some ready) (p.complete (some ready)) = some p'
            rw [processEvents, if_pos rfl, hsecond]
            exact hstep
      · rw [if_neg hother]
        exact ⟨.keeps hnot (.refl h), fun hs hw => absurd ⟨hs, hw⟩ hother, p', hstep, hfinish p'⟩
  | signal sig => cases hplace
  | setEip eip => cases hplace
  | recover => cases hplace

/-- The steps that check no signals -/
lemma step_elsewhere (h : Alive p.context.state) (hstep : step S fuel event p = some p')
    (hplace : place S fuel event p = none) :
    Keeps p p' ∧ ¬ Returns S event p ∧
      ∀ i, p.context.pending.getLsbD i = true → p'.context.pending.getLsbD i = true := by
  cases event with
  | execute =>
    simp only [step, Option.bind_eq_bind, Option.bind_eq_some_iff, Option.guard_eq_some'] at hstep
    obtain ⟨_, hrun, hstep⟩ := hstep
    simp only [place] at hplace
    split at hstep
    · rename_i hsyscall
      split at hplace
      · rename_i hexec
        obtain ⟨-, -, hcode⟩ := hexec
        rw [Option.map_eq_none_iff] at hplace
        have hcode' : processesEvents p.atSyscall.context.regs.eax = true := hcode
        simp only [executeSyscall, hcode', if_true, hplace, Option.bind_eq_bind, Option.bind_none]
          at hstep
        cases hstep
      · rename_i hexec
        have hcode : processesEvents p.atSyscall.context.regs.eax = false := by
          rw [Bool.eq_false_iff]
          exact fun hcode => hexec ⟨hrun, hsyscall, hcode⟩
        have hnot : ¬ Returns S .execute p := by
          intro hr
          have heax : p.atSyscall.context.regs.eax = SyscallCode_sigreturn := hr.2.2.2
          rw [heax] at hcode
          cases hcode
        simp only [executeSyscall, hcode, Bool.false_eq_true, if_false, Option.bind_eq_bind,
          Option.bind_eq_some_iff] at hstep
        obtain ⟨call, -, hstep⟩ := hstep
        split at hstep
        · rw [← Option.some.inj hstep]
          refine ⟨?_, hnot, ?_⟩
          · split
            · exact ⟨h, rfl, rfl, rfl⟩
            · exact ⟨h, rfl, rfl, rfl⟩
          · intro i hi
            split <;> exact hi
        · rw [← Option.some.inj hstep]
          exact ⟨(h.changes .suspended (by decide) true).keeps (by decide) rfl rfl, hnot,
            fun i hi => hi⟩
    · rename_i hsyscall
      have hnot : ¬ Returns S .execute p := fun hr => hsyscall hr.2.2.1
      split at hstep
      · rw [← Option.some.inj hstep]
        exact ⟨⟨h, rfl, rfl, rfl⟩, hnot, fun i hi => hi⟩
      · simp only [Option.bind_eq_some_iff, Option.pure_def, Option.some.injEq] at hstep
        obtain ⟨_, -, rfl⟩ := hstep
        exact ⟨⟨h, rfl, rfl, rfl⟩, hnot, fun i hi => hi⟩
  | signal sig =>
    rw [← Option.some.inj hstep]
    refine ⟨?_, fun hr => (by cases hr.1), ?_⟩
    · unfold sendSignal
      split <;> exact ⟨h, rfl, rfl, rfl⟩
    · intro i hi
      dsimp only
      unfold sendSignal
      split
      · change (p.context.pending ||| _).getLsbD i = true
        rw [BitVec.getLsbD_or, hi, Bool.true_or]
      · exact hi
  | processEvents force active ready =>
    cases force with
    | true => cases hplace
    | false =>
      obtain rfl := Option.some.inj hstep
      exact ⟨.refl h, fun hr => (by cases hr.1), fun i hi => hi⟩
  | setEip eip =>
    rw [← Option.some.inj hstep]
    refine ⟨?_, fun hr => (by cases hr.1), ?_⟩
    · unfold Context.setEip
      split
      · exact (h.changes .specMode (by decide) true).keeps (by decide) rfl rfl
      · exact ⟨h, rfl, rfl, rfl⟩
    · intro i hi
      dsimp only
      unfold Context.setEip
      split <;> exact hi
  | recover =>
    rw [step] at hstep
    split at hstep
    · rw [← Option.some.inj hstep]
      exact ⟨(h.changes .specMode (by decide) false).keeps (by decide) rfl rfl,
        fun hr => (by cases hr.1), fun i hi => hi⟩
    · obtain rfl := Option.some.inj hstep
      exact ⟨.refl h, fun hr => (by cases hr.1), fun i hi => hi⟩

end Steps

section Runs

variable {R : Type} {S : System R} {fuel : ℕ} {p p' q : Process R} {event : Event}
  {t t' : Trace R} {ret : Option Word}

/-- While a handler runs, the saved registers and the page for the return code are as expected. -/
structure Inv (fuel : ℕ) (t : Trace R) : Prop where
  alive : Alive t.process.context.state
  saved : t.process.context.state .handler = true → ∃ s, t.saved = some s ∧
    t.process.context.signal_regs = some s.regs ∧
    ∀ m m', m.Unmap fuel t.process.context.ret_code_ptr PageSize = some m' →
      mapped m = s.during → mapped m' = s.before

@[simp] lemma finish_state (ret : Option Word) (p : Process R) :
    (finish ret p).context.state = p.context.state := by
  unfold finish
  cases ret <;> split <;> rfl

@[simp] lemma finish_pending (ret : Option Word) (p : Process R) :
    (finish ret p).context.pending = p.context.pending := by
  unfold finish
  cases ret <;> split <;> rfl

@[simp] lemma finish_signal_regs (ret : Option Word) (p : Process R) :
    (finish ret p).context.signal_regs = p.context.signal_regs := by
  unfold finish
  cases ret <;> split <;> rfl

@[simp] lemma finish_ret_code_ptr (ret : Option Word) (p : Process R) :
    (finish ret p).context.ret_code_ptr = p.context.ret_code_ptr := by
  unfold finish
  cases ret <;> split <;> rfl

@[simp] lemma finish_memory (ret : Option Word) (p : Process R) :
    (finish ret p).context.memory = p.context.memory := by
  unfold finish
  cases ret <;> split <;> rfl

@[simp] lemma finish_eip (ret : Option Word) (p : Process R) :
    (finish ret p).context.regs.eip = p.context.regs.eip := by
  unfold finish
  cases ret <;> split <;> rfl

lemma finish_regs (ret : Option Word) (p : Process R) :
    (finish ret p).context.regs = if p.context.state .suspended then p.context.regs
      else ret.elim p.context.regs fun ret => { p.context.regs with eax := ret } := by
  unfold finish
  cases ret <;> split <;> rfl

lemma GoesOn.regs_awake {ready : Option (Word × Memory)} (h : GoesOn ready q p')
    (ret : Option Word) (hawake : q.context.state .suspended = false) :
    (finish ret p').context.regs = continued q ret := by
  rcases h.regs with ⟨hsame, hregs⟩ | ⟨hsusp, -⟩
  · rw [finish_regs, continued, hsame, hawake, hregs]
    rfl
  · rw [hawake] at hsusp
    cases hsusp

lemma GoesOn.regs_suspended {ready : Option (Word × Memory)} (h : GoesOn ready q p')
    (hret : ready ≠ none → ret = none) (hsusp : q.context.state .suspended = true) :
    (finish ret p').context.regs = q.context.regs ∨ ∃ v m, ready = some (v, m) ∧
      (finish ret p').context.regs = { q.context.regs with eax := v } := by
  rcases h.regs with ⟨hsame, hregs⟩ | ⟨-, v, m, hready, hregs⟩
  · left
    rw [finish_regs, hsame, hsusp, hregs]
    rfl
  · right
    refine ⟨v, m, hready, ?_⟩
    rw [hret (by rw [hready]; exact Option.some_ne_none _), finish_regs, ← hregs]
    split <;> rfl

lemma place_ready (hready : event.ready ≠ none)
    (hplace : place S fuel event p = some (q, ret)) : ret = none := by
  cases event with
  | processEvents force active ready =>
    cases force with
    | false => cases hplace
    | true => exact (Prod.mk.inj (Option.some.inj hplace)).2.symm
  | execute | signal | setEip | recover => exact absurd rfl hready

lemma place_returns (hreturns : Returns S event p)
    (hplace : place S fuel event p = some (q, ret)) : ret = none := by
  obtain ⟨rfl, -, -, hcode⟩ := hreturns
  simp only [place] at hplace
  split at hplace
  · obtain ⟨q', -, heq⟩ := Option.map_eq_some_iff.mp hplace
    exact (Prod.mk.inj heq).2.symm
  · cases hplace

lemma returned_of_reaches (hinv : Inv fuel t) (hreach : Reaches S fuel event t.process q)
    (hplace : place S fuel event t.process = some (q, ret)) (hreturns : Returns S event t.process) :
    ∃ q saved, place S fuel event t.process = some (q, none) ∧ t.saved = some saved ∧
      q.context.regs = saved.regs ∧
      (mapped t.process.context.memory = saved.during →
        mapped q.context.memory = saved.before) := by
  have hnone := place_returns hreturns hplace
  subst hnone
  cases hreach with
  | keeps hnot => exact absurd hreturns hnot
  | returns _ _ hhandler _ hsaved hpage =>
    obtain ⟨s, hs, hregs, hpages⟩ := hinv.saved hhandler
    rw [hsaved, Option.some.injEq] at hregs
    exact ⟨q, s, hplace, hs, hregs, hpages _ _ hpage⟩

lemma inv_of_reaches (hinv : Inv fuel t) (hreach : Reaches S fuel event t.process q)
    {ready : Option (Word × Memory)} (hgoes : GoesOn ready q p') :
    Inv fuel { t with process := finish ret p' } := by
  constructor
  · dsimp only
    rw [finish_state]
    exact hgoes.alive
  · intro hhandler
    dsimp only at hhandler ⊢
    rw [finish_state, hgoes.handling] at hhandler
    rw [finish_signal_regs, finish_ret_code_ptr, hgoes.saved, hgoes.page]
    cases hreach with
    | keeps _ hkeeps =>
      rw [hkeeps.saved, hkeeps.page]
      exact hinv.saved (hkeeps.handling.symm.trans hhandler)
    | returns _ _ _ hidle =>
      rw [hidle] at hhandler
      cases hhandler

/-- A step that meets the condition treats signals as it should, and keeps the invariant. -/
theorem traced_transparent (hfuel : 2 ^ 20 ≤ fuel) (hinv : Inv fuel t)
    (hfine : Fine S fuel event t.process) (h : traced S fuel event t = some t') :
    Inv fuel t' ∧ Transparent S fuel event t t' := by
  obtain ⟨p', hstep, rfl⟩ := Option.map_eq_some_iff.mp h
  cases hplace : place S fuel event t.process with
  | none =>
    obtain ⟨hkeeps, hnot, hpending⟩ := step_elsewhere hinv.alive hstep hplace
    refine ⟨⟨hkeeps.alive, fun hhandler => ?_⟩, ⟨?_, ?_, ?_, ?_⟩⟩
    · dsimp only at hhandler ⊢
      rw [hkeeps.saved, hkeeps.page]
      exact hinv.saved (hkeeps.handling.symm.trans hhandler)
    · intro q ret hsome
      rw [hplace] at hsome
      cases hsome
    · intro q ret hsome
      rw [hplace] at hsome
      cases hsome
    · exact fun _ => ⟨hkeeps.handling, hpending⟩
    · exact fun hreturns => absurd hreturns hnot
  | some pair =>
    obtain ⟨q, ret⟩ := pair
    obtain ⟨hreach, hwait, p₁, hevents, rfl⟩ := step_place hinv.alive hstep hplace
    have halive : Alive q.context.state := by
      cases hreach with
      | keeps _ hkeeps => exact hkeeps.alive
      | returns _ halive => exact halive
    have hunique (q' : Process R) (ret' : Option Word)
        (hsome : place S fuel event t.process = some (q', ret')) : q' = q ∧ ret' = ret := by
      rw [hplace, Option.some.injEq, Prod.mk.injEq] at hsome
      exact ⟨hsome.1.symm, hsome.2.symm⟩
    have hreturned := returned_of_reaches hinv hreach hplace
    have helsewhere : ¬ place S fuel event t.process = none := by
      rw [hplace]
      exact Option.some_ne_none _
    rcases processEvents_cases hfuel halive hwait hevents with hstarts | hignored | hgoes
    · obtain ⟨sig, htakes, hinstalled, hpending, heip⟩ := hstarts.signal
      obtain ⟨hspec, hframe, hret⟩ := (hfine q ret sig hplace htakes).2 hinstalled
      have hflag : starts q (finish ret p₁) = true := by
        unfold starts
        rw [finish_state, hstarts.idle, hstarts.handling]
        rfl
      have hcontinued : continued q ret = goesOn q := by
        unfold continued
        cases hsusp : q.context.state .suspended with
        | true => rfl
        | false =>
          rw [hret hsusp, goesOn, hsusp]
          rfl
      refine ⟨⟨?_, fun _ => ⟨_, if_pos hflag, ?_, ?_⟩⟩, ⟨?_, ?_, ?_, hreturned⟩⟩
      · dsimp only
        rw [finish_state]
        exact hstarts.alive
      · dsimp only
        rw [finish_signal_regs, hstarts.saved, hcontinued]
      · dsimp only
        rw [finish_ret_code_ptr, finish_memory]
        exact hstarts.pages hframe
      · intro q' ret' hsome _
        obtain ⟨rfl, rfl⟩ := hunique q' ret' hsome
        refine ⟨sig, htakes.lowest, ?_, ?_, ?_⟩
        · exact (finish_pending _ _).trans hpending
        · exact (finish_eip _ _).trans heip
        · rw [← hspec, ← hstarts.spec]
          exact congrFun (finish_state _ _) .specMode
      · intro q' ret' hsome hnot
        obtain ⟨rfl, rfl⟩ := hunique q' ret' hsome
        rw [hflag] at hnot
        cases hnot
      · exact fun hnone => absurd hnone helsewhere
    · obtain ⟨hsusp, sig, htakes, hzero⟩ := hignored
      have hawake := (hfine q ret sig hplace htakes).1 hzero
      rw [hsusp] at hawake
      cases hawake
    · have hflag : starts q (finish ret p₁) = false := by
        unfold starts
        rw [finish_state, hgoes.handling]
        cases q.context.state .handler <;> rfl
      have hsaved : (if starts q (finish ret p₁) = true then
          some (⟨continued q ret, mapped q.context.memory,
            mapped (finish ret p₁).context.memory⟩ : Saved R) else t.saved) = t.saved := by
        rw [hflag]
        rfl
      refine ⟨?_, ⟨?_, ?_, ?_, hreturned⟩⟩
      · dsimp only
        rw [hsaved]
        exact inv_of_reaches hinv hreach hgoes
      · intro q' ret' hsome hyes
        obtain ⟨rfl, rfl⟩ := hunique q' ret' hsome
        rw [hflag] at hyes
        cases hyes
      · intro q' ret' hsome _
        obtain ⟨rfl, rfl⟩ := hunique q' ret' hsome
        refine ⟨?_, ?_, ?_, ?_⟩
        · exact (congrFun (finish_state _ _) .handler).trans hgoes.handling
        · have hp : (finish ret' p₁).context.pending = p₁.context.pending := finish_pending _ _
          exact hgoes.pending.imp hp.trans fun hc => ⟨hc.1, hc.2.1, hp.trans hc.2.2⟩
        · exact hgoes.regs_awake ret'
        · exact hgoes.regs_suspended fun hready => place_ready hready hplace
      · exact fun hnone => absurd hnone helsewhere

/-- Along a run whose steps meet the condition, signals are transparent. -/
theorem run_transparent (hfuel : 2 ^ 20 ≤ fuel) {events : List Event} (hinv : Inv fuel t)
    (hfine : Along (traced S fuel) (fun event t => Fine S fuel event t.process) events t) :
    Along (traced S fuel)
      (fun event t => ∀ t', traced S fuel event t = some t' → Transparent S fuel event t t')
      events t := by
  induction events generalizing t with
  | nil => trivial
  | cons event events ih =>
    obtain ⟨hstep, hrest⟩ := hfine
    refine ⟨fun t' ht' => (traced_transparent hfuel hinv hstep ht').2, ?_⟩
    cases ht : traced S fuel event t with
    | none => trivial
    | some t' =>
      rw [ht] at hrest
      exact ih (traced_transparent hfuel hinv hstep ht).1 hrest

end Runs

/-- The program calls the system at `0x5000`, and its handler calls `sigreturn`. -/
def exampleSystem : System Unit where
  int80 _ r _ := r.eip = 0x5000 || r.eip = 0x7005
  exec _ r spec_mem := some ({ r with
    eax := SyscallCode_sigreturn
    eip := 0x7005 }, spec_mem)
  self pid := pid = 1
  call _ _ _ _ := none

def callsKill : Process Unit where
  context := { exampleContext with regs := { exampleContext.regs with
    eax := SyscallCode_kill
    ebx := 1
    ecx := 10 } }
  flags _ := 0
  backup := 0
  wait := none

lemma callsKill_alive : Alive callsKill.context.state := ⟨rfl, rfl, rfl⟩

end OISA.X86.Signals
