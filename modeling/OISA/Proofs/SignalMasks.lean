import OISA.Proofs.RobustLists
import OISA.Proofs.SignalDelivery

/-!
# Masks of signals

The blocked signals are those that the calls of `rt_sigprocmask` and `rt_sigsuspend` ask for.
-/

namespace OISA.X86.Signals

open OISA.Lib OISA.Memory OISA.X86.Contexts OISA.X86.Speculation

/-- The signals of a set on the host: signal `sig` is bit `sig - 1`. -/
def signals (set : BitVec 64) : Set ℕ :=
  {sig | (1 ≤ sig ∧ sig ≤ 64) ∧ set.getLsbD (sig - 1) = true}

def sigset (bytes : List UInt8) : Set ℕ :=
  {sig | (1 ≤ sig ∧ sig ≤ 64) ∧
    (bytes.getD ((sig - 1) / 8) 0).toNat.testBit ((sig - 1) % 8) = true}

lemma testBit_foldr (bytes : List UInt8) (i : ℕ) :
    (bytes.foldr (fun (b : UInt8) x => b.toNat + 256 * x) 0).testBit i =
      (bytes.getD (i / 8) 0).toNat.testBit (i % 8) := by
  induction bytes generalizing i with
  | nil => simp
  | cons b bytes ih =>
    have hbyte : b.toNat < 2 ^ 8 := b.toNat_lt
    rw [List.foldr_cons, Nat.add_comm]
    refine (Nat.testBit_two_pow_mul_add _ hbyte i).trans ?_
    by_cases hi : i < 8
    · rw [if_pos hi, Nat.div_eq_of_lt hi, Nat.mod_eq_of_lt hi, List.getD_cons_zero]
    · have hdiv : i / 8 = (i - 8) / 8 + 1 := by omega
      have hmod : i % 8 = (i - 8) % 8 := by omega
      rw [if_neg hi, ih, hdiv, hmod, List.getD_cons_succ]

lemma readSignalSet_spec {m m' : Memory} {a : Word} {set : BitVec 64}
    (h : readSignalSet m a = some (set, m')) :
    signals set = sigset (m.Read a (List.replicate 8 0)).buffer := by
  unfold readSignalSet at h
  dsimp only at h
  split at h
  · obtain ⟨rfl, -⟩ := Prod.mk.inj (Option.some.inj h)
    apply Set.ext
    intro sig
    apply and_congr_right
    intro hsig
    have hlt : sig - 1 < 64 := by omega
    rw [BitVec.getLsbD_ofNat, decide_eq_true hlt, Bool.true_and, testBit_foldr]
  · cases h

lemma sigset_signalSetObject : sigset signalSetObject = {7} := by
  apply Set.ext
  intro sig
  unfold sigset
  rw [Set.mem_ofPred_eq, Set.mem_singleton_iff]
  constructor
  · rintro ⟨⟨hpos, hle⟩, hbit⟩
    by_contra hne
    revert hbit
    interval_cases sig <;> first | exact absurd rfl hne | decide
  · rintro rfl
    decide

lemma bytes_store {m : Memory} {access : AccessType} {a : Word}
    (haccess : access = .Write ∨ access = .Init) {buffer : List UInt8}
    (hlen : buffer.length < 2 ^ 32) (h : (m.Access a buffer access).error = none) :
    (m.Access a buffer access).state.view.bytes a buffer.length = buffer := by
  apply List.ext_getElem
  · simp only [FlatMemory.bytes, List.length_map, List.length_range]
  · intro i hi hlt
    have hoffset : (a + BitVec.ofNat 32 i - a).toNat = i := by
      rw [BitVec.add_comm, BitVec.add_sub_cancel, BitVec.toNat_ofNat]
      exact Nat.mod_eq_of_lt (by omega)
    simp only [FlatMemory.bytes, List.getElem_map, List.getElem_range]
    rw [value_store haccess hlen.le h, hoffset, List.getD_eq_getElem?_getD,
      List.getElem?_eq_getElem hlt, Option.getD_some]

/-- The blocked signals of a program, and those that an interrupted `sigsuspend` restores -/
structure Masks where
  blocked : Set ℕ
  saved : Option (Set ℕ)

def masked (how : Word) (blocked set : Set ℕ) : Set ℕ :=
  if how = 0 then blocked ∪ set else if how = 1 then blocked \ set else set

section Purpose

variable {R : Type} (S : System R) (fuel : ℕ)

/-- The step executes a system call. -/
def Calls (code : Word) (event : Event) (p : Process R) : Prop :=
  event = .execute ∧ p.context.state .running = true ∧ executesSyscall S p = true ∧
    p.context.regs.eax = code

open Classical in
noncomputable def Masks.called (event : Event) (p : Process R) (m : Masks) : Masks :=
  let r := p.context.regs
  let set (a : Word) := sigset (p.context.memory.Read a (List.replicate 8 0)).buffer
  if Calls S SyscallCode_rt_sigprocmask event p then
    { m with blocked := if r.ecx = 0 then m.blocked else masked r.ebx m.blocked (set r.ecx) }
  else if Calls S SyscallCode_rt_sigsuspend event p then ⟨set r.ebx, some m.blocked⟩
  else m

/-- A context that is not suspended has the signals again that were in force before. -/
def Masks.resumed (p' : Process R) (m : Masks) : Masks :=
  if p'.context.state .suspended then m else ⟨m.saved.getD m.blocked, none⟩

structure MaskTrace (R : Type) where
  process : Process R
  masks : Masks

noncomputable def maskStep (event : Event) (t : MaskTrace R) : Option (MaskTrace R) :=
  (step S fuel event t.process).map fun p' =>
    ⟨p', (t.masks.called S event t.process).resumed p'⟩

def OldSetRight (event : Event) (t : MaskTrace R) : Prop :=
  Calls S SyscallCode_rt_sigprocmask event t.process → t.process.context.regs.edx ≠ 0 →
    ∀ q, rt_sigprocmask t.process.atSyscall = some q →
      sigset (q.context.memory.view.bytes t.process.context.regs.edx 8) = t.masks.blocked

/-- The blocked signals are those of the masks, and the old sets are right. -/
def MasksRight (events : List Event) (p : Process R) : Prop :=
  let t₀ : MaskTrace R := ⟨p, signals p.context.blocked, none⟩
  (∀ events', events' <+: events → ∀ t, run (maskStep S fuel) events' t₀ = some t →
    signals t.process.context.blocked = t.masks.blocked) ∧
  Along (maskStep S fuel) (OldSetRight S) events t₀

/-- The arguments with which `rt_sigprocmask` gets to write the old set -/
structure WritesOldSet (c : Context R) : Prop where
  set : c.regs.ecx ≠ 0 → c.regs.ebx.toNat ≤ 2 ∧
    (c.memory.Read c.regs.ecx (List.replicate 8 0)).error = none
  old : c.regs.edx ≠ 0 ∧ (c.memory.Write c.regs.edx signalSetObject).error = none

/-- No other system call waits as `sigsuspend` does. -/
def OwnSigsuspend : Prop := ∀ regs spec_mem handler flags call,
  S.call regs spec_mem handler flags = some call → call.outcome ≠ .inr .sigsuspend

/-- The condition: signal 7 alone is blocked when an old set is asked for. -/
def AsksForBus (event : Event) (p : Process R) : Prop :=
  Calls S SyscallCode_rt_sigprocmask event p → WritesOldSet p.context →
    signals p.context.blocked = {7}

end Purpose

section Steps

variable {R : Type} {S : System R} {fuel : ℕ} {p p' q : Process R} {event : Event} {m : Masks}

/-- What the checks of the signals keep, and what a `sigsuspend` that they interrupt restores -/
structure Checks (q p' : Process R) : Prop where
  alive : Alive p'.context.state
  backup : p'.backup = q.backup
  asleep : p'.context.state .suspended = true →
    q.context.state .suspended = true ∧ p'.wait = q.wait ∧ p'.context.blocked = q.context.blocked
  awake : p'.context.state .suspended = false → p'.context.blocked =
    if q.context.state .suspended = true ∧ q.wait = some .sigsuspend then q.backup
    else q.context.blocked

/-- The masks are right, also those that a blocked `sigsuspend` is to restore. -/
structure MaskInv (p : Process R) (m : Masks) : Prop where
  alive : Alive p.context.state
  blocked : signals p.context.blocked = m.blocked
  saved : m.saved = if p.context.state .suspended = true ∧ p.wait = some .sigsuspend then
    some (signals p.backup) else none

lemma MaskInv.saved_awake (h : MaskInv p m) (hawake : p.context.state .suspended = false) :
    m.saved = none := by
  rw [h.saved, hawake]
  exact if_neg fun hand => Bool.false_ne_true hand.1

lemma MaskInv.checks (h : MaskInv q m) (hchecks : Checks q p') : MaskInv p' (m.resumed p') := by
  unfold Masks.resumed
  by_cases hsusp : p'.context.state .suspended = true
  · obtain ⟨hq, hwait, hblocked⟩ := hchecks.asleep hsusp
    rw [if_pos hsusp]
    refine ⟨hchecks.alive, by rw [hblocked, h.blocked], ?_⟩
    rw [h.saved, hq, hsusp, hwait, hchecks.backup]
  · rw [if_neg hsusp]
    refine ⟨hchecks.alive, ?_, (if_neg fun hand => hsusp hand.1).symm⟩
    rw [hchecks.awake (Bool.eq_false_iff.mpr hsusp), h.saved]
    split
    · rfl
    · exact h.blocked

lemma Checks.of_eq (halive : Alive p'.context.state) (hbackup : p'.backup = q.backup)
    (hsusp : p'.context.state .suspended = q.context.state .suspended) (hwait : p'.wait = q.wait)
    (hblocked : p'.context.blocked = q.context.blocked) : Checks q p' := by
  refine ⟨halive, hbackup, fun h => ⟨hsusp ▸ h, hwait, hblocked⟩, fun h => ?_⟩
  rw [hblocked, if_neg]
  rintro ⟨hq, -⟩
  rw [hsusp, hq] at h
  cases h

lemma runSignalHandler_checks (h : Alive p.context.state) {sig : ℕ} {c' : Context R}
    (hrun : runSignalHandler fuel p.context sig = some c') :
    Alive c'.state ∧ c'.state .suspended = p.context.state .suspended ∧
      c'.blocked = p.context.blocked := by
  unfold runSignalHandler at hrun
  split at hrun
  · obtain rfl := Option.some.inj hrun
    exact ⟨h, rfl, rfl⟩
  · simp only [Option.bind_eq_bind, Option.bind_eq_some_iff, Option.pure_def, Option.some.injEq]
      at hrun
    obtain ⟨_, -, _, -, _, -, _, -, _, -, _, -, rfl⟩ := hrun
    have hstate := h.changes .handler (by decide) true
    exact ⟨hstate.alive, hstate.other .suspended (by decide) (by decide), rfl⟩

lemma launchHandlers_checks (h : Alive q.context.state) (hlaunch : launchHandlers fuel q = some p') :
    Checks q p' := by
  unfold launchHandlers at hlaunch
  split at hlaunch
  · obtain ⟨c', hcheck, rfl⟩ := Option.map_eq_some_iff.mp hlaunch
    unfold checkSignalHandler at hcheck
    split at hcheck
    · obtain rfl := Option.some.inj hcheck
      exact .of_eq h rfl rfl rfl rfl
    · split at hcheck
      · obtain rfl := Option.some.inj hcheck
        exact .of_eq h rfl rfl rfl rfl
      · obtain ⟨c₁, hhandler, rfl⟩ := Option.map_eq_some_iff.mp hcheck
        obtain ⟨halive, hsusp, hblocked⟩ := runSignalHandler_checks h hhandler
        exact .of_eq halive rfl hsusp rfl hblocked
  · obtain rfl := Option.some.inj hlaunch
    exact .of_eq h rfl rfl rfl rfl

lemma wakeup_checks {c : Context R} (halive : Alive c.state)
    (hsusp : q.context.state .suspended = true)
    (hblocked : c.blocked = if q.wait = some .sigsuspend then q.backup else q.context.blocked) :
    Checks q (Process.wakeup { q with context := c }) := by
  have hwoken := halive.changes .suspended (by decide) false
  refine ⟨hwoken.alive, rfl, fun h => ?_, fun _ => ?_⟩
  · rw [show (Process.wakeup { q with context := c }).context.state .suspended = false from
      hwoken.self] at h
    cases h
  · rw [hsusp]
    simp only [true_and]
    exact hblocked

lemma checkSignalHandlerIntr_checks (h : Alive q.context.state) {c' : Context R}
    (hcheck : checkSignalHandlerIntr fuel q.flags q.context = some c') :
    Alive c'.state ∧ c'.blocked = q.context.blocked := by
  simp only [checkSignalHandlerIntr, Option.bind_eq_bind, Option.bind_eq_some_iff,
    Option.pure_def, Option.some.injEq, Option.guard_eq_some'] at hcheck
  obtain ⟨_, -, sig, -, c₀, hread, c₁, hrun, rfl⟩ := hcheck
  have hkeeps : c₀.state = q.context.state ∧ c₀.blocked = q.context.blocked := by
    unfold readInt80 at hread
    split at hread
    · dsimp only at hread
      split at hread
      · obtain rfl := Option.some.inj hread
        exact ⟨rfl, rfl⟩
      · cases hread
    · obtain rfl := Option.some.inj hread
      exact ⟨rfl, rfl⟩
  obtain ⟨halive, -, hblocked⟩ := @runSignalHandler_checks _ fuel
    { q with context := { c₀ with regs := interrupted (q.flags sig) c₀.regs } }
    (by rw [← hkeeps.1] at h; exact h) sig _ hrun
  exact ⟨halive, hblocked.trans hkeeps.2⟩

lemma complete_checks (h : Alive q.context.state) (hsusp : q.context.state .suspended = true)
    (hwait : q.wait ≠ some .sigsuspend) (ready : Option (Word × Memory)) :
    Checks q (q.complete ready) := by
  cases ready with
  | none => exact .of_eq h rfl rfl rfl rfl
  | some ready => exact wakeup_checks h hsusp (if_neg hwait).symm

lemma resume_checks (h : Alive q.context.state) (hsusp : q.context.state .suspended = true)
    {thread_active : Bool} {ready : Option (Word × Memory)}
    (hresume : resume fuel thread_active ready q = some p') : Checks q p' := by
  have hsame : Checks q q := .of_eq h rfl rfl rfl rfl
  have hcall (hwait : q.wait ≠ some .sigsuspend)
      (hresume : (if thread_active then some q
        else if q.context.pendingSignal.isSome then
          (checkSignalHandlerIntr fuel q.flags q.context).map fun c =>
            Process.wakeup { q with context := c }
        else some (q.complete ready)) = some p') : Checks q p' := by
    split at hresume
    · obtain rfl := Option.some.inj hresume
      exact hsame
    · split at hresume
      · obtain ⟨c', hcheck, rfl⟩ := Option.map_eq_some_iff.mp hresume
        obtain ⟨halive, hblocked⟩ := checkSignalHandlerIntr_checks h hcheck
        exact wakeup_checks halive hsusp (hblocked.trans (if_neg hwait).symm)
      · obtain rfl := Option.some.inj hresume
        exact complete_checks h hsusp hwait ready
  unfold resume at hresume
  cases hw : q.wait with
  | none =>
    rw [hw] at hresume
    obtain rfl := Option.some.inj hresume
    exact hsame
  | some wait =>
    have hother (hne : wait ≠ .sigsuspend) : q.wait ≠ some .sigsuspend := by
      rw [hw]
      exact fun heq => hne (Option.some.inj heq)
    rw [hw] at hresume
    cases wait with
    | other =>
      obtain rfl := Option.some.inj hresume
      exact complete_checks h hsusp (hother (by decide)) ready
    | sigsuspend =>
      dsimp only at hresume
      split at hresume
      · obtain ⟨c', hcheck, rfl⟩ := Option.map_eq_some_iff.mp hresume
        exact wakeup_checks (checkSignalHandlerIntr_checks h hcheck).1 hsusp (if_pos hw).symm
      · obtain rfl := Option.some.inj hresume
        exact hsame
    | read => exact hcall (hother (by decide)) hresume
    | write => exact hcall (hother (by decide)) hresume
    | poll => exact hcall (hother (by decide)) hresume

lemma MaskInv.processEvents (h : MaskInv q m) {force thread_active : Bool}
    {ready : Option (Word × Memory)}
    (hevents : processEvents fuel force thread_active ready q = some p') :
    MaskInv p' (m.resumed p') := by
  unfold Signals.processEvents at hevents
  split at hevents
  · obtain ⟨q₁, hwake, hlaunch⟩ := Option.bind_eq_some_iff.mp hevents
    have hfirst : Checks q q₁ := by
      unfold wakeSuspended at hwake
      split at hwake
      · rename_i hsusp
        exact resume_checks h.alive hsusp hwake
      · obtain rfl := Option.some.inj hwake
        exact .of_eq h.alive rfl rfl rfl rfl
    have hsecond := launchHandlers_checks hfirst.alive hlaunch
    have htwice : (m.resumed q₁).resumed p' = m.resumed p' := by
      unfold Masks.resumed
      by_cases hsusp : p'.context.state .suspended = true
      · rw [if_pos hsusp, if_pos hsusp, if_pos (hsecond.asleep hsusp).1]
      · rw [if_neg hsusp, if_neg hsusp]
        split <;> rfl
    rw [← htwice]
    exact (h.checks hfirst).checks hsecond
  · obtain rfl := Option.some.inj hevents
    exact h.checks (.of_eq h.alive rfl rfl rfl rfl)

lemma signals_newBlocked {how : Word} {blocked set b : BitVec 64}
    (h : newBlocked how blocked set = some b) :
    how.toNat ≤ 2 ∧ signals b = masked how (signals blocked) (signals set) := by
  unfold newBlocked at h
  unfold masked
  split at h
  · rename_i hzero
    obtain rfl := Option.some.inj h
    obtain rfl : how = 0 := BitVec.eq_of_toNat_eq hzero
    rw [if_pos rfl]
    refine ⟨by decide, Set.ext fun sig => ?_⟩
    simp only [signals, Set.mem_ofPred_eq, Set.mem_union, BitVec.getLsbD_or, Bool.or_eq_true]
    tauto
  · rename_i hone
    obtain rfl := Option.some.inj h
    obtain rfl : how = 1 := BitVec.eq_of_toNat_eq hone
    rw [if_neg (by decide), if_pos rfl]
    refine ⟨by decide, Set.ext fun sig => ?_⟩
    simp only [signals, Set.mem_ofPred_eq, Set.mem_sdiff, BitVec.getLsbD_and, BitVec.getLsbD_not,
      Bool.and_eq_true, decide_eq_true_eq, Bool.not_eq_true']
    constructor
    · rintro ⟨hsig, hold, -, hnew⟩
      exact ⟨⟨hsig, hold⟩, fun hand => by rw [hnew] at hand; cases hand.2⟩
    · rintro ⟨⟨hsig, hold⟩, hnot⟩
      exact ⟨hsig, hold, by omega, Bool.eq_false_iff.mpr fun hnew => hnot ⟨hsig, hnew⟩⟩
  · rename_i htwo
    obtain rfl := Option.some.inj h
    obtain rfl : how = 2 := BitVec.eq_of_toNat_eq htwo
    rw [if_neg (by decide), if_neg (by decide)]
    exact ⟨by decide, rfl⟩
  · cases h

lemma changeBlocked_masked {how set_ptr : Word} {c c' : Context R}
    (h : changeBlocked how set_ptr c = some c') : c'.memory = c.memory ∧
      (set_ptr ≠ 0 → how.toNat ≤ 2 ∧ (c.memory.Read set_ptr (List.replicate 8 0)).error = none) ∧
      signals c'.blocked = if set_ptr = 0 then signals c.blocked
        else masked how (signals c.blocked)
          (sigset (c.memory.Read set_ptr (List.replicate 8 0)).buffer) := by
  unfold changeBlocked at h
  split at h
  · rename_i hzero
    obtain rfl := Option.some.inj h
    exact ⟨rfl, fun hne => absurd hzero hne, (if_pos hzero).symm⟩
  · rename_i hne
    simp only [Option.bind_eq_bind, Option.bind_eq_some_iff, Option.pure_def,
      Option.some.injEq] at h
    obtain ⟨⟨set, m⟩, hread, blocked, hnew, rfl⟩ := h
    obtain ⟨hhow, hblocked⟩ := signals_newBlocked hnew
    rw [readSignalSet_spec hread] at hblocked
    have herror : (c.memory.Read set_ptr (List.replicate 8 0)).error = none ∧ m = c.memory := by
      unfold readSignalSet at hread
      dsimp only at hread
      split at hread
      · rename_i hnone
        obtain ⟨-, rfl⟩ := Prod.mk.inj (Option.some.inj hread)
        exact ⟨Option.isNone_iff_eq_none.mp hnone, AddressSpace.read_state _ _ _⟩
      · cases hread
    rw [if_neg hne]
    exact ⟨herror.2, fun _ => ⟨hhow, herror.1⟩, hblocked⟩

lemma writeBlocked_spec {old_set_ptr : Word} {c c' : Context R}
    (h : writeBlocked old_set_ptr c = some c') : c'.blocked = c.blocked ∧
      (old_set_ptr ≠ 0 → (c.memory.Write old_set_ptr signalSetObject).error = none ∧
        c'.memory = (c.memory.Write old_set_ptr signalSetObject).state) := by
  unfold writeBlocked at h
  split at h
  · rename_i hzero
    obtain rfl := Option.some.inj h
    exact ⟨rfl, fun hne => absurd hzero hne⟩
  · dsimp only at h
    split at h
    · rename_i hnone
      obtain rfl := Option.some.inj h
      exact ⟨rfl, fun _ => ⟨Option.isNone_iff_eq_none.mp hnone, rfl⟩⟩
    · cases h

lemma rt_sigprocmask_spec (h : rt_sigprocmask p = some q) :
    q.context.state = p.context.state ∧ q.backup = p.backup ∧ q.wait = p.wait ∧
    signals q.context.blocked = (if p.context.regs.ecx = 0 then signals p.context.blocked
      else masked p.context.regs.ebx (signals p.context.blocked)
        (sigset (p.context.memory.Read p.context.regs.ecx (List.replicate 8 0)).buffer)) ∧
    (p.context.regs.edx ≠ 0 → WritesOldSet p.context ∧
      q.context.memory.view.bytes p.context.regs.edx 8 = signalSetObject) := by
  simp only [rt_sigprocmask, Option.bind_eq_bind, Option.bind_eq_some_iff, Option.pure_def,
    Option.some.injEq] at h
  obtain ⟨c₁, hchange, c₂, hwrite, rfl⟩ := h
  obtain ⟨hmemory, hset, hmasked⟩ := changeBlocked_masked hchange
  obtain ⟨hsame, hold⟩ := writeBlocked_spec hwrite
  rw [hmemory] at hold
  refine ⟨?_, rfl, rfl, (congrArg signals hsame).trans hmasked, fun hne => ?_⟩
  · exact (writeBlocked_keeps hwrite).1.trans (changeBlocked_keeps hchange).1
  · obtain ⟨herror, hbytes⟩ := hold hne
    refine ⟨⟨hset, hne, herror⟩, ?_⟩
    rw [show ({ p with context := c₂ } : Process R).context.memory = _ from hbytes]
    exact bytes_store (.inl rfl) (show signalSetObject.length < 2 ^ 32 by decide) herror

lemma rt_sigprocmask_isSome (h : WritesOldSet p.context) : (rt_sigprocmask p).isSome := by
  have hchange : ∃ c, changeBlocked p.context.regs.ebx p.context.regs.ecx p.context = some c := by
    unfold changeBlocked
    split
    · exact ⟨_, rfl⟩
    · rename_i hne
      obtain ⟨hhow, hread⟩ := h.set hne
      have hnew (set : BitVec 64) :
          ∃ b, newBlocked p.context.regs.ebx p.context.blocked set = some b := by
        unfold newBlocked
        generalize p.context.regs.ebx.toNat = how at hhow
        interval_cases how <;> exact ⟨_, rfl⟩
      simp only [readSignalSet, hread, Option.isNone_none, if_true, Option.bind_eq_bind,
        Option.bind_some]
      obtain ⟨b, hb⟩ := hnew _
      exact ⟨_, by rw [hb]; rfl⟩
  obtain ⟨c, hc⟩ := hchange
  have hwrite : ∃ c', writeBlocked p.context.regs.edx c = some c' := by
    unfold writeBlocked
    rw [if_neg h.old.1]
    dsimp only
    rw [(changeBlocked_masked hc).1, h.old.2]
    exact ⟨_, rfl⟩
  obtain ⟨c', hc'⟩ := hwrite
  simp only [rt_sigprocmask, hc, hc', Option.bind_eq_bind, Option.bind_some]
  rfl

lemma called_eq (hmask : ¬ Calls S SyscallCode_rt_sigprocmask event p)
    (hsuspend : ¬ Calls S SyscallCode_rt_sigsuspend event p) : m.called S event p = m := by
  rw [Masks.called, if_neg hmask, if_neg hsuspend]

/-- The system calls up to `ProcessEvents` -/
lemma MaskInv.beforeEvents (h : MaskInv p m) (hrun : p.context.state .running = true)
    (hawake : p.context.state .suspended = false) (hsyscall : executesSyscall S p = true)
    (hbefore : beforeEvents S fuel p.atSyscall = some q) : MaskInv q (m.called S .execute p) := by
  have hsaved := h.saved_awake hawake
  have hother (hmask : p.context.regs.eax ≠ SyscallCode_rt_sigprocmask)
      (hsuspend : p.context.regs.eax ≠ SyscallCode_rt_sigsuspend) : m.called S .execute p = m :=
    called_eq (fun hc => hmask hc.2.2.2) fun hc => hsuspend hc.2.2.2
  have hkill (pid sig : Word) : MaskInv (if S.self pid then
      { p.atSyscall with context := sendSignal p.atSyscall.context sig.toNat }
      else p.atSyscall) m := by
    split
    · unfold sendSignal
      split <;> exact ⟨h.alive, h.blocked, h.saved⟩
    · exact ⟨h.alive, h.blocked, h.saved⟩
  unfold Signals.beforeEvents at hbefore
  dsimp only at hbefore
  split at hbefore
  · rename_i hkillCode
    have heax : p.context.regs.eax = SyscallCode_kill := hkillCode
    rw [hother (by rw [heax]; decide) (by rw [heax]; decide), ← Option.some.inj hbefore]
    exact hkill _ _
  split at hbefore
  · rename_i htgkill
    have heax : p.context.regs.eax = SyscallCode_tgkill := htgkill
    rw [hother (by rw [heax]; decide) (by rw [heax]; decide), ← Option.some.inj hbefore]
    exact hkill _ _
  split at hbefore
  · rename_i hmask
    have hcalls : Calls S SyscallCode_rt_sigprocmask .execute p := ⟨rfl, hrun, hsyscall, hmask⟩
    obtain ⟨hstate, hbackup, hwait, hblocked, -⟩ := rt_sigprocmask_spec hbefore
    have hstate' : q.context.state = p.context.state := hstate
    rw [Masks.called, if_pos hcalls]
    refine ⟨by rw [hstate']; exact h.alive, ?_, ?_⟩
    · rw [hblocked, ← h.blocked]
      rfl
    · rw [hstate', hawake]
      exact hsaved.trans (if_neg fun hand => Bool.false_ne_true hand.1).symm
  split at hbefore
  · rename_i hmask hsuspend
    have hcalls : Calls S SyscallCode_rt_sigsuspend .execute p :=
      ⟨rfl, hrun, hsyscall, hsuspend⟩
    simp only [rt_sigsuspend, Option.bind_eq_bind, Option.bind_eq_some_iff, Option.pure_def,
      Option.some.injEq, Option.guard_eq_some'] at hbefore
    obtain ⟨⟨set, m'⟩, hread, _, -, rfl⟩ := hbefore
    have hstate := h.alive.changes .suspended (by decide) true
    rw [Masks.called, if_neg fun hc => hmask hc.2.2.2, if_pos hcalls]
    refine ⟨hstate.alive, readSignalSet_spec hread, ?_⟩
    rw [← h.blocked]
    exact (if_pos ⟨hstate.self, rfl⟩).symm
  · rename_i hk ht hm hs
    obtain ⟨c, hreturn, rfl⟩ := Option.map_eq_some_iff.mp hbefore
    simp only [returnFromSignalHandler, Option.bind_eq_bind, Option.bind_eq_some_iff,
      Option.pure_def, Option.some.injEq] at hreturn
    obtain ⟨_, -, m', -, regs, -, rfl⟩ := hreturn
    have hstate := h.alive.changes .handler (by decide) false
    have hsusp : (p.context.clearState .handler).state .suspended = false :=
      (hstate.other .suspended (by decide) (by decide)).trans hawake
    rw [hother hm hs]
    refine ⟨hstate.alive, h.blocked, hsaved.trans (if_neg ?_).symm⟩
    rintro ⟨hsusp', -⟩
    exact Bool.false_ne_true (hsusp.symm.trans hsusp')

lemma MaskInv.step (hS : OwnSigsuspend S) (h : MaskInv p m)
    (hstep : step S fuel event p = some p') :
    MaskInv p' ((m.called S event p).resumed p') := by
  have hkeeps (halive : Alive p'.context.state) (hbackup : p'.backup = p.backup)
      (hsusp : p'.context.state .suspended = p.context.state .suspended)
      (hwait : p'.wait = p.wait) (hblocked : p'.context.blocked = p.context.blocked)
      (hnot : ∀ code ∈ [SyscallCode_rt_sigprocmask, SyscallCode_rt_sigsuspend],
        ¬ Calls S code event p) : MaskInv p' ((m.called S event p).resumed p') := by
    rw [called_eq (hnot _ (by simp)) (hnot _ (by simp))]
    exact h.checks (.of_eq halive hbackup hsusp hwait hblocked)
  cases event with
  | execute =>
    simp only [Signals.step, Option.bind_eq_bind, Option.bind_eq_some_iff,
      Option.guard_eq_some'] at hstep
    obtain ⟨_, hrun, hstep⟩ := hstep
    have hawake : p.context.state .suspended = false := by
      rw [h.alive.running, Bool.and_eq_true, Bool.not_eq_true'] at hrun
      exact hrun.1
    split at hstep
    · rename_i hsyscall
      by_cases hcode : processesEvents p.context.regs.eax = true
      · have hcode' : processesEvents p.atSyscall.context.regs.eax = true := hcode
        simp only [executeSyscall, hcode', if_true, Option.bind_eq_bind, Option.bind_eq_some_iff,
          Option.pure_def, Option.some.injEq] at hstep
        obtain ⟨q, hbefore, p₁, hevents, rfl⟩ := hstep
        have hend := (h.beforeEvents hrun hawake hsyscall hbefore).processEvents hevents
        split <;> exact ⟨hend.alive, hend.blocked, hend.saved⟩
      · have hcode' : processesEvents p.atSyscall.context.regs.eax = false :=
          Bool.eq_false_iff.mpr hcode
        have hnot : ∀ code ∈ [SyscallCode_rt_sigprocmask, SyscallCode_rt_sigsuspend],
            ¬ Calls S code .execute p := by
          intro code hmem hc
          apply hcode
          rw [hc.2.2.2]
          rw [List.mem_cons, List.mem_singleton] at hmem
          rcases hmem with rfl | rfl <;> rfl
        simp only [executeSyscall, hcode', Bool.false_eq_true, if_false, Option.bind_eq_bind,
          Option.bind_eq_some_iff] at hstep
        obtain ⟨call, hcall, hstep⟩ := hstep
        split at hstep
        · obtain rfl := Option.some.inj hstep
          apply hkeeps _ _ _ _ _ hnot <;> split <;> first | exact h.alive | rfl
        · rename_i wait hwait
          obtain rfl := Option.some.inj hstep
          have hstate := h.alive.changes .suspended (by decide) true
          have hown : wait ≠ .sigsuspend := fun heq => hS _ _ _ _ _ hcall (heq ▸ hwait)
          rw [called_eq (hnot _ (by simp)) (hnot _ (by simp)), Masks.resumed]
          refine Eq.mpr (congrArg _ (if_pos hstate.self)) ?_
          refine ⟨hstate.alive, h.blocked, (h.saved_awake hawake).trans (if_neg ?_).symm⟩
          exact fun hand => hown (Option.some.inj hand.2)
    · rename_i hsyscall
      have hnot : ∀ code ∈ [SyscallCode_rt_sigprocmask, SyscallCode_rt_sigsuspend],
          ¬ Calls S code .execute p := fun _ _ hc => hsyscall hc.2.2.1
      split at hstep
      · obtain rfl := Option.some.inj hstep
        exact hkeeps h.alive rfl rfl rfl rfl hnot
      · simp only [Option.bind_eq_some_iff, Option.pure_def, Option.some.injEq] at hstep
        obtain ⟨_, -, rfl⟩ := hstep
        exact hkeeps h.alive rfl rfl rfl rfl hnot
  | signal sig =>
    obtain rfl := Option.some.inj hstep
    have hsame : (sendSignal p.context sig).state = p.context.state ∧
        (sendSignal p.context sig).blocked = p.context.blocked := by
      unfold sendSignal
      split <;> exact ⟨rfl, rfl⟩
    exact hkeeps (by rw [hsame.1]; exact h.alive) rfl (by rw [hsame.1]) rfl hsame.2
      fun _ _ hc => by cases hc.1
  | processEvents force active ready =>
    rw [called_eq (fun hc => by cases hc.1) fun hc => by cases hc.1]
    exact h.processEvents hstep
  | setEip eip =>
    obtain rfl := Option.some.inj hstep
    have hstate := h.alive.changes .specMode (by decide) true
    have hsame : Alive (p.context.setEip eip).state ∧
        (p.context.setEip eip).state .suspended = p.context.state .suspended ∧
        (p.context.setEip eip).blocked = p.context.blocked := by
      unfold Context.setEip
      split
      · exact ⟨hstate.alive, hstate.other .suspended (by decide) (by decide), rfl⟩
      · exact ⟨h.alive, rfl, rfl⟩
    exact hkeeps hsame.1 rfl hsame.2.1 rfl hsame.2.2 fun _ _ hc => by cases hc.1
  | recover =>
    have hstate := h.alive.changes .specMode (by decide) false
    rw [Signals.step] at hstep
    split at hstep
    · obtain rfl := Option.some.inj hstep
      exact hkeeps hstate.alive rfl (hstate.other .suspended (by decide) (by decide)) rfl rfl
        fun _ _ hc => by cases hc.1
    · obtain rfl := Option.some.inj hstep
      exact hkeeps h.alive rfl rfl rfl rfl fun _ _ hc => by cases hc.1

lemma oldSetRight_iff {t : MaskTrace R} (h : MaskInv t.process t.masks) :
    OldSetRight S event t ↔ AsksForBus S event t.process := by
  have hwritten {q : Process R} (hne : t.process.context.regs.edx ≠ 0)
      (hq : rt_sigprocmask t.process.atSyscall = some q) :
      sigset (q.context.memory.view.bytes t.process.context.regs.edx 8) = {7} := by
    have hbytes := ((rt_sigprocmask_spec hq).2.2.2.2 hne).2
    rw [← sigset_signalSetObject, ← hbytes]
    rfl
  constructor
  · intro hright hcalls hwrites
    obtain ⟨q, hq⟩ := Option.isSome_iff_exists.mp
      (rt_sigprocmask_isSome (p := t.process.atSyscall) ⟨hwrites.set, hwrites.old⟩)
    rw [h.blocked, ← hright hcalls hwrites.old.1 q hq, hwritten hwrites.old.1 hq]
  · intro hcondition hcalls hne q hq
    have hwrites := ((rt_sigprocmask_spec hq).2.2.2.2 hne).1
    rw [hwritten hne hq, ← h.blocked, hcondition hcalls ⟨hwrites.set, hwrites.old⟩]

end Steps

/-- The masks of a program are right in exactly the runs where signal 7 alone is blocked whenever
an old set is asked for. -/
theorem signalMasks_iff {R : Type} {S : System R} (hS : OwnSigsuspend S) (fuel : ℕ)
    {p : Process R} (halive : Alive p.context.state)
    (hawake : p.context.state .suspended = false) (events : List Event) :
    MasksRight S fuel events p ↔ Along (maskStep S fuel)
      (fun event t => AsksForBus S event t.process) events ⟨p, signals p.context.blocked, none⟩ := by
  have hstart : MaskInv p ⟨signals p.context.blocked, none⟩ := by
    refine ⟨halive, rfl, ?_⟩
    rw [hawake]
    exact (if_neg fun hand => Bool.false_ne_true hand.1).symm
  have hstep (event : Event) (t t' : MaskTrace R) (h : MaskInv t.process t.masks)
      (ht' : maskStep S fuel event t = some t') : MaskInv t'.process t'.masks := by
    obtain ⟨p', hp', rfl⟩ := Option.map_eq_some_iff.mp ht'
    exact h.step hS hp'
  have holdSets : Along (maskStep S fuel) (OldSetRight S) events
      ⟨p, signals p.context.blocked, none⟩ ↔ Along (maskStep S fuel)
      (fun event t => AsksForBus S event t.process) events ⟨p, signals p.context.blocked, none⟩ := by
    apply along_iff (fun event t => oldSetRight_iff)
    · exact fun event t t' h _ => hstep event t t' h
    · exact hstart
  refine ⟨fun h => holdSets.mp h.2, fun h => ⟨?_, holdSets.mpr h⟩⟩
  intro events' _ t hrun
  exact (run_invariant (fun event t t' h _ => hstep event t t' h) hstart
    (along_of_forall (P := fun _ _ => True) (fun _ _ => trivial) _ _) hrun).blocked

/-- A process without blocked signals that calls `rt_sigprocmask` with no new set -/
def asksForOldSet (old_set_ptr : Word) : Process Unit :=
  { callsKill with context := { exampleContext with regs := { exampleContext.regs with
      eax := SyscallCode_rt_sigprocmask
      edx := old_set_ptr } } }

lemma exampleSystem_own : OwnSigsuspend exampleSystem := by
  intro regs spec_mem handler flags call h
  cases h

theorem signalMasks_noOldSet :
    MasksRight exampleSystem (2 ^ 20) [.execute] (asksForOldSet 0) := by
  refine (signalMasks_iff exampleSystem_own _ ⟨rfl, rfl, rfl⟩ rfl _).mpr ⟨?_, ?_⟩
  · exact fun _ h => absurd rfl h.old.1
  · cases maskStep exampleSystem (2 ^ 20) .execute
      ⟨asksForOldSet 0, signals (asksForOldSet 0).context.blocked, none⟩ <;> trivial

/-- No signal is blocked, and the old set that is written on the stack is signal 7. -/
theorem signalMasks_oldSet :
    ¬ MasksRight exampleSystem (2 ^ 20) [.execute] (asksForOldSet 0x8700) := by
  intro h
  have hinv : MaskInv (asksForOldSet 0x8700)
      ⟨signals (asksForOldSet 0x8700).context.blocked, none⟩ := ⟨⟨rfl, rfl, rfl⟩, rfl, rfl⟩
  have hcondition := (oldSetRight_iff hinv).mp h.2.1
  have hseven : 7 ∈ signals (asksForOldSet 0x8700).context.blocked := by
    rw [hcondition ⟨rfl, rfl, rfl, rfl⟩
      ⟨fun hne => absurd rfl hne, by decide, by decide +kernel⟩]
    exact rfl
  exact absurd hseven.2 (by decide)

end OISA.X86.Signals
