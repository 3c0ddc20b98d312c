import OISA.Proofs.RegisterBooks

/-!
# Renamed uops as a log

Renaming an uop writes its outputs to the alias tables, first the registers and then the flags,
and undoing it goes through the outputs backwards.
-/

namespace OISA.X86.RegisterFile

open OISA.Lib Uinst

def Uop.outputAt (uop : Uop) (top : ℕ) (kind : RegisterKind) (dep : ℕ) :
    Option (LoggedWrite ℕ ℕ) :=
  if RegisterKind.ofDep (uop.uinst.odep dep) = some kind then
    (uop.outputs dep).bind fun new => (uop.old_outputs dep).map fun old =>
      ⟨position top (uop.uinst.odep dep) kind, new, old⟩
  else none

/-- The writes of one kind, where `top` is the top of the stack after the uop. -/
def Uop.log (uop : Uop) (top : ℕ) (kind : RegisterKind) (deps : List ℕ) :
    List (LoggedWrite ℕ ℕ) :=
  deps.filterMap (uop.outputAt top kind)

/-- The writes of the uops of a reorder buffer. -/
def log (kind : RegisterKind) : ℕ → List Uop → List (LoggedWrite ℕ ℕ)
  | _, [] => []
  | top, uop :: rest =>
    uop.log top kind (List.range MaxODeps).reverse ++
      log kind (undoPushPop uop.uinst.opcode top) rest

def topBefore (top : ℕ) : List Uop → ℕ
  | [] => top
  | uop :: rest => topBefore (undoPushPop uop.uinst.opcode top) rest

def Uop.Renamed (uop : Uop) : Prop :=
  ∀ dep < MaxODeps,
    ((RegisterKind.ofDep (uop.uinst.odep dep)).isSome = (uop.outputs dep).isSome) ∧
      (RegisterKind.ofDep (uop.uinst.odep dep)).isSome = (uop.old_outputs dep).isSome

def Uop.HasOutput (uop : Uop) (kind : RegisterKind) (p : ℕ) : Prop :=
  ∃ dep < MaxODeps, RegisterKind.ofDep (uop.uinst.odep dep) = some kind ∧ uop.outputs dep = some p

@[simp] lemma log_nil (uop : Uop) (top : ℕ) (kind : RegisterKind) : uop.log top kind [] = [] :=
  rfl

lemma log_append (kind : RegisterKind) (top : ℕ) (us vs : List Uop) :
    log kind top (us ++ vs) = log kind top us ++ log kind (topBefore top us) vs := by
  induction us generalizing top with
  | nil => rfl
  | cons u us ih => rw [List.cons_append, log, log, ih, topBefore, List.append_assoc]

lemma isIntegerDependency_iff {dep : ℕ} :
    isIntegerDependency dep = true ↔ 1 ≤ dep ∧ dep ≤ 22 := decide_eq_true_iff

lemma isXmmDependency_iff {dep : ℕ} : isXmmDependency dep = true ↔ 34 ≤ dep ∧ dep ≤ 42 :=
  decide_eq_true_iff

lemma isFlagDependency_iff {dep : ℕ} : isFlagDependency dep = true ↔ 15 ≤ dep ∧ dep ≤ 18 :=
  decide_eq_true_iff

lemma position_mem {dep : ℕ} {kind : RegisterKind} (h : RegisterKind.ofDep dep = some kind)
    (top : ℕ) : position top dep kind ∈ Finset.range kind.depCount := by
  rw [Finset.mem_range]
  unfold RegisterKind.ofDep at h
  split at h
  · next hint =>
    cases h
    rw [isIntegerDependency_iff] at hint
    simp only [position, RegisterKind.depCount, DepIntCount, DepIntFirst, DepIntLast]
    omega
  · split at h
    · cases h
      simp only [position, stackRegister, RegisterKind.depCount, DepFpCount, DepFpFirst, DepFpLast]
      omega
    · split at h
      · next hxmm =>
        cases h
        rw [isXmmDependency_iff] at hxmm
        simp only [position, RegisterKind.depCount, DepXmmCount, DepXmmFirst, DepXmmLast]
        omega
      · cases h

lemma ofDep_of_isFlag {dep : ℕ} (h : isFlagDependency dep = true) :
    RegisterKind.ofDep dep = some .Integer := by
  rw [isFlagDependency_iff] at h
  rw [RegisterKind.ofDep, if_pos (isIntegerDependency_iff.mpr (by omega))]

lemma isFlag_of_position {dep top : ℕ} {kind : RegisterKind}
    (h : RegisterKind.ofDep dep = some kind) :
    isFlagDependency dep =
      (decide (kind = .Integer) && isFlagDependency (position top dep kind + DepIntFirst)) := by
  unfold RegisterKind.ofDep at h
  split at h
  · next hint =>
    cases h
    rw [isIntegerDependency_iff] at hint
    have hdep : position top dep .Integer + DepIntFirst = dep := by
      simp only [position, DepIntFirst]
      omega
    rw [hdep]
    simp
  · next hint =>
    have hflag : isFlagDependency dep = false := by
      by_contra hflag
      rw [Bool.not_eq_false] at hflag
      have hkind := ofDep_of_isFlag hflag
      rw [RegisterKind.ofDep, if_neg hint] at hkind
      split at hkind
      · cases hkind
      · split at hkind
        · cases hkind
        · cases hkind
    rw [hflag]
    split at h
    · cases h
      rfl
    · split at h
      · cases h
        rfl
      · cases h

lemma filterMap_parts {α β : Type} {g : α → Option β} {part : α → Bool} {c : Bool}
    (h : ∀ a, (g a).isSome → part a = c) (as : List α) :
    (as.filter part ++ as.filter fun a => !part a).filterMap g = as.filterMap g := by
  have hnone : ∀ a, part a ≠ c → g a = none := fun a ha => by
    by_contra hg
    exact ha (h a (Option.ne_none_iff_isSome.mp hg))
  induction as with
  | nil => rfl
  | cons a as ih =>
    rw [List.filterMap_append] at ih ⊢
    by_cases hpart : part a = c
    · cases c with
      | true =>
        have hempty : (as.filter fun a => !part a).filterMap g = [] := by
          refine List.filterMap_eq_nil_iff.mpr fun b hb => hnone b ?_
          simpa using (List.mem_filter.mp hb).2
        rw [hempty, List.append_nil] at ih
        rw [List.filter_cons_of_pos hpart, List.filter_cons_of_neg (by simp [hpart]), hempty,
          List.append_nil, List.filterMap_cons, List.filterMap_cons, ih]
      | false =>
        have hempty : (as.filter part).filterMap g = [] := by
          refine List.filterMap_eq_nil_iff.mpr fun b hb => hnone b ?_
          simpa using (List.mem_filter.mp hb).2
        rw [hempty, List.nil_append] at ih
        rw [List.filter_cons_of_neg (by simp [hpart]), List.filter_cons_of_pos (by simp [hpart]),
          hempty, List.nil_append, List.filterMap_cons, List.filterMap_cons, ih]
    · have ha := hnone a hpart
      cases hp : part a with
      | true =>
        rw [List.filter_cons_of_pos hp, List.filter_cons_of_neg (by simp [hp]),
          List.filterMap_cons_none ha, List.filterMap_cons_none ha, ih]
      | false =>
        rw [List.filter_cons_of_neg (by simp [hp]), List.filter_cons_of_pos (by simp [hp]),
          List.filterMap_cons_none ha, List.filterMap_cons_none ha, ih]

def renameOrder (uop : Uop) (deps : List ℕ) : List ℕ :=
  (deps.filter fun dep => isFlagDependency (uop.uinst.odep dep)) ++
    deps.filter fun dep => !isFlagDependency (uop.uinst.odep dep)

lemma history_renameOrder (uop : Uop) (top : ℕ) (kind : RegisterKind) (deps : List ℕ) (l : ℕ) :
    history l (uop.log top kind (renameOrder uop deps)) = history l (uop.log top kind deps) := by
  simp only [history, Uop.log, List.filter_filterMap]
  refine filterMap_parts (c := decide (kind = .Integer) && isFlagDependency (l + DepIntFirst))
    (fun dep hsome => ?_) deps
  obtain ⟨w, hw⟩ := Option.isSome_iff_exists.mp hsome
  rw [Option.filter_eq_some_iff, decide_eq_true_eq] at hw
  obtain ⟨hw, hl⟩ := hw
  unfold Uop.outputAt at hw
  split at hw
  · next hkind =>
    simp only [Option.bind_eq_some_iff, Option.map_eq_some_iff] at hw
    obtain ⟨new, -, old, -, rfl⟩ := hw
    rw [← hl]
    exact isFlag_of_position hkind
  · cases hw

@[simp] lemma setBank_self (f : RegisterFile) (kind : RegisterKind) (b : Bank) :
    (f.setBank kind b).bank kind = b := Function.update_self ..

lemma setBank_of_ne (f : RegisterFile) {kind kind' : RegisterKind} (h : kind' ≠ kind) (b : Bank) :
    (f.setBank kind b).bank kind' = f.bank kind' := Function.update_of_ne h _ _

lemma outputAt_eq_none {uop : Uop} {dep : ℕ} {kind : RegisterKind}
    (h : RegisterKind.ofDep (uop.uinst.odep dep) ≠ some kind) (top : ℕ) :
    uop.outputAt top kind dep = none := if_neg h

lemma outputAt_setOutput_of_ne (uop : Uop) (top : ℕ) (kind : RegisterKind) {dep d : ℕ}
    (h : d ≠ dep) (new old : Option ℕ) :
    (uop.setOutput dep new old).outputAt top kind d = uop.outputAt top kind d := by
  simp only [Uop.outputAt, Uop.setOutput, Function.update_of_ne h]

lemma log_setOutput (uop : Uop) (top : ℕ) (kind : RegisterKind) {dep : ℕ} {deps : List ℕ}
    (h : dep ∉ deps) (new old : Option ℕ) :
    (uop.setOutput dep new old).log top kind deps = uop.log top kind deps := by
  refine List.filterMap_congr fun d hd => ?_
  exact outputAt_setOutput_of_ne uop top kind (fun heq : d = dep => h (heq ▸ hd)) new old

lemma log_cons_none {uop : Uop} {top dep : ℕ} {kind : RegisterKind}
    (h : RegisterKind.ofDep (uop.uinst.odep dep) ≠ some kind) (deps : List ℕ) :
    uop.log top kind (dep :: deps) = uop.log top kind deps :=
  List.filterMap_cons_none (outputAt_eq_none h top)

lemma log_cons_some {uop : Uop} {top dep new old : ℕ} {kind : RegisterKind}
    (h : RegisterKind.ofDep (uop.uinst.odep dep) = some kind) (hnew : uop.outputs dep = some new)
    (hold : uop.old_outputs dep = some old) (deps : List ℕ) :
    uop.log top kind (dep :: deps) =
      ⟨position top (uop.uinst.odep dep) kind, new, old⟩ :: uop.log top kind deps := by
  refine List.filterMap_cons_some ?_
  rw [Uop.outputAt, if_pos h, hnew, hold]
  rfl

/-- The outputs of `done` are renamed, the youngest first: `f₀` is the register file of before, and
`logs` are the writes in flight there. -/
structure Partway (size : RegisterKind → ℕ) (f₀ : RegisterFile) (logs : RegisterKind → List (LoggedWrite ℕ ℕ))
    (held : RegisterKind → Option ℕ) (done : List ℕ) (uop₀ : Uop) (s : Renaming) : Prop where
  uinst : s.uop.uinst = uop₀.uinst
  speculative_mode : s.uop.speculative_mode = uop₀.speculative_mode
  completed : s.uop.completed = uop₀.completed
  top : s.file.floating_point_top = f₀.floating_point_top
  books : ∀ kind, (s.file.bank kind).Balanced kind.depCount (size kind) (held kind)
    (s.uop.log f₀.floating_point_top kind done ++ logs kind)
  rewinds : ∀ kind, rewind (s.file.bank kind).rat (s.uop.log f₀.floating_point_top kind done) =
    (f₀.bank kind).rat
  steady : ∀ kind p, ((f₀.bank kind).registers p).busy ≠ 0 →
    ((s.file.bank kind).registers p).busy ≠ 0 ∧
      ((s.file.bank kind).registers p).pending = ((f₀.bank kind).registers p).pending
  pending : ∀ kind p, ((s.file.bank kind).registers p).pending = true →
    ((f₀.bank kind).registers p).pending = true ∨ ∃ dep ∈ done,
      RegisterKind.ofDep (uop₀.uinst.odep dep) = some kind ∧ s.uop.outputs dep = some p
  renamed : ∀ dep ∈ done,
    (RegisterKind.ofDep (uop₀.uinst.odep dep)).isSome = (s.uop.outputs dep).isSome ∧
      (RegisterKind.ofDep (uop₀.uinst.odep dep)).isSome = (s.uop.old_outputs dep).isSome

section Rename

variable {size : RegisterKind → ℕ} {f₀ : RegisterFile} {logs : RegisterKind → List (LoggedWrite ℕ ℕ)}
  {held : RegisterKind → Option ℕ} {done : List ℕ} {uop₀ : Uop} {s s' : Renaming}

lemma Partway.pending_setOutput (h : Partway size f₀ logs held done uop₀ s) {dep : ℕ}
    (hdep : dep ∉ done) (new old : Option ℕ) {kind : RegisterKind} {q : ℕ}
    (hq : ((s.file.bank kind).registers q).pending = true) :
    ((f₀.bank kind).registers q).pending = true ∨ ∃ d ∈ dep :: done,
      RegisterKind.ofDep (uop₀.uinst.odep d) = some kind ∧
        (s.uop.setOutput dep new old).outputs d = some q := by
  apply (h.pending kind q hq).imp_right
  intro hout
  obtain ⟨d, hd, hkind, hp⟩ := hout
  have hne : d ≠ dep := fun heq => hdep (heq ▸ hd)
  refine ⟨d, List.mem_cons_of_mem dep hd, hkind, ?_⟩
  simp only [Uop.setOutput, Function.update_of_ne hne]
  exact hp

/-- An output gets the register `p`, which was not in use before the uop. -/
lemma Partway.assign (h : Partway size f₀ logs held done uop₀ s) {dep p : ℕ} {kind : RegisterKind}
    {b : Bank} (hdep : dep ∉ done) (hkind : RegisterKind.ofDep (uop₀.uinst.odep dep) = some kind)
    (hrat : b.rat = (s.file.bank kind).rat)
    (hregisters : b.registers = (s.file.bank kind).registers)
    (hb : b.Balanced kind.depCount (size kind) (some p)
      (s.uop.log f₀.floating_point_top kind done ++ logs kind))
    (hp : ((f₀.bank kind).registers p).busy = 0) :
    Partway size f₀ logs (Function.update held kind none) (dep :: done) uop₀
      (s.assign dep kind b p) := by
  have hodep : s.uop.uinst.odep dep = uop₀.uinst.odep dep := by rw [h.uinst]
  set l := position f₀.floating_point_top (uop₀.uinst.odep dep) kind with hl
  have hfile : (s.assign dep kind b p).file = s.file.setBank kind (b.rename l p) := by
    simp only [Renaming.assign, h.top, hodep, hl]
  have huop : (s.assign dep kind b p).uop = s.uop.setOutput dep p (b.rat l) := by
    simp only [Renaming.assign, h.top, hodep, hl]
  have hlog : (s.assign dep kind b p).uop.log f₀.floating_point_top kind (dep :: done) =
      ⟨l, p, b.rat l⟩ :: s.uop.log f₀.floating_point_top kind done := by
    rw [huop, log_cons_some (by
      rw [← hkind, ← hodep]; rfl) (Function.update_self ..) (Function.update_self ..),
      log_setOutput _ _ _ hdep]
    rw [hl, ← hodep]
    rfl
  have hother : ∀ kind', kind' ≠ kind →
      (s.assign dep kind b p).uop.log f₀.floating_point_top kind' (dep :: done) =
        s.uop.log f₀.floating_point_top kind' done := by
    intro kind' hne
    rw [huop, log_cons_none, log_setOutput _ _ _ hdep]
    intro hkind'
    have heq : RegisterKind.ofDep (uop₀.uinst.odep dep) = some kind' := by
      rw [← hkind', ← hodep]
      rfl
    exact hne (Option.some.inj (heq.symm.trans hkind))
  refine ⟨h.uinst, h.speculative_mode, h.completed, h.top, fun kind' => ?_, fun kind' => ?_,
    fun kind' q hq => ?_, fun kind' q hq => ?_, fun d hd => ?_⟩
  · by_cases hne : kind' = kind
    · subst hne
      rw [hfile, setBank_self, hlog, Function.update_self]
      exact hb.rename (position_mem hkind _)
    · rw [hfile, setBank_of_ne _ hne, hother kind' hne, Function.update_of_ne hne]
      exact h.books kind'
  · by_cases hne : kind' = kind
    · subst hne
      rw [hfile, setBank_self, hlog, Bank.rename_rat, rewind_write, hrat]
      exact h.rewinds kind'
    · rw [hfile, setBank_of_ne _ hne, hother kind' hne]
      exact h.rewinds kind'
  · obtain ⟨hbusy, hpending⟩ := h.steady kind' q hq
    by_cases hne : kind' = kind
    · subst hne
      have hqp : q ≠ p := fun heq => hq (heq ▸ hp)
      rw [hfile, setBank_self, Bank.rename_registers_of_ne l hqp, hregisters]
      exact ⟨hbusy, hpending⟩
    · rw [hfile, setBank_of_ne _ hne]
      exact ⟨hbusy, hpending⟩
  · rw [huop]
    rw [hfile] at hq
    by_cases hne : kind' = kind
    · subst hne
      by_cases hqp : q = p
      · subst hqp
        exact .inr ⟨dep, List.mem_cons_self, hkind, Function.update_self ..⟩
      · rw [setBank_self, Bank.rename_registers_of_ne l hqp, hregisters] at hq
        exact h.pending_setOutput hdep _ _ hq
    · rw [setBank_of_ne _ hne] at hq
      exact h.pending_setOutput hdep _ _ hq
  · rw [huop]
    obtain rfl | hd := List.mem_cons.mp hd
    · simp only [Uop.setOutput, Function.update_self, hkind]
      exact ⟨rfl, rfl⟩
    · have hne : d ≠ dep := fun heq => hdep (heq ▸ hd)
      simp only [Uop.setOutput, Function.update_of_ne hne]
      exact h.renamed d hd

lemma Partway.skip (h : Partway size f₀ logs held done uop₀ s) {dep : ℕ} (hdep : dep ∉ done)
    (hkind : RegisterKind.ofDep (uop₀.uinst.odep dep) = none) :
    Partway size f₀ logs held (dep :: done) uop₀ { s with uop := s.uop.setOutput dep none none } := by
  have hlog : ∀ kind, (s.uop.setOutput dep none none).log f₀.floating_point_top kind
      (dep :: done) = s.uop.log f₀.floating_point_top kind done := by
    intro kind
    rw [log_cons_none, log_setOutput _ _ _ hdep]
    intro hsome
    have heq : RegisterKind.ofDep (uop₀.uinst.odep dep) = some kind := by
      rw [← hsome, ← h.uinst]
      rfl
    rw [hkind] at heq
    cases heq
  refine ⟨h.uinst, h.speculative_mode, h.completed, h.top, fun kind => ?_, fun kind => ?_,
    h.steady, fun _ _ hq => h.pending_setOutput hdep none none hq, fun d hd => ?_⟩
  · rw [hlog kind]
    exact h.books kind
  · rw [hlog kind]
    exact h.rewinds kind
  · obtain rfl | hd := List.mem_cons.mp hd
    · simp only [Uop.setOutput, Function.update_self, hkind]
      exact ⟨rfl, rfl⟩
    · have hne : d ≠ dep := fun heq => hdep (heq ▸ hd)
      simp only [Uop.setOutput, Function.update_of_ne hne]
      exact h.renamed d hd

/-- The first loop has gone through the outputs `deps`, backwards: the registers are renamed, the
flags are counted, and the register for the flags is one of this uop. -/
structure FirstPass (size : RegisterKind → ℕ) (f₀ : RegisterFile) (logs : RegisterKind → List (LoggedWrite ℕ ℕ))
    (deps : List ℕ) (uop₀ : Uop) (s : Renaming) : Prop where
  partway : Partway size f₀ logs (fun _ => none)
    (deps.filter fun dep => !isFlagDependency (uop₀.uinst.odep dep)) uop₀ s
  register : ∀ p, s.flag_physical_register = some p →
    ((f₀.bank .Integer).registers p).busy = 0 ∧ ((s.file.bank .Integer).registers p).busy ≠ 0
  count : s.flag_count = deps.countP fun dep => isFlagDependency (uop₀.uinst.odep dep)

lemma FirstPass.step {deps : List ℕ} {dep : ℕ} (h : FirstPass size f₀ logs deps uop₀ s)
    (hdep : dep ∉ deps) (hs : renameOutput dep s = some s') :
    FirstPass size f₀ logs (dep :: deps) uop₀ s' := by
  have hpart := h.partway
  have hnot : dep ∉ deps.filter fun dep => !isFlagDependency (uop₀.uinst.odep dep) :=
    fun hmem => hdep (List.mem_filter.mp hmem).1
  simp only [renameOutput, hpart.uinst] at hs
  split at hs
  · next hflag =>
    cases hs
    refine ⟨?_, h.register, ?_⟩
    · rw [List.filter_cons_of_neg (by simp [hflag])]
      exact { hpart with }
    · rw [List.countP_cons_of_pos (by simpa using hflag), ← h.count]
  · next hflag =>
    rw [Bool.not_eq_true] at hflag
    split at hs
    · next kind hkind =>
      rw [Option.map_eq_some_iff] at hs
      obtain ⟨⟨p, b⟩, hrequest, rfl⟩ := hs
      obtain ⟨hb, hrat, hregisters, hidle⟩ := (hpart.books kind).request hrequest
      have hp : ((f₀.bank kind).registers p).busy = 0 := by
        by_contra hp
        exact (hpart.steady kind p hp).1 hidle
      have hassign := hpart.assign hnot hkind hrat hregisters hb hp
      rw [Function.update_eq_self_iff.mpr rfl] at hassign
      refine ⟨?_, fun q hq => ?_, ?_⟩
      · rw [List.filter_cons_of_pos (by simp [hflag])]
        exact { hassign with }
      · by_cases hint : kind = .Integer
        · subst hint
          simp only [if_true, Renaming.assign, setBank_self] at hq ⊢
          have hbusy : ∀ l r, ((b.rename l p).registers r).busy =
              (((s.file.bank .Integer).registers r).busy) + if p = r then 1 else 0 := by
            intro l r
            rw [Bank.rename_busy, hregisters]
          rw [hbusy]
          cases hold : s.flag_physical_register with
          | some r =>
            rw [hold] at hq
            cases hq
            obtain ⟨h₀, hs⟩ := h.register q hold
            exact ⟨h₀, fun hzero => hs (Nat.eq_zero_of_add_eq_zero_right hzero)⟩
          | none =>
            rw [hold] at hq
            cases hq
            rw [if_pos rfl]
            exact ⟨hp, Nat.succ_ne_zero _⟩
        · simp only [if_neg hint, Renaming.assign] at hq ⊢
          rw [setBank_of_ne _ (Ne.symm hint)]
          exact h.register q hq
      · rw [List.countP_cons_of_neg (by simp [hflag]), ← h.count]
        rfl
    · next hkind =>
      cases hs
      refine ⟨?_, h.register, ?_⟩
      · rw [List.filter_cons_of_pos (by simp [hflag])]
        exact hpart.skip hnot hkind
      · rw [List.countP_cons_of_neg (by simp [hflag]), ← h.count]

lemma FirstPass.run {deps todo : List ℕ} (h : FirstPass size f₀ logs deps uop₀ s)
    (hnodup : (todo.reverse ++ deps).Nodup) (hs : run renameOutput todo s = some s') :
    FirstPass size f₀ logs (todo.reverse ++ deps) uop₀ s' := by
  induction todo generalizing s deps with
  | nil =>
    cases hs
    exact h
  | cons dep todo ih =>
    rw [run_cons, Option.bind_eq_some_iff] at hs
    obtain ⟨s₁, hs₁, hs⟩ := hs
    rw [List.reverse_cons, List.append_assoc] at hnodup ⊢
    have hdep : dep ∉ deps := by
      have hsub := (List.nodup_append.mp hnodup).2.1
      exact (List.nodup_cons.mp hsub).1
    exact ih (h.step hdep hs₁) hnodup hs

def heldFlag (p : ℕ) : RegisterKind → Option ℕ := Function.update (fun _ => none) .Integer (some p)

lemma Partway.flag {p dep : ℕ} (h : Partway size f₀ logs (heldFlag p) done uop₀ s)
    (hp : ((f₀.bank .Integer).registers p).busy = 0) (hdep : dep ∉ done)
    (hflag : isFlagDependency (uop₀.uinst.odep dep) = true) :
    Partway size f₀ logs (heldFlag p) (dep :: done) uop₀ (renameFlag p s dep) ∧
      (((renameFlag p s dep).file.bank .Integer).registers p).busy ≠ 0 := by
  have hself : heldFlag p .Integer = some p := Function.update_self ..
  have hrename : renameFlag p s dep = s.assign dep .Integer (s.file.bank .Integer) p := by
    rw [renameFlag, if_pos (by rw [h.uinst]; exact hflag)]
  have hassign := h.assign hdep (ofDep_of_isFlag hflag) rfl rfl (hself ▸ h.books .Integer) hp
  have hbusy : (((renameFlag p s dep).file.bank .Integer).registers p).busy ≠ 0 := by
    rw [hrename, Renaming.assign, setBank_self, Bank.rename_busy, if_pos rfl]
    exact Nat.succ_ne_zero _
  rw [← hrename] at hassign
  refine ⟨{ hassign with books := fun kind => ?_ }, hbusy⟩
  have hbooks := hassign.books kind
  by_cases hkind : kind = .Integer
  · subst hkind
    rw [Function.update_self] at hbooks
    rw [hself]
    exact hbooks.hold hbusy
  · rwa [Function.update_of_ne hkind] at hbooks

lemma Partway.flags {p : ℕ} {todo : List ℕ} (h : Partway size f₀ logs (heldFlag p) done uop₀ s)
    (hp : ((f₀.bank .Integer).registers p).busy = 0) (hnodup : todo.Nodup)
    (hdone : ∀ dep ∈ todo, isFlagDependency (uop₀.uinst.odep dep) = true → dep ∉ done) :
    Partway size f₀ logs (heldFlag p)
        ((todo.filter fun dep => isFlagDependency (uop₀.uinst.odep dep)).reverse ++ done) uop₀
        (todo.foldl (renameFlag p) s) ∧
      ((((s.file.bank .Integer).registers p).busy ≠ 0 ∨
          0 < todo.countP fun dep => isFlagDependency (uop₀.uinst.odep dep)) →
        (((todo.foldl (renameFlag p) s).file.bank .Integer).registers p).busy ≠ 0) := by
  induction todo generalizing s done with
  | nil => exact ⟨h, fun hor => hor.resolve_right (Nat.lt_irrefl 0)⟩
  | cons dep todo ih =>
    rw [List.foldl_cons]
    obtain ⟨hdep, hnodup⟩ := List.nodup_cons.mp hnodup
    have hrest : ∀ d ∈ todo, isFlagDependency (uop₀.uinst.odep d) = true → d ∉ done :=
      fun d hd => hdone d (List.mem_cons_of_mem dep hd)
    cases hflag : isFlagDependency (uop₀.uinst.odep dep) with
    | true =>
      obtain ⟨hstep, hbusy⟩ := h.flag hp (hdone dep List.mem_cons_self hflag) hflag
      have hrest' : ∀ d ∈ todo, isFlagDependency (uop₀.uinst.odep d) = true →
          d ∉ dep :: done := by
        intro d hd hd' hmem
        obtain rfl | hmem := List.mem_cons.mp hmem
        · exact hdep hd
        · exact hrest d hd hd' hmem
      obtain ⟨hpart, hend⟩ := ih hstep hnodup hrest'
      rw [List.filter_cons_of_pos (by simpa using hflag), List.reverse_cons, List.append_assoc]
      exact ⟨hpart, fun _ => hend (.inl hbusy)⟩
    | false =>
      have hsame : renameFlag p s dep = s := by
        rw [renameFlag, if_neg (by rw [h.uinst, hflag]; exact Bool.false_ne_true)]
      rw [hsame, List.filter_cons_of_neg (by simpa using hflag),
        List.countP_cons_of_neg (by simpa using hflag)]
      exact ih h hnodup hrest

/-- The register for the flags is one of the uop or a new one. -/
lemma FirstPass.requestFlag {deps : List ℕ} {p : ℕ} (h : FirstPass size f₀ logs deps uop₀ s)
    (hs : requestFlag s = some (p, s')) :
    Partway size f₀ logs (heldFlag p)
        (deps.filter fun dep => !isFlagDependency (uop₀.uinst.odep dep)) uop₀ s' ∧
      ((f₀.bank .Integer).registers p).busy = 0 := by
  have hpart := h.partway
  have hheld : ∀ b : Bank, b.Balanced RegisterKind.Integer.depCount (size .Integer) (some p)
      (s.uop.log f₀.floating_point_top .Integer
        (deps.filter fun dep => !isFlagDependency (uop₀.uinst.odep dep)) ++ logs .Integer) →
      ∀ kind, ((s.file.setBank .Integer b).bank kind).Balanced kind.depCount (size kind) (heldFlag p kind)
        (s.uop.log f₀.floating_point_top kind
          (deps.filter fun dep => !isFlagDependency (uop₀.uinst.odep dep)) ++ logs kind) := by
    intro b hb kind
    by_cases hkind : kind = .Integer
    · subst hkind
      rw [setBank_self, heldFlag, Function.update_self]
      exact hb
    · rw [setBank_of_ne _ hkind, heldFlag, Function.update_of_ne hkind]
      exact hpart.books kind
  unfold RegisterFile.requestFlag at hs
  split at hs
  · next q hq =>
    cases hs
    obtain ⟨hp, hbusy⟩ := h.register p hq
    have hbooks := hheld _ ((hpart.books .Integer).hold hbusy)
    have hbank : (s.file.setBank .Integer (s.file.bank .Integer)).bank = s.file.bank :=
      Function.update_eq_self ..
    exact ⟨{ hpart with books := fun kind => hbank ▸ hbooks kind }, hp⟩
  · rw [Option.map_eq_some_iff] at hs
    obtain ⟨⟨q, b⟩, hrequest, heq⟩ := hs
    cases heq
    obtain ⟨hb, hrat, hregisters, hidle⟩ := (hpart.books .Integer).request hrequest
    have hp : ((f₀.bank .Integer).registers q).busy = 0 := by
      by_contra hp
      exact (hpart.steady .Integer q hp).1 hidle
    refine ⟨{ hpart with books := hheld b hb, rewinds := fun kind => ?_,
                         steady := fun kind r hr => ?_, pending := fun kind r hr => ?_ }, hp⟩
    · by_cases hkind : kind = .Integer
      · subst hkind
        rw [setBank_self, hrat]
        exact hpart.rewinds .Integer
      · rw [setBank_of_ne _ hkind]
        exact hpart.rewinds kind
    · by_cases hkind : kind = .Integer
      · subst hkind
        rw [setBank_self, hregisters]
        exact hpart.steady .Integer r hr
      · rw [setBank_of_ne _ hkind]
        exact hpart.steady kind r hr
    · by_cases hkind : kind = .Integer
      · subst hkind
        rw [setBank_self, hregisters] at hr
        exact hpart.pending .Integer r hr
      · rw [setBank_of_ne _ hkind] at hr
        exact hpart.pending kind r hr

/-- What renaming an uop does: its outputs are the youngest writes of the alias tables, and undoing
them restores the tables. -/
structure Renames (size : RegisterKind → ℕ) (f : RegisterFile) (logs : RegisterKind → List (LoggedWrite ℕ ℕ)) (uop : Uop)
    (f' : RegisterFile) (uop' : Uop) : Prop where
  uinst : uop'.uinst = uop.uinst
  speculative_mode : uop'.speculative_mode = uop.speculative_mode
  completed : uop'.completed = uop.completed
  top : f'.floating_point_top = pushPop uop.uinst.opcode f.floating_point_top
  books : ∀ kind, (f'.bank kind).Balanced kind.depCount (size kind) none
    (uop'.log f'.floating_point_top kind (List.range MaxODeps).reverse ++ logs kind)
  rewinds : ∀ kind, rewind (f'.bank kind).rat
    (uop'.log f'.floating_point_top kind (List.range MaxODeps).reverse) = (f.bank kind).rat
  steady : ∀ kind p, ((f.bank kind).registers p).busy ≠ 0 →
    ((f'.bank kind).registers p).pending = ((f.bank kind).registers p).pending
  pending : ∀ kind p, ((f'.bank kind).registers p).pending = true →
    ((f.bank kind).registers p).pending = true ∨ uop'.HasOutput kind p
  renamed : uop'.Renamed

lemma Partway.renames {f : RegisterFile} {uop : Uop}
    (h : Partway size f₀ logs (fun _ => none) (renameOrder uop₀ (List.range MaxODeps).reverse) uop₀ s)
    (hf : f₀ = { f with floating_point_top := pushPop uop.uinst.opcode f.floating_point_top })
    (huinst : uop₀.uinst = uop.uinst) (hmode : uop₀.speculative_mode = uop.speculative_mode)
    (hcompleted : uop₀.completed = uop.completed) : Renames size f logs uop s.file s.uop := by
  have horder : renameOrder uop₀ (List.range MaxODeps).reverse =
      renameOrder s.uop (List.range MaxODeps).reverse := by
    rw [renameOrder, renameOrder, h.uinst]
  have hhistory : ∀ kind l, history l (s.uop.log f₀.floating_point_top kind
      (renameOrder uop₀ (List.range MaxODeps).reverse)) =
        history l (s.uop.log s.file.floating_point_top kind (List.range MaxODeps).reverse) := by
    intro kind l
    rw [horder, h.top]
    exact history_renameOrder s.uop _ kind _ l
  refine ⟨h.uinst.trans huinst, h.speculative_mode.trans hmode, h.completed.trans hcompleted,
    h.top.trans (by rw [hf]), fun kind => ?_, fun kind => ?_, fun kind p hp => ?_,
    fun kind p hp => ?_, fun dep hdep => ?_⟩
  · refine (h.books kind).congr fun l => ?_
    rw [history_append, history_append, hhistory kind l]
  · rw [← rewind_congr (hhistory kind), h.rewinds kind, hf]
  · rw [(h.steady kind p (by rwa [hf])).2, hf]
  · have hpending := h.pending kind p hp
    rw [hf] at hpending
    apply hpending.imp_right
    intro hout
    obtain ⟨dep, hdep, hkind, hout⟩ := hout
    rw [renameOrder, List.mem_append, List.mem_filter, List.mem_filter] at hdep
    have hmem : dep ∈ (List.range MaxODeps).reverse := hdep.elim And.left And.left
    rw [List.mem_reverse, List.mem_range] at hmem
    exact ⟨dep, hmem, by rw [h.uinst]; exact hkind, hout⟩
  · rw [h.uinst]
    refine h.renamed dep ?_
    simp only [renameOrder, List.mem_append, List.mem_filter, List.mem_reverse, List.mem_range]
    cases isFlagDependency (uop₀.uinst.odep dep) with
    | true => exact .inl ⟨hdep, rfl⟩
    | false => exact .inr ⟨hdep, rfl⟩

def renameStart (f : RegisterFile) (uop : Uop) : Renaming :=
  let f := { f with floating_point_top := pushPop uop.uinst.opcode f.floating_point_top }
  { file := f
    uop := { uop with
      inputs := fun dep =>
        if dep < MaxIDeps then renameInput f (uop.uinst.idep dep) else uop.inputs dep } }

lemma firstPass_start {f : RegisterFile}
    (hf : ∀ kind, (f.bank kind).Balanced kind.depCount (size kind) none (logs kind)) (uop : Uop) :
    FirstPass size (renameStart f uop).file logs [] (renameStart f uop).uop
      (renameStart f uop) :=
  ⟨⟨rfl, rfl, rfl, rfl, hf, fun _ => rfl, fun _ _ hp => ⟨hp, rfl⟩, fun _ _ hp => .inl hp,
    fun _ hdep => absurd hdep List.not_mem_nil⟩, fun _ hp => (nomatch hp), rfl⟩

lemma Rename_renames {f f' : RegisterFile} {uop uop' : Uop}
    (hf : ∀ kind, (f.bank kind).Balanced kind.depCount (size kind) none (logs kind))
    (h : f.Rename uop = some (f', uop')) : Renames size f logs uop f' uop' := by
  simp only [RegisterFile.Rename, Option.bind_eq_some_iff] at h
  obtain ⟨s, hs, h⟩ := h
  set f₀ : RegisterFile := (renameStart f uop).file with hf₀
  set uop₀ : Uop := (renameStart f uop).uop with huop₀
  have hstart : FirstPass size f₀ logs [] uop₀ (renameStart f uop) := firstPass_start hf uop
  have hfirst := hstart.run (by simp [List.nodup_range]) hs
  rw [List.append_nil] at hfirst
  split at h
  · next hcount =>
    rw [Option.map_eq_some_iff] at h
    obtain ⟨⟨p, s₁⟩, hrequest, h⟩ := h
    cases h
    obtain ⟨hpart, hp⟩ := hfirst.requestFlag hrequest
    have hdone : ∀ dep ∈ List.range MaxODeps, isFlagDependency (uop₀.uinst.odep dep) = true →
        dep ∉ (List.range MaxODeps).reverse.filter
          fun dep => !isFlagDependency (uop₀.uinst.odep dep) := by
      intro dep _ hflag hmem
      simp [hflag] at hmem
    obtain ⟨hflags, hbusy⟩ := hpart.flags hp List.nodup_range hdone
    have hsettled := hbusy (.inr (by rwa [hfirst.count, List.countP_reverse] at hcount))
    rw [← List.filter_reverse] at hflags
    refine Partway.renames { hflags with books := fun kind => ?_ } hf₀
      rfl rfl rfl
    have hbooks := hflags.books kind
    by_cases hkind : kind = .Integer
    · subst hkind
      rw [heldFlag, Function.update_self] at hbooks
      exact hbooks.settle hsettled
    · rwa [heldFlag, Function.update_of_ne hkind] at hbooks
  · next hcount =>
    cases h
    have hnone : (List.range MaxODeps).reverse.filter
        (fun dep => isFlagDependency (uop₀.uinst.odep dep)) = [] := by
      rw [hfirst.count, Nat.pos_iff_ne_zero, not_not, List.countP_eq_zero] at hcount
      exact List.filter_eq_nil_iff.mpr hcount
    have hpart := hfirst.partway
    rw [← List.nil_append (List.filter _ _), ← hnone] at hpart
    exact hpart.renames hf₀ rfl rfl rfl

end Rename

/-- Registers may be no longer pending, and nothing else changes. -/
structure Completes (f f' : RegisterFile) : Prop where
  top : f'.floating_point_top = f.floating_point_top
  rat : ∀ kind, (f'.bank kind).rat = (f.bank kind).rat
  books : ∀ kind n m held ws,
    (f.bank kind).Balanced n m held ws → (f'.bank kind).Balanced n m held ws
  pending : ∀ kind p, ((f.bank kind).registers p).pending = false →
    ((f'.bank kind).registers p).pending = false

lemma Completes.refl (f : RegisterFile) : Completes f f :=
  ⟨rfl, fun _ => rfl, fun _ _ _ _ _ h => h, fun _ _ h => h⟩

lemma Completes.trans {f f' f'' : RegisterFile} (h : Completes f f') (h' : Completes f' f'') :
    Completes f f'' where
  top := h'.top.trans h.top
  rat kind := (h'.rat kind).trans (h.rat kind)
  books kind n m held ws hb := h'.books kind n m held ws (h.books kind n m held ws hb)
  pending kind p hp := h'.pending kind p (h.pending kind p hp)

lemma completes_write (f : RegisterFile) (kind : RegisterKind) (p : ℕ) :
    Completes f (f.setBank kind ((f.bank kind).write p)) := by
  refine ⟨rfl, fun kind' => ?_, fun kind' n m held ws hb => ?_, fun kind' q hq => ?_⟩
  · by_cases hne : kind' = kind
    · subst hne
      rw [setBank_self]
      rfl
    · rw [setBank_of_ne _ hne]
  · by_cases hne : kind' = kind
    · subst hne
      rw [setBank_self]
      exact hb.write p
    · rwa [setBank_of_ne _ hne]
  · by_cases hne : kind' = kind
    · subst hne
      rw [setBank_self]
      simp only [Bank.write, Bank.setRegister]
      by_cases hqp : q = p
      · rw [hqp, Function.update_self]
      · rwa [Function.update_of_ne hqp]
    · rwa [setBank_of_ne _ hne]

def Uop.Written (f : RegisterFile) (uop : Uop) (deps : List ℕ) : Prop :=
  ∀ dep ∈ deps, ∀ kind p, RegisterKind.ofDep (uop.uinst.odep dep) = some kind →
    uop.outputs dep = some p → ((f.bank kind).registers p).pending = false

lemma Uop.Written.completes {f f' : RegisterFile} {uop : Uop} {deps : List ℕ}
    (h : uop.Written f deps) (hf : Completes f f') : uop.Written f' deps :=
  fun dep hdep kind p hkind hp => hf.pending kind p (h dep hdep kind p hkind hp)

lemma run_writeOutput {f f' : RegisterFile} {uop : Uop} {deps : List ℕ}
    (h : run (writeOutput uop) deps f = some f') : Completes f f' ∧ uop.Written f' deps := by
  induction deps generalizing f with
  | nil =>
    cases h
    exact ⟨Completes.refl _, fun dep hdep => absurd hdep List.not_mem_nil⟩
  | cons dep deps ih =>
    rw [run_cons, Option.bind_eq_some_iff] at h
    obtain ⟨f₁, hf₁, h⟩ := h
    obtain ⟨hrest, hwritten⟩ := ih h
    have hfirst : Completes f f₁ ∧ uop.Written f₁ [dep] := by
      unfold writeOutput at hf₁
      split at hf₁
      · next kind hkind =>
        rw [Option.map_eq_some_iff] at hf₁
        obtain ⟨p, hp, rfl⟩ := hf₁
        refine ⟨completes_write f kind p, fun d hd kind' q hkind' hq => ?_⟩
        rw [List.mem_singleton] at hd
        subst hd
        rw [hkind, Option.some.injEq] at hkind'
        rw [hp, Option.some.injEq] at hq
        subst hkind' hq
        rw [setBank_self]
        exact Bank.write_pending_self p
      · next hkind =>
        cases hf₁
        refine ⟨Completes.refl f, fun d hd kind' q hkind' hq => ?_⟩
        rw [List.mem_singleton] at hd
        subst hd
        rw [hkind] at hkind'
        cases hkind'
    refine ⟨hfirst.1.trans hrest, fun d hd => ?_⟩
    obtain rfl | hd := List.mem_cons.mp hd
    · exact hfirst.2.completes hrest d List.mem_cons_self
    · exact hwritten d hd

lemma run_writeOutput_isSome {uop : Uop} (huop : uop.Renamed) {deps : List ℕ}
    (hdeps : ∀ dep ∈ deps, dep < MaxODeps) (f : RegisterFile) :
    ∃ f', run (writeOutput uop) deps f = some f' := by
  induction deps generalizing f with
  | nil => exact ⟨f, rfl⟩
  | cons dep deps ih =>
    obtain ⟨houtput, -⟩ := huop dep (hdeps dep List.mem_cons_self)
    have hrest := ih fun d hd => hdeps d (List.mem_cons_of_mem dep hd)
    have hfirst : ∃ f₁, writeOutput uop dep f = some f₁ := by
      unfold writeOutput
      split
      · next kind hkind =>
        rw [hkind, Option.isSome_some] at houtput
        obtain ⟨p, hp⟩ := Option.isSome_iff_exists.mp houtput.symm
        exact ⟨_, by rw [hp, Option.map_some]⟩
      · exact ⟨f, rfl⟩
    obtain ⟨f₁, hf₁⟩ := hfirst
    obtain ⟨f', hf'⟩ := hrest f₁
    exact ⟨f', by rw [run_cons, hf₁, Option.bind_some, hf']⟩

/-- Undoing outputs: the youngest writes of the log go, and the tables are rewound. -/
lemma run_undoOutput {uop : Uop} (huop : uop.Renamed) {deps : List ℕ}
    (hdeps : ∀ dep ∈ deps, dep < MaxODeps) {f : RegisterFile}
    {size : RegisterKind → ℕ} {logs : RegisterKind → List (LoggedWrite ℕ ℕ)}
    (hf : ∀ kind, (f.bank kind).Balanced kind.depCount (size kind) none
      (uop.log f.floating_point_top kind deps ++ logs kind))
    (hwritten : uop.Written f deps) :
    ∃ f', run (undoOutput uop) deps f = some f' ∧ f'.floating_point_top = f.floating_point_top ∧
      (∀ kind, (f'.bank kind).rat =
        rewind (f.bank kind).rat (uop.log f.floating_point_top kind deps)) ∧
      (∀ kind, (f'.bank kind).Balanced kind.depCount (size kind) none (logs kind)) ∧
      ∀ kind p, ((f'.bank kind).registers p).pending = ((f.bank kind).registers p).pending := by
  induction deps generalizing f with
  | nil => exact ⟨f, rfl, rfl, fun _ => rfl, hf, fun _ _ => rfl⟩
  | cons dep deps ih =>
    obtain ⟨houtput, hold⟩ := huop dep (hdeps dep List.mem_cons_self)
    have hdeps' : ∀ d ∈ deps, d < MaxODeps := fun d hd => hdeps d (List.mem_cons_of_mem dep hd)
    cases hkind : RegisterKind.ofDep (uop.uinst.odep dep) with
    | none =>
      rw [hkind, Option.isSome_none] at houtput hold
      have hstep : undoOutput uop dep f = some f := by
        rw [undoOutput, hkind]
        exact if_pos ⟨Option.not_isSome_iff_eq_none.mp (by rw [← houtput]; decide),
          Option.not_isSome_iff_eq_none.mp (by rw [← hold]; decide)⟩
      have hlog : ∀ kind, uop.log f.floating_point_top kind (dep :: deps) =
          uop.log f.floating_point_top kind deps := fun kind =>
        log_cons_none (by rw [hkind]; exact (Option.some_ne_none kind).symm) deps
      simp only [hlog] at hf ⊢
      rw [run_cons, hstep, Option.bind_some]
      exact ih hdeps' hf fun d hd => hwritten d (List.mem_cons_of_mem dep hd)
    | some kind =>
      rw [hkind, Option.isSome_some] at houtput hold
      obtain ⟨new, hnew⟩ := Option.isSome_iff_exists.mp houtput.symm
      obtain ⟨old, hold⟩ := Option.isSome_iff_exists.mp hold.symm
      set l := position f.floating_point_top (uop.uinst.odep dep) kind with hl
      have hlog : uop.log f.floating_point_top kind (dep :: deps) =
          ⟨l, new, old⟩ :: uop.log f.floating_point_top kind deps :=
        log_cons_some hkind hnew hold deps
      have hother : ∀ kind', kind' ≠ kind → uop.log f.floating_point_top kind' (dep :: deps) =
          uop.log f.floating_point_top kind' deps := fun kind' hne =>
        log_cons_none (by rw [hkind]; exact fun h => hne (Option.some.inj h).symm) deps
      have hbank := hf kind
      rw [hlog, List.cons_append] at hbank
      obtain ⟨b, hb, hrat, hpending, hbal⟩ :=
        hbank.undo (hwritten dep List.mem_cons_self kind new hkind hnew)
      have hstep : undoOutput uop dep f = some (f.setBank kind b) := by
        simp only [undoOutput, hkind, hnew, hold, Option.bind_some]
        rw [hb]
        rfl
      have hsame : ∀ kind' p, (((f.setBank kind b).bank kind').registers p).pending =
          ((f.bank kind').registers p).pending := by
        intro kind' p
        by_cases hne : kind' = kind
        · subst hne
          rw [setBank_self]
          exact hpending p
        · rw [setBank_of_ne _ hne]
      have hbooks : ∀ kind', ((f.setBank kind b).bank kind').Balanced kind'.depCount (size kind') none
          (uop.log (f.setBank kind b).floating_point_top kind' deps ++ logs kind') := by
        intro kind'
        by_cases hne : kind' = kind
        · subst hne
          rw [setBank_self]
          exact hbal
        · rw [setBank_of_ne _ hne]
          have hbook := hf kind'
          rwa [hother kind' hne] at hbook
      have hwritten' : uop.Written (f.setBank kind b) deps := by
        intro d hd kind' p hkind' hp
        rw [hsame]
        exact hwritten d (List.mem_cons_of_mem dep hd) kind' p hkind' hp
      obtain ⟨f', hf', htop, hrat', hbooks', hpending'⟩ := ih hdeps' hbooks hwritten'
      refine ⟨f', by rw [run_cons, hstep, Option.bind_some, hf'], htop, fun kind' => ?_, hbooks',
        fun kind' p => (hpending' kind' p).trans (hsame kind' p)⟩
      rw [hrat' kind']
      by_cases hne : kind' = kind
      · subst hne
        rw [setBank_self, hlog, hrat]
        rfl
      · rw [setBank_of_ne _ hne, hother kind' hne]
        rfl

lemma commitOutput_step {uop : Uop} {top dep : ℕ} {f f' : RegisterFile}
    {size : RegisterKind → ℕ} {logs : RegisterKind → List (LoggedWrite ℕ ℕ)}
    (hf : ∀ kind, (f.bank kind).Balanced kind.depCount (size kind) none
      (logs kind ++ uop.log top kind [dep]))
    (h : commitOutput uop dep f = some f') :
    f'.floating_point_top = f.floating_point_top ∧
      (∀ kind, (f'.bank kind).Balanced kind.depCount (size kind) none (logs kind)) ∧
      ∀ kind p, ((f'.bank kind).registers p).pending = ((f.bank kind).registers p).pending := by
  unfold commitOutput at h
  split at h
  · next kind hkind =>
    simp only [Option.bind_eq_some_iff, Option.map_eq_some_iff] at h
    obtain ⟨new, hnew, old, hold, b, hb, rfl⟩ := h
    have hbank := hf kind
    rw [log_cons_some hkind hnew hold] at hbank
    obtain ⟨b', hb', -, hpending, hbal⟩ := hbank.commit (Bank.commit_idle hb)
    rw [hb, Option.some.injEq] at hb'
    subst hb'
    refine ⟨rfl, fun kind' => ?_, fun kind' p => ?_⟩
    · by_cases hne : kind' = kind
      · subst hne
        rw [setBank_self]
        exact hbal
      · rw [setBank_of_ne _ hne]
        have hbook := hf kind'
        rwa [log_cons_none (by rw [hkind]; exact fun h => hne (Option.some.inj h).symm),
          log_nil, List.append_nil] at hbook
    · by_cases hne : kind' = kind
      · subst hne
        rw [setBank_self]
        exact hpending p
      · rw [setBank_of_ne _ hne]
  · next hkind =>
    split at h
    · cases h
      refine ⟨rfl, fun kind => ?_, fun _ _ => rfl⟩
      have hbook := hf kind
      rwa [log_cons_none (by rw [hkind]; exact (Option.some_ne_none kind).symm),
        log_nil, List.append_nil] at hbook
    · cases h

lemma log_reverse_cons (uop : Uop) (top : ℕ) (kind : RegisterKind) (dep : ℕ) (deps : List ℕ) :
    uop.log top kind (dep :: deps).reverse =
      uop.log top kind deps.reverse ++ uop.log top kind [dep] := by
  rw [List.reverse_cons, Uop.log, List.filterMap_append]
  rfl

lemma run_commitOutput {uop : Uop} {top : ℕ} {deps : List ℕ} {f f' : RegisterFile}
    {size : RegisterKind → ℕ} {logs : RegisterKind → List (LoggedWrite ℕ ℕ)}
    (hf : ∀ kind, (f.bank kind).Balanced kind.depCount (size kind) none
      (logs kind ++ uop.log top kind deps.reverse))
    (h : run (commitOutput uop) deps f = some f') :
    f'.floating_point_top = f.floating_point_top ∧
      (∀ kind, (f'.bank kind).Balanced kind.depCount (size kind) none (logs kind)) ∧
      ∀ kind p, ((f'.bank kind).registers p).pending = ((f.bank kind).registers p).pending := by
  induction deps generalizing f with
  | nil =>
    cases h
    refine ⟨rfl, fun kind => ?_, fun _ _ => rfl⟩
    have hbook := hf kind
    rwa [List.reverse_nil, log_nil, List.append_nil] at hbook
  | cons dep deps ih =>
    rw [run_cons, Option.bind_eq_some_iff] at h
    obtain ⟨f₁, hf₁, h⟩ := h
    simp only [log_reverse_cons, ← List.append_assoc] at hf
    obtain ⟨htop, hbooks, hpending⟩ := commitOutput_step hf hf₁
    obtain ⟨htop', hbooks', hpending'⟩ := ih hbooks h
    exact ⟨htop'.trans htop, hbooks', fun kind p => (hpending' kind p).trans (hpending kind p)⟩

lemma run_commitOutput_isSome {uop : Uop} (huop : uop.Renamed) {top : ℕ} {deps : List ℕ}
    (hdeps : ∀ dep ∈ deps, dep < MaxODeps) {f : RegisterFile}
    {size : RegisterKind → ℕ} {logs : RegisterKind → List (LoggedWrite ℕ ℕ)}
    (hf : ∀ kind, (f.bank kind).Balanced kind.depCount (size kind) none
      (logs kind ++ uop.log top kind deps.reverse))
    (hpending : ∀ kind p, ((f.bank kind).registers p).pending = true → ∃ w ∈ logs kind, w.new = p) :
    ∃ f', run (commitOutput uop) deps f = some f' := by
  induction deps generalizing f with
  | nil => exact ⟨f, rfl⟩
  | cons dep deps ih =>
    simp only [log_reverse_cons, ← List.append_assoc] at hf
    obtain ⟨houtput, hold⟩ := huop dep (hdeps dep List.mem_cons_self)
    have hfirst : ∃ f₁, commitOutput uop dep f = some f₁ := by
      unfold commitOutput
      cases hkind : RegisterKind.ofDep (uop.uinst.odep dep) with
      | none =>
        rw [hkind, Option.isSome_none] at houtput hold
        exact ⟨f, if_pos ⟨Option.not_isSome_iff_eq_none.mp (by rw [← houtput]; decide),
          Option.not_isSome_iff_eq_none.mp (by rw [← hold]; decide)⟩⟩
      | some kind =>
        rw [hkind, Option.isSome_some] at houtput hold
        obtain ⟨new, hnew⟩ := Option.isSome_iff_exists.mp houtput.symm
        obtain ⟨old, hold⟩ := Option.isSome_iff_exists.mp hold.symm
        have hbank := hf kind
        rw [log_cons_some hkind hnew hold] at hbank
        have hidle := hbank.idle_old fun hp => by
          obtain ⟨w, hw, heq⟩ := hpending kind old hp
          exact ⟨w, List.mem_append_left _ hw, heq⟩
        obtain ⟨b', hb', -⟩ := hbank.commit hidle
        dsimp only at hb' ⊢
        exact ⟨_, by rw [hnew, hold, Option.bind_some, Option.bind_some, hb']; rfl⟩
    obtain ⟨f₁, hf₁⟩ := hfirst
    obtain ⟨-, hbooks, hsame⟩ := commitOutput_step hf hf₁
    obtain ⟨f', hf'⟩ := ih (fun d hd => hdeps d (List.mem_cons_of_mem dep hd)) hbooks
      fun kind p hp => hpending kind p (hsame kind p ▸ hp)
    exact ⟨f', by rw [run_cons, hf₁, Option.bind_some, hf']⟩

end OISA.X86.RegisterFile
