import OISA.Proofs.RegisterAccounting

/-!
# The data dependences of renamed uops

A record keeps the uops of each thread that were renamed and not squashed.
-/

namespace OISA.X86

open OISA.Lib Uinst

def Uinst.isStackDependency (dep : ℕ) : Bool := 23 ≤ dep ∧ dep ≤ 30

def Uinst.isControlDependency (dep : ℕ) : Bool := 31 ≤ dep ∧ dep ≤ 33

def Uinst.Names (uinst : Uinst) (dep : ℕ) : Prop :=
  (∃ i < MaxIDeps, uinst.idep i = dep) ∨ ∃ i < MaxODeps, uinst.odep i = dep

/-- The uop names no x87 register outside of the stack. -/
def Uinst.ControlFree (uinst : Uinst) : Prop := ∀ dep, uinst.Names dep → ¬ isControlDependency dep

lemma Uinst.controlFree_iff {uinst : Uinst} : uinst.ControlFree ↔
    (∀ i < MaxIDeps, ¬ isControlDependency (uinst.idep i)) ∧
      ∀ i < MaxODeps, ¬ isControlDependency (uinst.odep i) := by
  constructor
  · intro h
    exact ⟨fun i hi => h _ (.inl ⟨i, hi, rfl⟩), fun i hi => h _ (.inr ⟨i, hi, rfl⟩)⟩
  · rintro ⟨hinputs, houtputs⟩ dep (⟨i, hi, rfl⟩ | ⟨i, hi, rfl⟩)
    · exact hinputs i hi
    · exact houtputs i hi

instance (uinst : Uinst) : Decidable uinst.ControlFree :=
  decidable_of_iff _ Uinst.controlFree_iff.symm

def RegisterKind.first : RegisterKind → ℕ
  | Integer => DepIntFirst
  | FloatingPoint => DepFpFirst
  | Xmm => DepXmmFirst

namespace RegisterFile

def logicalRegister (floating_point_top dep : ℕ) : ℕ :=
  if isStackDependency dep then stackRegister floating_point_top dep else dep

section Registers

variable {dep register : ℕ} {kind : RegisterKind}

lemma isStackDependency_iff : isStackDependency dep = true ↔ 23 ≤ dep ∧ dep ≤ 30 :=
  decide_eq_true_iff

lemma isControlDependency_iff : isControlDependency dep = true ↔ 31 ≤ dep ∧ dep ≤ 33 :=
  decide_eq_true_iff

lemma isFloatingPointDependency_iff :
    isFloatingPointDependency dep = true ↔ 23 ≤ dep ∧ dep ≤ 33 := decide_eq_true_iff

lemma ofDep_eq_some_iff : RegisterKind.ofDep dep = some kind ↔
    kind.first ≤ dep ∧ dep < kind.first + kind.depCount := by
  simp only [RegisterKind.ofDep, isIntegerDependency_iff, isFloatingPointDependency_iff,
    isXmmDependency_iff]
  cases kind with
  | Integer =>
    simp only [RegisterKind.first, RegisterKind.depCount, DepIntFirst, DepIntCount, DepIntLast]
    split_ifs <;> simp <;> omega
  | FloatingPoint =>
    simp only [RegisterKind.first, RegisterKind.depCount, DepFpFirst, DepFpCount, DepFpLast]
    split_ifs <;> simp <;> omega
  | Xmm =>
    simp only [RegisterKind.first, RegisterKind.depCount, DepXmmFirst, DepXmmCount, DepXmmLast]
    split_ifs <;> simp <;> omega

lemma logicalRegister_slot (top : ℕ) (hkind : RegisterKind.ofDep dep = some kind)
    (hcontrol : ¬ isControlDependency dep) :
    RegisterKind.ofDep (logicalRegister top dep) = some kind ∧
      position top dep kind + kind.first = logicalRegister top dep := by
  rw [ofDep_eq_some_iff] at hkind ⊢
  rw [isControlDependency_iff] at hcontrol
  unfold logicalRegister
  split
  · next hstack =>
    rw [isStackDependency_iff] at hstack
    cases kind with
    | Integer =>
      simp only [RegisterKind.first, RegisterKind.depCount, DepIntFirst, DepIntCount,
        DepIntLast] at hkind
      omega
    | FloatingPoint =>
      simp only [RegisterKind.first, RegisterKind.depCount, DepFpFirst, DepFpCount, DepFpLast,
        position, stackRegister]
      omega
    | Xmm =>
      simp only [RegisterKind.first, RegisterKind.depCount, DepXmmFirst, DepXmmCount,
        DepXmmLast] at hkind
      omega
  · next hstack =>
    rw [isStackDependency_iff] at hstack
    refine ⟨hkind, ?_⟩
    cases kind with
    | Integer => exact Nat.sub_add_cancel hkind.1
    | FloatingPoint =>
      simp only [RegisterKind.first, RegisterKind.depCount, DepFpFirst, DepFpCount,
        DepFpLast] at hkind
      omega
    | Xmm => exact Nat.sub_add_cancel hkind.1

lemma ofDep_of_logicalRegister {top : ℕ} (hcontrol : ¬ isControlDependency dep)
    (hkind : RegisterKind.ofDep (logicalRegister top dep) = some kind) :
    RegisterKind.ofDep dep = some kind := by
  cases hdep : RegisterKind.ofDep dep with
  | some kind' => rw [← hkind, (logicalRegister_slot top hdep hcontrol).1]
  | none =>
    have hstack : ¬ isStackDependency dep := by
      intro hstack
      rw [isStackDependency_iff] at hstack
      have hfloat : RegisterKind.ofDep dep = some .FloatingPoint :=
        ofDep_eq_some_iff.mpr ⟨hstack.1, by
          simp only [RegisterKind.first, RegisterKind.depCount, DepFpFirst, DepFpCount, DepFpLast]
          omega⟩
      rw [hdep] at hfloat
      cases hfloat
    rwa [logicalRegister, if_neg hstack, hdep] at hkind

lemma logicalRegister_eq_iff (top : ℕ) (hkind : RegisterKind.ofDep dep = some kind)
    (hcontrol : ¬ isControlDependency dep) (hregister : kind.first ≤ register) :
    logicalRegister top dep = register ↔ position top dep kind = register - kind.first := by
  have hslot := (logicalRegister_slot top hkind hcontrol).2
  omega

lemma position_control (top : ℕ) (hcontrol : isControlDependency dep) :
    position top (dep - 8) .FloatingPoint = position top dep .FloatingPoint := by
  rw [isControlDependency_iff] at hcontrol
  simp only [position, stackRegister, DepFpFirst]
  omega

end Registers

structure RenamedUop where
  top : ℕ
  uop : Uop

/-- The physical register that an uop allocated for a logical register, the last one if it did so
more than once -/
def RenamedUop.allocated (r : RenamedUop) (register : ℕ) : Option ℕ :=
  ((List.range MaxODeps).reverse.find? fun dep =>
    logicalRegister r.top (r.uop.uinst.odep dep) = register).bind r.uop.outputs

def initialMapping (f : RegisterFile) (register : ℕ) : Option ℕ :=
  (RegisterKind.ofDep register).map fun kind => (f.bank kind).rat (register - kind.first)

/-- The physical register that the youngest uop that writes a logical register allocated for it, or
its initial mapping if there is none -/
def producer (f : RegisterFile) (register : ℕ) : List RenamedUop → Option ℕ
  | [] => initialMapping f register
  | r :: older => (r.allocated register).or (producer f register older)

/-- The inputs of a renamed uop are mapped to what their producers allocated. -/
def ReadsProducers (f : RegisterFile) (r : RenamedUop) (older : List RenamedUop) : Prop :=
  ∀ dep < MaxIDeps, (RegisterKind.ofDep (r.uop.uinst.idep dep)).isSome →
    r.uop.inputs dep = producer f (logicalRegister r.top (r.uop.uinst.idep dep)) older

/-- Only registers of the stack share slots: a register that an uop names and that is not one of
them has its slot for itself. -/
def SlotsApart (r : RenamedUop) : Prop :=
  ∀ dep, r.uop.uinst.Names dep → ¬ isStackDependency dep → ∀ kind ∈ RegisterKind.ofDep dep,
    ∀ other, RegisterKind.ofDep other = some kind → other ≠ dep →
      ∀ top, position top other kind ≠ position r.top dep kind

/-- A core with the uops that each thread renamed and did not squash, the youngest first -/
structure Recorded where
  core : Core
  renamed : ℕ → List RenamedUop := fun _ => []

/-- The youngest uop of a thread -/
def Window.youngest (s : Window) : Option RenamedUop :=
  s.reorder_buffer.head?.map fun uop => { top := s.file.floating_point_top, uop := uop }

def Core.youngest (c : Core) (thread : ℕ) : Option RenamedUop :=
  c.threads[thread]?.bind Window.youngest

def Event.record (new : Option RenamedUop) (renamed : List RenamedUop) : Event → List RenamedUop
  | .Rename _ _ => new.toList ++ renamed
  | .Squash => renamed.tail
  | .Write _ => renamed
  | .WriteLate _ => renamed
  | .Commit => renamed
  | .Others _ _ => renamed

/-- The threads of the core by turns -/
def Recorded.step (e : ℕ × Event) (t : Recorded) : Option Recorded :=
  (Core.step e t.core).map fun c =>
    { core := c
      renamed := Function.update t.renamed e.1
        (e.2.record (c.youngest e.1) (t.renamed e.1)) }

/-- If the event renames an uop, its inputs are mapped to what their producers allocated, and its
registers have slots of their own. -/
def KeepsDependences (c₀ : Core) (e : ℕ × Event) (t : Recorded) : Prop :=
  e.2.isRename → ∀ t' ∈ t.step e, ∀ r ∈ t'.core.youngest e.1, ∀ s₀ ∈ c₀.threads[e.1]?,
    ReadsProducers s₀.file r (t.renamed e.1) ∧ SlotsApart r

/-- An uop that is renamed names no x87 register outside of the stack. -/
def Event.ControlFree : Event → Prop
  | .Rename uinst _ => uinst.ControlFree
  | _ => True

instance (e : Event) : Decidable e.ControlFree :=
  match e with
  | .Rename uinst _ => inferInstanceAs (Decidable uinst.ControlFree)
  | .Write _ => .isTrue trivial
  | .WriteLate _ => .isTrue trivial
  | .Commit => .isTrue trivial
  | .Squash => .isTrue trivial
  | .Others _ _ => .isTrue trivial

instance (f : RegisterFile) (r : RenamedUop) (older : List RenamedUop) :
    Decidable (ReadsProducers f r older) :=
  inferInstanceAs (Decidable (∀ dep < MaxIDeps, (RegisterKind.ofDep (r.uop.uinst.idep dep)).isSome →
    r.uop.inputs dep = producer f (logicalRegister r.top (r.uop.uinst.idep dep)) older))

lemma slotsApart_iff (r : RenamedUop) : SlotsApart r ↔ r.uop.uinst.ControlFree := by
  constructor
  · intro hapart dep hnames hdep
    have hshared := position_control r.top hdep
    rw [isControlDependency_iff] at hdep
    have hfloat : ∀ d, 23 ≤ d → d ≤ 33 → RegisterKind.ofDep d = some .FloatingPoint := by
      intro d hlow hhigh
      rw [ofDep_eq_some_iff]
      simp only [RegisterKind.first, RegisterKind.depCount, DepFpFirst, DepFpCount, DepFpLast]
      omega
    apply hapart dep hnames _ .FloatingPoint (hfloat dep (by omega) hdep.2) (dep - 8)
      (hfloat _ (by omega) (by omega)) (by omega) r.top hshared
    rw [isStackDependency_iff]
    omega
  · intro hfree dep hnames hstack kind hkind other hother hne top heq
    have hcontrol := hfree dep hnames
    rw [isControlDependency_iff] at hcontrol
    rw [isStackDependency_iff] at hstack
    rw [Option.mem_def, ofDep_eq_some_iff] at hkind
    rw [ofDep_eq_some_iff] at hother
    cases kind with
    | Integer =>
      simp only [RegisterKind.first, position, DepIntFirst] at hkind hother heq
      omega
    | FloatingPoint =>
      simp only [RegisterKind.first, RegisterKind.depCount, DepFpFirst, DepFpCount,
        DepFpLast] at hkind
      omega
    | Xmm =>
      simp only [RegisterKind.first, position, DepXmmFirst] at hkind hother heq
      omega

def Tops : ℕ → List RenamedUop → Prop
  | _, [] => True
  | top, r :: older => r.top = top ∧ Tops (undoPushPop r.uop.uinst.opcode top) older

section Log

variable {register top : ℕ} {kind : RegisterKind}

lemma allocated_eq (top : ℕ) (hregister : RegisterKind.ofDep register = some kind) {uop : Uop}
    (hrenamed : uop.Renamed) (hfree : uop.uinst.ControlFree) {deps : List ℕ}
    (hdeps : ∀ dep ∈ deps, dep < MaxODeps) :
    (deps.find? fun dep => logicalRegister top (uop.uinst.odep dep) = register).bind uop.outputs =
      (history (register - kind.first) (uop.log top kind deps)).head?.map LoggedWrite.new := by
  induction deps with
  | nil => rfl
  | cons dep deps ih =>
    have hrest := ih fun d hd => hdeps d (List.mem_cons_of_mem dep hd)
    have hdep := hdeps dep List.mem_cons_self
    have hcontrol := hfree (uop.uinst.odep dep) (.inr ⟨dep, hdep, rfl⟩)
    have hfirst := (ofDep_eq_some_iff.mp hregister).1
    by_cases hkind : RegisterKind.ofDep (uop.uinst.odep dep) = some kind
    · obtain ⟨hnew, hold⟩ := hrenamed dep hdep
      rw [hkind, Option.isSome_some] at hnew hold
      obtain ⟨new, hnew⟩ := Option.isSome_iff_exists.mp hnew.symm
      obtain ⟨old, hold⟩ := Option.isSome_iff_exists.mp hold.symm
      rw [log_cons_some hkind hnew hold]
      have hiff := logicalRegister_eq_iff top hkind hcontrol hfirst
      by_cases hnamed : logicalRegister top (uop.uinst.odep dep) = register
      · rw [List.find?_cons_of_pos (by simpa using hnamed), Option.bind_some, hnew,
          ← hiff.mp hnamed, history_cons_self (w := ⟨_, new, old⟩)]
        rfl
      · rw [List.find?_cons_of_neg (by simpa using hnamed),
          history_cons_of_ne (fun heq => hnamed (hiff.mpr heq)), hrest]
    · have hnamed : ¬ logicalRegister top (uop.uinst.odep dep) = register := by
        intro hnamed
        rw [← hnamed] at hregister
        exact hkind (ofDep_of_logicalRegister hcontrol hregister)
      rw [List.find?_cons_of_neg (by simpa using hnamed), log_cons_none hkind, hrest]

lemma producer_eq (hregister : RegisterKind.ofDep register = some kind) (f : RegisterFile)
    {renamed : List RenamedUop} (htops : Tops top renamed)
    (huops : ∀ r ∈ renamed, r.uop.Renamed ∧ r.uop.uinst.ControlFree) :
    producer f register renamed =
      some (((history (register - kind.first)
        (log kind top (renamed.map RenamedUop.uop))).head?.map LoggedWrite.new).getD
          ((f.bank kind).rat (register - kind.first))) := by
  induction renamed generalizing top with
  | nil =>
    rw [producer, initialMapping, hregister]
    rfl
  | cons r older ih =>
    obtain ⟨rfl, htops⟩ := htops
    obtain ⟨hrenamed, hfree⟩ := huops r List.mem_cons_self
    have holder := ih htops fun u hu => huops u (List.mem_cons_of_mem r hu)
    have hdeps : ∀ dep ∈ (List.range MaxODeps).reverse, dep < MaxODeps := fun dep hdep =>
      List.mem_range.mp (List.mem_reverse.mp hdep)
    have hallocated := allocated_eq r.top hregister hrenamed hfree hdeps
    rw [producer, RenamedUop.allocated, hallocated, holder, List.map_cons, log, history_append]
    cases history (register - kind.first)
        (r.uop.log r.top kind (List.range MaxODeps).reverse) with
    | nil => rfl
    | cons w ws => rfl

/-- The record of a thread is the log of its alias tables, from the register file of the start. -/
structure Accounts (f₀ : RegisterFile) (s : Window) (renamed : List RenamedUop) : Prop where
  tops : Tops s.file.floating_point_top renamed
  buffer : s.reorder_buffer.map Uop.unmarked <+: renamed.map fun r => r.uop.unmarked
  uops : ∀ r ∈ renamed, r.uop.Renamed ∧ r.uop.uinst.ControlFree
  logged : ∀ kind, Logged (s.file.bank kind).rat
    (log kind s.file.floating_point_top (renamed.map RenamedUop.uop))
  rewinds : ∀ kind, rewind (s.file.bank kind).rat
    (log kind s.file.floating_point_top (renamed.map RenamedUop.uop)) = (f₀.bank kind).rat

lemma Accounts.producer_eq {f₀ : RegisterFile} {s : Window} {renamed : List RenamedUop}
    (h : Accounts f₀ s renamed) (hregister : RegisterKind.ofDep register = some kind) :
    producer f₀ register renamed = some ((s.file.bank kind).rat (register - kind.first)) := by
  rw [RegisterFile.producer_eq hregister f₀ h.tops h.uops, ← h.rewinds kind,
    ← (h.logged kind).lookup]

end Log

section Inputs

variable {s s' : Renaming} {f f' : RegisterFile} {uop uop' : Uop}

lemma renameOutput_inputs {dep : ℕ} (h : renameOutput dep s = some s') :
    s'.uop.inputs = s.uop.inputs := by
  simp only [renameOutput] at h
  split at h
  · cases h
    rfl
  · split at h
    · rw [Option.map_eq_some_iff] at h
      obtain ⟨r, -, rfl⟩ := h
      rfl
    · cases h
      rfl

lemma renameFlags_inputs (p : ℕ) (deps : List ℕ) (s : Renaming) :
    (deps.foldl (renameFlag p) s).uop.inputs = s.uop.inputs := by
  induction deps generalizing s with
  | nil => rfl
  | cons dep deps ih =>
    rw [List.foldl_cons, ih]
    unfold renameFlag
    split
    · rfl
    · rfl

lemma Rename_inputs (h : f.Rename uop = some (f', uop')) {dep : ℕ} (hdep : dep < MaxIDeps) :
    uop'.inputs dep = renameInput
      { f with floating_point_top := pushPop uop.uinst.opcode f.floating_point_top }
      (uop.uinst.idep dep) := by
  simp only [RegisterFile.Rename, Option.bind_eq_some_iff] at h
  obtain ⟨s, hs, h⟩ := h
  have hinputs : s.uop.inputs = (renameStart f uop).uop.inputs :=
    run_invariant (P := fun _ _ => True)
      (Q := fun s => s.uop.inputs = (renameStart f uop).uop.inputs)
      (fun _ _ _ hq _ hstep => (renameOutput_inputs hstep).trans hq) rfl
      (along_of_forall (fun _ _ => trivial) _ _) hs
  have huop : uop'.inputs = s.uop.inputs := by
    split at h
    · rw [Option.map_eq_some_iff] at h
      obtain ⟨⟨p, s₁⟩, hrequest, h⟩ := h
      cases h
      rw [renameFlags_inputs]
      unfold requestFlag at hrequest
      split at hrequest
      · cases hrequest
        rfl
      · rw [Option.map_eq_some_iff] at hrequest
        obtain ⟨r, -, heq⟩ := hrequest
        cases heq
        rfl
    · cases h
      rfl
  rw [huop, hinputs]
  exact if_pos hdep

end Inputs

def SameTables (f f' : RegisterFile) : Prop :=
  f'.floating_point_top = f.floating_point_top ∧ ∀ kind, (f'.bank kind).rat = (f.bank kind).rat

lemma Bank.commit_rat {b b' : Bank} {p : ℕ} (h : b.commit p = some b') : b'.rat = b.rat := by
  simp only [Bank.commit] at h
  split at h
  · split at h
    · split at h
      · unfold Bank.release at h
        split at h
        · cases h
          rfl
        · cases h
      · cases h
    · cases h
      rfl
  · cases h

lemma sameTables_CommitUop {f f' : RegisterFile} {uop : Uop} (h : f.CommitUop uop = some f') :
    f.SameTables f' := by
  unfold CommitUop at h
  split at h
  · cases h
  · apply run_invariant (P := fun _ _ => True) (Q := fun g => f.SameTables g) _ ⟨rfl, fun _ => rfl⟩
      (along_of_forall (fun _ _ => trivial) _ _) h
    intro dep g g' hg _ hstep
    unfold commitOutput at hstep
    split at hstep
    · next kind hkind =>
      simp only [Option.bind_eq_some_iff, Option.map_eq_some_iff] at hstep
      obtain ⟨new, -, old, -, b, hb, rfl⟩ := hstep
      refine ⟨hg.1, fun kind' => ?_⟩
      by_cases hne : kind' = kind
      · subst hne
        rw [setBank_self, Bank.commit_rat hb]
        exact hg.2 kind'
      · rw [setBank_of_ne _ hne]
        exact hg.2 kind'
    · split at hstep
      · cases hstep
        exact hg
      · cases hstep

section Steps

variable {size : RegisterKind → ℕ} {f₀ : RegisterFile} {s s' : Window} {renamed : List RenamedUop}

lemma Accounts.same (h : Accounts f₀ s renamed) (hsame : s.file.SameTables s'.file)
    (hbuffer : s'.reorder_buffer.map Uop.unmarked <+: s.reorder_buffer.map Uop.unmarked) :
    Accounts f₀ s' renamed := by
  refine ⟨hsame.1 ▸ h.tops, hbuffer.trans h.buffer, h.uops, fun kind => ?_, fun kind => ?_⟩
  · rw [hsame.1, hsame.2]
    exact h.logged kind
  · rw [hsame.1, hsame.2]
    exact h.rewinds kind

lemma Completes.sameTables {f f' : RegisterFile} (h : Completes f f') : f.SameTables f' :=
  ⟨h.top, h.rat⟩

lemma Accounts.dispatch (h : Accounts f₀ s renamed) (hinv : s.Inv size) {uinst : Uinst}
    (hfree : uinst.ControlFree) {speculative_mode : Bool}
    (hs : s.dispatch { uinst := uinst, speculative_mode := speculative_mode } = some s') :
    ∃ r, s'.youngest = some r ∧ ReadsProducers f₀ r renamed ∧ Accounts f₀ s' (r :: renamed) := by
  obtain ⟨-, uop, hbuffer, hren⟩ := hinv.dispatch rfl hs
  have huinst : uop.uinst = uinst := hren.uinst
  have htop : undoPushPop uop.uinst.opcode s'.file.floating_point_top =
      s.file.floating_point_top := by
    rw [hren.uinst, hren.top, undoPushPop_pushPop hinv.top]
  have hbooks : ∀ kind, Logged (s'.file.bank kind).rat
      (uop.log s'.file.floating_point_top kind (List.range MaxODeps).reverse) := fun kind =>
    (logged_append.mp (hren.books kind).logged).1
  refine ⟨⟨s'.file.floating_point_top, uop⟩, by rw [Window.youngest, hbuffer]; rfl,
    fun dep hdep hvalid => ?_, ⟨?_, ?_, ?_, ?_, ?_⟩⟩
  · rw [Window.dispatch, Option.map_eq_some_iff] at hs
    obtain ⟨⟨f, uop'⟩, hrename, rfl⟩ := hs
    obtain rfl : uop' = uop := (List.cons_eq_cons.mp hbuffer).1
    dsimp only at hvalid ⊢
    rw [huinst] at hvalid ⊢
    obtain ⟨kind, hkind⟩ := Option.isSome_iff_exists.mp hvalid
    have hcontrol := hfree (uinst.idep dep) (.inl ⟨dep, hdep, rfl⟩)
    obtain ⟨hregister, hslot⟩ :=
      logicalRegister_slot f.floating_point_top hkind hcontrol
    rw [h.producer_eq hregister, ← hslot, Nat.add_sub_cancel, Rename_inputs hrename hdep,
      renameInput, hkind, hren.top]
    rfl
  · exact ⟨rfl, htop ▸ h.tops⟩
  · rw [hbuffer, List.map_cons, List.map_cons]
    exact List.cons_prefix_cons.mpr ⟨rfl, h.buffer⟩
  · intro r hr
    obtain rfl | hr := List.mem_cons.mp hr
    · exact ⟨hren.renamed, huinst ▸ hfree⟩
    · exact h.uops r hr
  · intro kind
    rw [List.map_cons, log, htop, logged_append, hren.rewinds]
    exact ⟨hbooks kind, h.logged kind⟩
  · intro kind
    rw [List.map_cons, log, htop, rewind_append, hren.rewinds]
    exact h.rewinds kind

lemma Accounts.squash (h : Accounts f₀ s renamed) (hinv : s.Inv size)
    (hs : s.squash = some s') : Accounts f₀ s' renamed.tail := by
  obtain ⟨uop, rest, hbuffer, hmode⟩ := Window.squash_speculative hs
  obtain ⟨s₁, hs₁, -, hrest, htop, hrat, -⟩ := hinv.squash hbuffer hmode
  rw [hs, Option.some.injEq] at hs₁
  subst hs₁
  cases renamed with
  | nil =>
    have hempty := h.buffer
    rw [hbuffer] at hempty
    simp at hempty
  | cons r older =>
    have hprefix := h.buffer
    rw [hbuffer, List.map_cons, List.map_cons, List.cons_prefix_cons] at hprefix
    obtain ⟨hsame, hprefix⟩ := hprefix
    -- the two copies of the uop differ in the mark only
    have hopcode : r.uop.uinst.opcode = uop.uinst.opcode :=
      congrArg (fun u => u.uinst.opcode) hsame.symm
    have hlog : ∀ kind top, r.uop.log top kind (List.range MaxODeps).reverse =
        uop.log top kind (List.range MaxODeps).reverse := by
      intro kind top
      have hunmarked : r.uop.unmarked.log top kind (List.range MaxODeps).reverse =
          uop.unmarked.log top kind (List.range MaxODeps).reverse := by rw [hsame]
      exact hunmarked
    obtain ⟨-, htops⟩ := h.tops
    have hlogged := h.logged
    have hrewinds := h.rewinds
    simp only [List.map_cons, log, logged_append, rewind_append, hlog, hopcode] at hlogged hrewinds
    rw [List.tail_cons]
    refine ⟨?_, hrest ▸ hprefix, fun u hu => h.uops u (List.mem_cons_of_mem r hu), fun kind => ?_,
      fun kind => ?_⟩
    · rw [htop, ← hopcode]
      exact htops
    · rw [htop, hrat]
      exact (hlogged kind).2
    · rw [htop, hrat]
      exact hrewinds kind

lemma Accounts.step (h : Accounts f₀ s renamed) (hinv : s.Inv size) {config : Config} {e : Event}
    (hcall : e.Called config s) (hfree : e.ControlFree) (hs : Window.step e s = some s') :
    Accounts f₀ s' (e.record s'.youngest renamed) ∧
      (e.isRename → ∀ r ∈ s'.youngest, ReadsProducers f₀ r renamed) := by
  cases e with
  | Rename uinst speculative_mode =>
    obtain ⟨r, hr, hreads, haccounts⟩ := h.dispatch hinv hfree hs
    rw [hr]
    refine ⟨haccounts, fun _ u hu => ?_⟩
    rw [Option.mem_some_iff] at hu
    exact hu ▸ hreads
  | Write place =>
    obtain ⟨-, hcompletes, uop, hplace, hbuffer⟩ := hinv.writeback hs
    refine ⟨h.same hcompletes.sameTables ?_, fun hrename => (Bool.false_ne_true hrename).elim⟩
    rw [hbuffer, map_unmarked_set hplace]
  | WriteLate uop =>
    rw [Window.step, Option.map_eq_some_iff] at hs
    obtain ⟨f, hf, rfl⟩ := hs
    exact ⟨h.same (run_writeOutput hf).1.sameTables (List.prefix_refl _),
      fun hrename => (Bool.false_ne_true hrename).elim⟩
  | Commit =>
    rw [Window.step, Window.commit, Option.bind_eq_some_iff] at hs
    obtain ⟨uop, -, hs⟩ := hs
    rw [Option.map_eq_some_iff] at hs
    obtain ⟨f, hf, rfl⟩ := hs
    refine ⟨h.same (sameTables_CommitUop hf) ?_, fun hrename => (Bool.false_ne_true hrename).elim⟩
    exact (List.dropLast_prefix _).map Uop.unmarked
  | Squash => exact ⟨h.squash hinv hs, fun hrename => (Bool.false_ne_true hrename).elim⟩
  | Others kind n => exact hcall.elim

lemma youngest_of_rename (hinv : s.Inv size) {uinst : Uinst} {speculative_mode : Bool}
    (hs : Window.step (.Rename uinst speculative_mode) s = some s') :
    ∃ r, s'.youngest = some r ∧ r.uop.uinst = uinst := by
  obtain ⟨-, uop, hbuffer, hren⟩ := hinv.dispatch rfl hs
  exact ⟨⟨s'.file.floating_point_top, uop⟩, by rw [Window.youngest, hbuffer]; rfl, hren.uinst⟩

end Steps

namespace Recorded

/-- The record accounts for the alias tables of all threads. -/
structure Inv (config : Config) (c₀ : Core) (t : Recorded) : Prop where
  core : t.core.Inv config
  threads : t.core.threads.length = c₀.threads.length
  accounts : ∀ i, ∀ s₀ ∈ c₀.threads[i]?, ∀ s ∈ t.core.threads[i]?,
    Accounts s₀.file s (t.renamed i)

variable {config : Config} {c₀ : Core} {t : Recorded}

lemma Inv.called (h : t.Inv config c₀) {e : ℕ × Event} (hcall : Core.Called config e t.core) :
    ∃ s s' c', t.core.threads[e.1]? = some s ∧
      e.2.Called config (s.withCore t.core.num_occupied_registers) ∧
      (s.withCore t.core.num_occupied_registers).Inv config.local_size ∧
      Window.step e.2 (s.withCore t.core.num_occupied_registers) = some s' ∧
      Core.step e t.core = some c' ∧ c'.Inv config ∧
      c'.threads = t.core.threads.set e.1 s' := by
  obtain ⟨c', hstep, hinv⟩ := h.core.step hcall
  obtain ⟨s, hs, hcall⟩ := hcall
  have hcore := hstep
  rw [Core.step, hs, Option.bind_some, Option.map_eq_some_iff] at hcore
  obtain ⟨s', hs', rfl⟩ := hcore
  exact ⟨s, s', _, hs, hcall, h.core.books s (List.mem_of_getElem? hs), hs', hstep, hinv, rfl⟩

/-- A call keeps dependences exactly when it names no x87 register outside of the stack, and the
record then accounts for the alias tables again. -/
lemma Inv.step (h : t.Inv config c₀) {e : ℕ × Event} (hcall : Core.Called config e t.core) :
    (KeepsDependences c₀ e t ↔ e.2.ControlFree) ∧
      ∃ t', t.step e = some t' ∧ (e.2.ControlFree → t'.Inv config c₀) := by
  obtain ⟨s, s', c', hs, hcalled, hbooks, hs', hstep, hinv, hthreads⟩ := h.called hcall
  have hlt : e.1 < t.core.threads.length := (List.getElem?_eq_some_iff.mp hs).1
  have hself : c'.threads[e.1]? = some s' := by
    rw [hthreads, List.getElem?_set_self hlt]
  have hyoungest : c'.youngest e.1 = s'.youngest := by rw [Core.youngest, hself, Option.bind_some]
  obtain ⟨s₀, hs₀⟩ : ∃ s₀, c₀.threads[e.1]? = some s₀ :=
    ⟨_, List.getElem?_eq_getElem (h.threads ▸ hlt)⟩
  have haccount := h.accounts e.1 s₀ hs₀ s hs
  have hcore : Accounts s₀.file (s.withCore t.core.num_occupied_registers) (t.renamed e.1) :=
    ⟨haccount.tops, haccount.buffer, haccount.uops, haccount.logged, haccount.rewinds⟩
  have hrecorded : t.step e = some
      { core := c'
        renamed := Function.update t.renamed e.1
          (e.2.record (c'.youngest e.1) (t.renamed e.1)) } := by
    rw [Recorded.step, hstep]
    rfl
  refine ⟨⟨fun hkeeps => ?_, fun hfree hrename t' ht' r hr s₁ hs₁ => ?_⟩, _, hrecorded,
    fun hfree => ⟨hinv, ?_, fun i s₁ hs₁ s₂ hs₂ => ?_⟩⟩
  · rcases e with ⟨thread, e⟩
    cases e with
    | Rename uinst speculative_mode =>
      obtain ⟨r, hr, huinst⟩ := youngest_of_rename hbooks hs'
      obtain ⟨-, hapart⟩ := hkeeps rfl _ hrecorded r (hyoungest.trans hr) s₀ hs₀
      rw [slotsApart_iff, huinst] at hapart
      exact hapart
    | _ => trivial
  · rw [Option.mem_def, hrecorded, Option.some.injEq] at ht'
    subst ht'
    rw [hyoungest] at hr
    obtain rfl : s₁ = s₀ := Option.some.inj (hs₁.symm.trans hs₀)
    refine ⟨(hcore.step hbooks hcalled hfree hs').2 hrename r hr, ?_⟩
    rcases e with ⟨thread, e⟩
    cases e with
    | Rename uinst speculative_mode =>
      obtain ⟨u, hu, huinst⟩ := youngest_of_rename hbooks hs'
      obtain rfl : u = r := Option.some.inj (hu.symm.trans hr)
      rw [slotsApart_iff, huinst]
      exact hfree
    | _ => cases hrename
  · rw [hthreads, List.length_set]
    exact h.threads
  · by_cases hi : i = e.1
    · subst hi
      rw [Option.mem_def, hself, Option.some.injEq] at hs₂
      obtain rfl : s₁ = s₀ := Option.some.inj (hs₁.symm.trans hs₀)
      subst hs₂
      dsimp only
      rw [Function.update_self, hyoungest]
      exact (hcore.step hbooks hcalled hfree hs').1
    · rw [Option.mem_def, hthreads, List.getElem?_set_ne (Ne.symm hi)] at hs₂
      dsimp only
      rw [Function.update_of_ne hi]
      exact h.accounts i s₁ hs₁ s₂ hs₂

lemma along_keepsDependences_iff {es : List (ℕ × Event)} (h : t.Inv config c₀)
    (hcalls : Along Recorded.step (fun e t => Core.Called config e t.core) es t) :
    Along Recorded.step (KeepsDependences c₀) es t ↔ ∀ e ∈ es, e.2.ControlFree := by
  induction es generalizing t with
  | nil => simp [Along]
  | cons e es ih =>
    obtain ⟨hcall, hrest⟩ := hcalls
    obtain ⟨hkeeps, t', ht', hinv⟩ := h.step hcall
    rw [Along, hkeeps, ht', Option.elim_some, List.forall_mem_cons]
    rw [ht', Option.elim_some] at hrest
    exact and_congr_right fun hfree => ih (hinv hfree) hrest

lemma reorder_buffer_new {num_threads : ℕ} {c : Core} (h : Core.new config num_threads = some c)
    {s : Window} (hs : s ∈ c.threads) : s.reorder_buffer = [] := by
  induction num_threads generalizing c with
  | zero =>
    cases h
    cases hs
  | succ n ih =>
    rw [Core.new, Option.bind_eq_some_iff] at h
    obtain ⟨c₁, hc₁, h⟩ := h
    rw [Option.map_eq_some_iff] at h
    obtain ⟨f, hf, rfl⟩ := h
    rw [List.mem_append, List.mem_singleton] at hs
    rcases hs with hs | rfl
    · exact ih hc₁ hs
    · rfl

lemma inv_new {num_threads : ℕ} (h : Core.new config num_threads = some c₀) :
    Inv config c₀ { core := c₀ } := by
  refine ⟨Core.inv_new h, rfl, fun i s₀ hs₀ s hs => ?_⟩
  obtain rfl : s₀ = s := Option.some.inj (hs₀.symm.trans hs)
  refine ⟨trivial, ?_, fun r hr => (List.not_mem_nil hr).elim, fun _ => trivial, fun _ => rfl⟩
  rw [reorder_buffer_new h (List.mem_of_getElem? hs)]
  exact List.prefix_refl _

end Recorded

/-- **Renaming keeps data dependences.** The threads of a core make calls in any order, each as its
stage makes it. -/
theorem keepsDependences_iff {config : Config} {num_threads : ℕ} {c₀ : Core}
    (hnew : Core.new config num_threads = some c₀) {es : List (ℕ × Event)}
    (hcalls : Along Recorded.step (fun e t => Core.Called config e t.core) es { core := c₀ }) :
    Along Recorded.step (KeepsDependences c₀) es { core := c₀ } ↔ ∀ e ∈ es, e.2.ControlFree :=
  Recorded.along_keepsDependences_iff (Recorded.inv_new hnew) hcalls

def addSt1 : Uinst where
  opcode := .FpPop
  idep
    | 0 => 23
    | 1 => 24
    | _ => 0
  odep
    | 0 => 23
    | _ => 0

/-- The other thread has squashed its uop; the second addition reads the result of the first. -/
theorem keepsDependences_addSt1 :
    ∃ c₀, Core.new { kind := .Shared, local_size := fun _ => 160 } 2 = some c₀ ∧
      Along Recorded.step (KeepsDependences c₀)
        [(0, .Rename addSt1 false), (1, .Rename pushTwice true), (1, .Squash),
          (0, .Rename addSt1 false), (0, .Write 1), (0, .Commit), (1, .Rename addEax false)]
        { core := c₀ } := by
  have hcalls : ∃ c₀ ∈ Core.new { kind := .Shared, local_size := fun _ => 160 } 2,
      Along Recorded.step
        (fun e t => Core.Called { kind := .Shared, local_size := fun _ => 160 } e t.core)
        [(0, .Rename addSt1 false), (1, .Rename pushTwice true), (1, .Squash),
          (0, .Rename addSt1 false), (0, .Write 1), (0, .Commit), (1, .Rename addEax false)]
        { core := c₀ } := by
    decide +kernel
  obtain ⟨c₀, hnew, hcalls⟩ := hcalls
  refine ⟨c₀, hnew, (keepsDependences_iff hnew hcalls).mpr ?_⟩
  decide

def fldSt0 : List Uinst :=
  [{ idep := fun | 0 => 23 | _ => 0, odep := fun | 0 => 33 | _ => 0 },
    { opcode := .FpPush },
    { idep := fun | 0 => 33 | _ => 0, odep := fun | 0 => 23 | _ => 0 }]

/-- After the push the auxiliary register has another slot, and the last uop does not read what the
first one wrote. -/
theorem not_readsProducers_fldSt0 :
    ∃ c₀ ∈ Core.new {} 1,
      Along Recorded.step (fun e t => Core.Called {} e t.core)
        (fldSt0.map fun uinst => (0, .Rename uinst false)) { core := c₀ } ∧
      ∃ t ∈ run Recorded.step (fldSt0.map fun uinst => (0, .Rename uinst false)) { core := c₀ },
        ∃ r ∈ t.core.youngest 0, ∃ s₀ ∈ c₀.threads[0]?,
          ¬ ReadsProducers s₀.file r (t.renamed 0).tail := by
  decide +kernel

end RegisterFile

end OISA.X86
