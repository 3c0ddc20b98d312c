import OISA.Proofs.RenameLogs
import OISA.Proofs.Squashing

/-!
# The register files in every run
-/

/-!
## Calls that do not fail

Renaming an uop succeeds when `canRename` has found enough free registers, and committing one does
when the registers that are pending belong to younger uops.
-/

namespace OISA.X86.RegisterFile

open OISA.Lib Uinst

namespace Bank

variable {b b' b'' : Bank} {l p q : ℕ}

def Counts (b b' : Bank) : Prop :=
  b'.core_num_occupied_registers + b.num_occupied_registers =
    b.core_num_occupied_registers + b'.num_occupied_registers

lemma Counts.trans (h : b.Counts b') (h' : b'.Counts b'') : b.Counts b'' := by
  unfold Counts at *
  omega

lemma counts_request (h : b.request = some (p, b')) : b.Counts b' := by
  unfold request at h
  split at h
  · cases h
  · split at h
    · cases h
      unfold Counts
      dsimp only
      omega
    · cases h

lemma counts_release (h : b.release p = some b') : b.Counts b' := by
  unfold release at h
  split at h
  · next hpos =>
    cases h
    unfold Counts
    dsimp only
    omega
  · cases h

lemma counts_undo (h : b.undo l p q = some b') : b.Counts b' := by
  unfold undo at h
  dsimp only at h
  split at h
  · rw [Option.bind_eq_some_iff] at h
    obtain ⟨b₁, hb₁, h⟩ := h
    have hfirst : b.Counts b₁ := by
      split at hb₁
      · have hrelease := counts_release hb₁
        exact hrelease
      · cases hb₁
        rfl
    split at h
    · cases h
      exact hfirst
    · cases h
  · cases h

lemma counts_commit (h : b.commit p = some b') : b.Counts b' := by
  unfold commit at h
  dsimp only at h
  split_ifs at h
  · have hrelease := counts_release h
    exact hrelease
  · cases h
    rfl

end Bank

def Counts (f f' : RegisterFile) : Prop := ∀ kind, (f.bank kind).Counts (f'.bank kind)

section Counters

variable {f f' f'' : RegisterFile} {uop uop' : Uop}

lemma Counts.refl (f : RegisterFile) : f.Counts f := fun _ => rfl

lemma Counts.trans (h : f.Counts f') (h' : f'.Counts f'') : f.Counts f'' :=
  fun kind => (h kind).trans (h' kind)

lemma counts_setBank {kind : RegisterKind} {b : Bank} (h : (f.bank kind).Counts b) :
    f.Counts (f.setBank kind b) := by
  intro kind'
  by_cases hne : kind' = kind
  · subst hne
    rw [setBank_self]
    exact h
  · rw [setBank_of_ne _ hne]
    rfl

lemma counts_run {step : ℕ → RegisterFile → Option RegisterFile}
    (hstep : ∀ dep f f', step dep f = some f' → f.Counts f') {deps : List ℕ}
    (h : run step deps f = some f') : f.Counts f' :=
  run_invariant (P := fun _ _ => True) (Q := fun g => f.Counts g)
    (fun dep g g' hg _ hs => hg.trans (hstep dep g g' hs)) (Counts.refl f)
    (along_of_forall (fun _ _ => trivial) deps f) h

lemma counts_renameOutput {dep : ℕ} {s s' : Renaming} (h : renameOutput dep s = some s') :
    s.file.Counts s'.file := by
  unfold renameOutput at h
  dsimp only at h
  split at h
  · cases h
    exact Counts.refl _
  · split at h
    · rw [Option.map_eq_some_iff] at h
      obtain ⟨⟨p, b⟩, hrequest, rfl⟩ := h
      have hcounts := Bank.counts_request hrequest
      exact counts_setBank hcounts
    · cases h
      exact Counts.refl _

lemma counts_renameFlags (p : ℕ) (deps : List ℕ) (s : Renaming) :
    s.file.Counts (deps.foldl (renameFlag p) s).file := by
  induction deps generalizing s with
  | nil => exact Counts.refl _
  | cons dep deps ih =>
    have hfirst : s.file.Counts (renameFlag p s dep).file := by
      unfold renameFlag
      split
      · exact counts_setBank rfl
      · exact Counts.refl _
    exact hfirst.trans (ih _)

lemma counts_Rename (h : f.Rename uop = some (f', uop')) : f.Counts f' := by
  simp only [RegisterFile.Rename, Option.bind_eq_some_iff] at h
  obtain ⟨s, hs, h⟩ := h
  have hfirst : f.Counts s.file :=
    run_invariant (P := fun _ _ => True) (Q := fun t => f.Counts t.file)
      (fun dep t t' ht _ hstep => ht.trans (counts_renameOutput hstep)) (Counts.refl f)
      (along_of_forall (fun _ _ => trivial) _ _) hs
  split at h
  · rw [Option.map_eq_some_iff] at h
    obtain ⟨⟨p, s₁⟩, hrequest, h⟩ := h
    cases h
    have hflag : s.file.Counts s₁.file := by
      unfold requestFlag at hrequest
      split at hrequest
      · cases hrequest
        exact Counts.refl _
      · rw [Option.map_eq_some_iff] at hrequest
        obtain ⟨⟨q, b⟩, hb, heq⟩ := hrequest
        cases heq
        exact counts_setBank (Bank.counts_request hb)
    exact (hfirst.trans hflag).trans (counts_renameFlags p _ s₁)
  · cases h
    exact hfirst

lemma counts_WriteUop (h : f.WriteUop uop = some f') : f.Counts f' := by
  apply counts_run _ h
  intro dep g g' hs
  unfold writeOutput at hs
  split at hs
  · rw [Option.map_eq_some_iff] at hs
    obtain ⟨p, -, rfl⟩ := hs
    exact counts_setBank rfl
  · cases hs
    exact Counts.refl _

lemma counts_UndoUop (h : f.UndoUop uop = some f') : f.Counts f' := by
  unfold UndoUop at h
  split at h
  · rw [Option.map_eq_some_iff] at h
    obtain ⟨g, hg, rfl⟩ := h
    have hundo : f.Counts g := by
      apply counts_run _ hg
      intro dep g g' hs
      unfold undoOutput at hs
      split at hs
      · simp only [Option.bind_eq_some_iff, Option.map_eq_some_iff] at hs
        obtain ⟨new, -, old, -, b, hb, rfl⟩ := hs
        exact counts_setBank (Bank.counts_undo hb)
      · split at hs
        · cases hs
          exact Counts.refl _
        · cases hs
    exact hundo
  · cases h

lemma counts_CommitUop (h : f.CommitUop uop = some f') : f.Counts f' := by
  unfold CommitUop at h
  split at h
  · cases h
  · apply counts_run _ h
    intro dep g g' hs
    unfold commitOutput at hs
    split at hs
    · simp only [Option.bind_eq_some_iff, Option.map_eq_some_iff] at hs
      obtain ⟨new, -, old, -, b, hb, rfl⟩ := hs
      exact counts_setBank (Bank.counts_commit hb)
    · split at hs
      · cases hs
        exact Counts.refl _
      · cases hs

end Counters

lemma Bank.Balanced.request_isSome {n size : ℕ} {b : Bank} {log : List (LoggedWrite ℕ ℕ)}
    (h : b.Balanced n size none log) (hfree : 0 < b.free_registers.length) :
    ∃ p b', b.request = some (p, b') ∧
      b'.free_registers.length + 1 = b.free_registers.length := by
  obtain ⟨p, rest, hlist⟩ := List.exists_cons_of_length_pos hfree
  have hmem : p ∈ b.free_registers := by
    rw [hlist]
    exact List.mem_cons_self
  obtain ⟨-, hbusy, -⟩ := (h.free p).mp hmem
  refine ⟨p, { b with
    free_registers := rest
    num_occupied_registers := b.num_occupied_registers + 1
    core_num_occupied_registers := b.core_num_occupied_registers + 1 }, ?_, ?_⟩
  · unfold Bank.request
    rw [hlist]
    exact if_pos ⟨hbusy, h.idle p hmem⟩
  · rw [hlist]
    rfl

def Uop.needs (uop : Uop) (kind : RegisterKind) (deps : List ℕ) : ℕ :=
  deps.countP fun dep => RegisterKind.ofDep (uop.uinst.odep dep) = some kind ∧
    isFlagDependency (uop.uinst.odep dep) = false

lemma needs_cons (uop : Uop) (kind : RegisterKind) (dep : ℕ) (deps : List ℕ) :
    uop.needs kind (dep :: deps) = uop.needs kind deps + uop.needs kind [dep] := by
  rw [Uop.needs, Uop.needs, Uop.needs, ← List.countP_append, List.countP_cons, List.countP_append,
    List.countP_singleton]

section Requests

variable {size : RegisterKind → ℕ} {f₀ f : RegisterFile}
  {logs : RegisterKind → List (LoggedWrite ℕ ℕ)} {uop₀ uop : Uop} {s s' : Renaming}

structure Taken (uop₀ : Uop) (todo : List ℕ) (s s' : Renaming) : Prop where
  free : ∀ kind, (s'.file.bank kind).free_registers.length + uop₀.needs kind todo =
    (s.file.bank kind).free_registers.length
  flag : s'.flag_physical_register = none →
    s.flag_physical_register = none ∧ uop₀.needs .Integer todo = 0

lemma FirstPass.step_isSome {deps : List ℕ} (h : FirstPass size f₀ logs deps uop₀ s) {dep : ℕ}
    (hfree : ∀ kind, uop₀.needs kind [dep] ≤ (s.file.bank kind).free_registers.length) :
    ∃ s', renameOutput dep s = some s' ∧ Taken uop₀ [dep] s s' := by
  have huinst := h.partway.uinst
  unfold renameOutput
  dsimp only
  rw [huinst]
  cases hflag : isFlagDependency (uop₀.uinst.odep dep) with
  | true =>
    have hneeds : ∀ kind, uop₀.needs kind [dep] = 0 := fun kind => by
      rw [Uop.needs, List.countP_singleton, if_neg (by simp [hflag])]
    exact ⟨_, if_pos rfl, fun kind => by rw [hneeds, add_zero], fun hnone => ⟨hnone, hneeds _⟩⟩
  | false =>
    rw [if_neg Bool.false_ne_true]
    cases hkind : RegisterKind.ofDep (uop₀.uinst.odep dep) with
    | none =>
      have hneeds : ∀ kind, uop₀.needs kind [dep] = 0 := fun kind => by
        rw [Uop.needs, List.countP_singleton, if_neg (by simp [hkind])]
      exact ⟨_, rfl, fun kind => by rw [hneeds, add_zero], fun hnone => ⟨hnone, hneeds _⟩⟩
    | some kind =>
      have hneeds : ∀ kind', uop₀.needs kind' [dep] = if kind' = kind then 1 else 0 := by
        intro kind'
        rw [Uop.needs, List.countP_singleton]
        simp only [hkind, hflag, Option.some.injEq, and_true]
        by_cases hne : kind' = kind
        · simp [hne]
        · simp [hne, Ne.symm hne]
      have hpos : 0 < (s.file.bank kind).free_registers.length := by
        have hle := hfree kind
        rwa [hneeds, if_pos rfl] at hle
      obtain ⟨p, b, hrequest, hlength⟩ := (h.partway.books kind).request_isSome hpos
      dsimp only
      refine ⟨_, by rw [hrequest]; rfl, fun kind' => ?_, fun hnone => ?_⟩
      · rw [hneeds]
        by_cases hne : kind' = kind
        · subst hne
          simp only [Renaming.assign, setBank_self, if_true]
          exact hlength
        · simp only [Renaming.assign, setBank_of_ne _ hne, if_neg hne, add_zero]
      · dsimp only at hnone
        by_cases hint : kind = .Integer
        · rw [if_pos hint, Option.or_eq_none_iff] at hnone
          cases hnone.2
        · rw [if_neg hint] at hnone
          refine ⟨hnone, ?_⟩
          rw [hneeds, if_neg (Ne.symm hint)]

lemma FirstPass.run_isSome {deps todo : List ℕ} (h : FirstPass size f₀ logs deps uop₀ s)
    (hnodup : (todo.reverse ++ deps).Nodup)
    (hfree : ∀ kind, uop₀.needs kind todo ≤ (s.file.bank kind).free_registers.length) :
    ∃ s', Lib.run renameOutput todo s = some s' ∧ Taken uop₀ todo s s' := by
  induction todo generalizing s deps with
  | nil => exact ⟨s, rfl, fun _ => rfl, fun hnone => ⟨hnone, rfl⟩⟩
  | cons dep todo ih =>
    simp only [needs_cons uop₀ _ dep todo] at hfree
    rw [List.reverse_cons, List.append_assoc] at hnodup
    have hdep : dep ∉ deps := (List.nodup_cons.mp (List.nodup_append.mp hnodup).2.1).1
    obtain ⟨s₁, hs₁, htaken⟩ := h.step_isSome fun kind => (Nat.le_add_left _ _).trans (hfree kind)
    have hrest : ∀ kind, uop₀.needs kind todo ≤ (s₁.file.bank kind).free_registers.length := by
      intro kind
      have hlength := htaken.free kind
      have hle := hfree kind
      omega
    obtain ⟨s', hs', htaken'⟩ := ih (h.step hdep hs₁) hnodup hrest
    refine ⟨s', by rw [run_cons, hs₁, Option.bind_some, hs'], fun kind => ?_, fun hnone => ?_⟩
    · rw [needs_cons, ← htaken.free kind, ← htaken'.free kind]
      omega
    · obtain ⟨hnone₁, hzero'⟩ := htaken'.flag hnone
      obtain ⟨hnone₀, hzero⟩ := htaken.flag hnone₁
      refine ⟨hnone₀, ?_⟩
      rw [needs_cons, hzero, hzero']

lemma Rename_isSome
    (hf : ∀ kind, (f.bank kind).Balanced kind.depCount (size kind) none (logs kind))
    (hfree : ∀ kind, uop.numOutputs kind ≤ (f.bank kind).free_registers.length) :
    ∃ f' uop', f.Rename uop = some (f', uop') := by
  have hneeds : ∀ kind, uop.needs kind (List.range MaxODeps) ≤ uop.numOutputs kind := by
    intro kind
    unfold Uop.numOutputs
    dsimp only
    split
    · next hone => exact hone.2.2.le.trans (Nat.zero_le 1)
    · exact le_rfl
  obtain ⟨s, hs, htaken⟩ := (firstPass_start hf uop).run_isSome (by simp [List.nodup_range])
    fun kind => (hneeds kind).trans (hfree kind)
  have hfirst := (firstPass_start hf uop).run (by simp [List.nodup_range]) hs
  have hrun := hs
  unfold renameStart at hrun
  simp only [RegisterFile.Rename]
  rw [hrun, Option.bind_some]
  by_cases hcount : 0 < s.flag_count
  · rw [if_pos hcount]
    suffices hrequest : ∃ r, requestFlag s = some r by
      obtain ⟨r, hr⟩ := hrequest
      exact ⟨_, _, by rw [hr]; rfl⟩
    unfold requestFlag
    cases hflag : s.flag_physical_register with
    | some p => exact ⟨_, rfl⟩
    | none =>
      -- no output of the uop has an integer register, so one is left for the flags
      obtain ⟨-, hzero⟩ := htaken.flag hflag
      rw [hfirst.count, List.append_nil, List.countP_reverse] at hcount
      have hone : uop.numOutputs .Integer = 1 := by
        unfold Uop.numOutputs
        exact if_pos ⟨rfl, hcount.ne', hzero⟩
      have hlength := htaken.free .Integer
      have hle := hfree .Integer
      rw [hzero, add_zero] at hlength
      rw [hone] at hle
      obtain ⟨p, b, hrequest, -⟩ :=
        (hfirst.partway.books .Integer).request_isSome (by rw [hlength]; exact hle)
      exact ⟨_, by rw [hrequest]; rfl⟩
  · rw [if_neg hcount]
    exact ⟨_, _, rfl⟩

end Requests

end OISA.X86.RegisterFile

/-!
## The accounting of the register files

The threads of a core rename, complete, commit and squash in any order, each call as its stage
makes it.
-/

namespace OISA.X86.RegisterFile

open OISA.Lib Uinst

/-- What the stages make sure of before they call the register file: `Dispatch` asks `canRename`,
`Writeback` has an uop that is not completed, which may have left the reorder buffer, `Commit` asks
`canCommit`, and `Recover` stops at an uop that is not speculative. -/
def Event.Called (config : Config) : Event → Window → Prop
  | .Rename uinst speculative_mode, s =>
    canRename config s.file { uinst := uinst, speculative_mode := speculative_mode } = true
  | .Write place, s => ∃ uop ∈ s.reorder_buffer[place]?, uop.completed = false
  | .WriteLate uop, _ => uop.Renamed
  | .Commit, s => ∃ uop ∈ s.reorder_buffer.getLast?, uop.canCommit = true
  | .Squash, s => ∃ uop ∈ s.reorder_buffer.head?, uop.speculative_mode = true
  | .Others _ _, _ => False

lemma Uop.HasOutput.not_canCommit {uop : Uop} {kind : RegisterKind} {p : ℕ}
    (hout : uop.HasOutput kind p) (hopen : uop.completed = false) : uop.canCommit = false := by
  obtain ⟨dep, hdep, hkind, -⟩ := hout
  by_contra hcan
  simp only [Uop.canCommit, hopen, Bool.false_or, Bool.not_eq_false, Bool.and_eq_true,
    List.all_eq_true] at hcan
  have hnone := hcan.2 dep (List.mem_range.mpr hdep)
  rw [hkind] at hnone
  cases hnone

instance (config : Config) (e : Event) (s : Window) : Decidable (e.Called config s) :=
  match e with
  | .Rename uinst speculative_mode => inferInstanceAs (Decidable (canRename config s.file
      { uinst := uinst, speculative_mode := speculative_mode } = true))
  | .Write place => inferInstanceAs (Decidable (∃ uop ∈ s.reorder_buffer[place]?,
      uop.completed = false))
  | .WriteLate uop => inferInstanceAs (Decidable (∀ dep < MaxODeps,
      (RegisterKind.ofDep (uop.uinst.odep dep)).isSome = (uop.outputs dep).isSome ∧
        (RegisterKind.ofDep (uop.uinst.odep dep)).isSome = (uop.old_outputs dep).isSome))
  | .Commit => inferInstanceAs (Decidable (∃ uop ∈ s.reorder_buffer.getLast?,
      uop.canCommit = true))
  | .Squash => inferInstanceAs (Decidable (∃ uop ∈ s.reorder_buffer.head?,
      uop.speculative_mode = true))
  | .Others _ _ => inferInstanceAs (Decidable False)

namespace Window

def Owned (s : Window) : Prop :=
  ∀ kind p, ((s.file.bank kind).registers p).pending = true →
    ∃ uop ∈ s.reorder_buffer, uop.completed = false ∧ uop.HasOutput kind p

section Calls

variable {config : Config} {size : RegisterKind → ℕ} {s s' : Window}

lemma Owned.completes (ho : s.Owned) {f : RegisterFile} (hf : Completes s.file f) :
    Owned { s with file := f } := by
  intro kind p hp
  apply ho kind p
  by_contra hnot
  rw [Bool.not_eq_true] at hnot
  exact Bool.false_ne_true ((hf.pending kind p hnot).symm.trans hp)

lemma Inv.free_of_canRename (h : s.Inv config.local_size) {uop : Uop}
    (hcan : canRename config s.file uop = true) (kind : RegisterKind) :
    uop.numOutputs kind ≤ (s.file.bank kind).free_registers.length := by
  have hall := List.all_eq_true.mp hcan kind (by cases kind <;> simp)
  have hbooks := h.books kind
  have hoccupied := hbooks.occupied
  have hcore := hbooks.core
  rw [hbooks.sized] at hoccupied
  rw [decide_eq_true_eq] at hall
  split at hall
  · omega
  · omega

lemma Owned.dispatch (h : s.Inv config.local_size) (ho : s.Owned) {uop : Uop}
    (hopen : uop.completed = false) (hcan : canRename config s.file uop = true) :
    ∃ s', s.dispatch uop = some s' ∧ s'.Owned := by
  obtain ⟨f, uop', hrename⟩ := Rename_isSome h.books (h.free_of_canRename hcan)
  have hs : s.dispatch uop = some { file := f, reorder_buffer := uop' :: s.reorder_buffer } := by
    rw [Window.dispatch, hrename]
    rfl
  have hren := Rename_renames h.books hrename
  refine ⟨_, hs, fun kind p hp => ?_⟩
  rcases hren.pending kind p hp with hbefore | hout
  · obtain ⟨u, hu, hrest⟩ := ho kind p hbefore
    exact ⟨u, List.mem_cons_of_mem uop' hu, hrest⟩
  · exact ⟨uop', List.mem_cons_self, hren.completed.trans hopen, hout⟩

lemma Owned.writeback (h : s.Inv size) (ho : s.Owned) {place : ℕ} {uop : Uop}
    (hplace : s.reorder_buffer[place]? = some uop) (hopen : uop.completed = false) :
    ∃ s', s.writeback place = some s' ∧ s'.Owned := by
  have hrenamed := h.renamed uop (List.mem_of_getElem? hplace)
  obtain ⟨f, hf⟩ := run_writeOutput_isSome hrenamed (fun dep => List.mem_range.mp) s.file
  obtain ⟨hcompletes, hwritten⟩ := run_writeOutput hf
  have hs : s.writeback place = some
      { file := f
        reorder_buffer := s.reorder_buffer.set place { uop with completed := true } } := by
    rw [Window.writeback, hplace, Option.bind_some, hopen, if_neg Bool.false_ne_true, WriteUop, hf]
    rfl
  refine ⟨_, hs, fun kind p hp => ?_⟩
  obtain ⟨u, hu, hudone, hout⟩ := ho.completes hcompletes kind p hp
  -- the outputs of this uop are not pending any more
  have hne : u ≠ uop := by
    rintro rfl
    obtain ⟨dep, hdep, hkind, houtput⟩ := hout
    have hdone := hwritten dep (List.mem_range.mpr hdep) kind p hkind houtput
    exact Bool.false_ne_true (hdone.symm.trans hp)
  obtain ⟨i, hi⟩ := List.getElem?_of_mem hu
  have hplaces : place ≠ i := by
    rintro rfl
    exact hne (Option.some.inj (hi.symm.trans hplace))
  refine ⟨u, List.mem_of_getElem? (i := i) ?_, hudone, hout⟩
  rw [List.getElem?_set_ne hplaces]
  exact hi

lemma Owned.commit (h : s.Inv size) (ho : s.Owned) {uop : Uop}
    (hlast : s.reorder_buffer.getLast? = some uop) (hcan : uop.canCommit = true) :
    ∃ s', s.commit = some s' ∧ s'.Owned := by
  have hbuffer := List.dropLast_append_getLast? uop hlast
  -- the uop that is committed owns no pending register
  have hyounger : ∀ kind p, ((s.file.bank kind).registers p).pending = true →
      ∃ u ∈ s.reorder_buffer.dropLast, u.completed = false ∧ u.HasOutput kind p := by
    intro kind p hp
    obtain ⟨u, hu, hopen, hout⟩ := ho kind p hp
    rw [← hbuffer, List.mem_append, List.mem_singleton] at hu
    rcases hu with hu | rfl
    · exact ⟨u, hu, hopen, hout⟩
    · rw [hout.not_canCommit hopen] at hcan
      cases hcan
  have hlogged : ∀ kind p, ((s.file.bank kind).registers p).pending = true →
      ∃ w ∈ log kind s.file.floating_point_top s.reorder_buffer.dropLast, w.new = p := by
    intro kind p hp
    obtain ⟨u, hu, -, dep, hdep, hkind, hout⟩ := hyounger kind p hp
    exact mem_log hu (h.renamed u (List.mem_of_mem_dropLast hu)) hdep hkind hout _
  have hmem : uop ∈ s.reorder_buffer := List.mem_of_getLast? hlast
  obtain ⟨f, hf⟩ := run_commitOutput_isSome (h.renamed uop hmem) (fun dep => List.mem_range.mp)
    (h.oldest hlast) hlogged
  have hmode : uop.speculative_mode = false := by
    unfold Uop.canCommit at hcan
    rw [Bool.and_eq_true, Bool.not_eq_true'] at hcan
    exact hcan.1
  have hs : s.commit = some { file := f, reorder_buffer := s.reorder_buffer.dropLast } := by
    rw [Window.commit, hlast, Option.bind_some, CommitUop, hmode, if_neg Bool.false_ne_true, hf]
    rfl
  obtain ⟨-, -, hpending⟩ := h.commit hs
  refine ⟨_, hs, fun kind p hp => ?_⟩
  exact hyounger kind p ((hpending kind p).symm.trans hp)

lemma Owned.squash (h : s.Inv size) (ho : s.Owned) {uop : Uop}
    (hhead : s.reorder_buffer.head? = some uop) (hmode : uop.speculative_mode = true) :
    ∃ s', s.squash = some s' ∧ s'.Owned := by
  obtain ⟨rest, hbuffer⟩ := List.head?_eq_some_iff.mp hhead
  obtain ⟨s', hs, -, hrest, -, -, hpending⟩ := h.squash hbuffer hmode
  refine ⟨s', hs, fun kind p hp => ?_⟩
  obtain ⟨hbefore, hnot⟩ := hpending kind p hp
  obtain ⟨u, hu, hopen, hout⟩ := ho kind p hbefore
  rw [hbuffer, List.mem_cons] at hu
  rcases hu with rfl | hu
  · exact absurd hout hnot
  · exact ⟨u, hrest ▸ hu, hopen, hout⟩

lemma Inv.call (h : s.Inv config.local_size) (ho : s.Owned) {e : Event}
    (hcall : e.Called config s) :
    ∃ s', Window.step e s = some s' ∧ s'.Inv config.local_size ∧ s'.Owned := by
  suffices hstep : ∃ s', Window.step e s = some s' ∧ s'.Owned by
    obtain ⟨s', hs, ho'⟩ := hstep
    exact ⟨s', hs, h.step hs, ho'⟩
  cases e with
  | Rename uinst speculative_mode => exact ho.dispatch h rfl hcall
  | Write place =>
    obtain ⟨uop, hplace, hopen⟩ := hcall
    exact ho.writeback h hplace hopen
  | WriteLate uop =>
    obtain ⟨f, hf⟩ := run_writeOutput_isSome hcall (fun dep => List.mem_range.mp) s.file
    exact ⟨{ s with file := f }, by rw [Window.step, WriteUop, hf]; rfl,
      ho.completes (run_writeOutput hf).1⟩
  | Commit =>
    obtain ⟨uop, hlast, hcan⟩ := hcall
    exact ho.commit h hlast hcan
  | Squash =>
    obtain ⟨uop, hhead, hmode⟩ := hcall
    exact ho.squash h hhead hmode
  | Others kind n => exact hcall.elim

lemma owned_new {core : RegisterKind → ℕ} {f : RegisterFile} (h : new config core = some f) :
    Owned ⟨f, []⟩ := by
  intro kind p hp
  have hidle : ∀ q, ((f.bank kind).registers q).pending = false := by
    apply new_keeps (Q := fun b => ∀ q, (b.registers q).pending = false) _ _ h kind
    · exact fun _ => rfl
    · intro b q b' hb hrequest
      unfold Bank.request at hrequest
      split at hrequest
      · cases hrequest
      · split at hrequest
        · cases hrequest
          exact hb
        · cases hrequest
    · intro b l q hb r
      rw [Bank.mapTo_pending]
      exact hb r
  exact absurd ((hidle p).symm.trans hp) Bool.false_ne_true

end Calls

end Window

namespace Window

variable {size : RegisterKind → ℕ} {s s' : Window} {e : Event} {core : RegisterKind → ℕ}

lemma counts_step (h : Window.step e s = some s') (he : ∀ kind n, e ≠ .Others kind n) :
    s.file.Counts s'.file := by
  cases e with
  | Rename uinst speculative_mode =>
    rw [Window.step, Window.dispatch, Option.map_eq_some_iff] at h
    obtain ⟨⟨f, uop⟩, hf, rfl⟩ := h
    exact counts_Rename hf
  | Write place =>
    rw [Window.step, Window.writeback, Option.bind_eq_some_iff] at h
    obtain ⟨uop, -, h⟩ := h
    split at h
    · cases h
    · rw [Option.map_eq_some_iff] at h
      obtain ⟨f, hf, rfl⟩ := h
      exact counts_WriteUop hf
  | WriteLate uop =>
    rw [Window.step, Option.map_eq_some_iff] at h
    obtain ⟨f, hf, rfl⟩ := h
    exact counts_WriteUop hf
  | Commit =>
    rw [Window.step, Window.commit, Option.bind_eq_some_iff] at h
    obtain ⟨uop, -, h⟩ := h
    rw [Option.map_eq_some_iff] at h
    obtain ⟨f, hf, rfl⟩ := h
    exact counts_CommitUop hf
  | Squash =>
    rw [Window.step, Window.squash] at h
    split at h
    · cases h
    · rw [Option.bind_eq_some_iff] at h
      obtain ⟨f₁, hf₁, h⟩ := h
      rw [Option.map_eq_some_iff] at h
      obtain ⟨f, hf, rfl⟩ := h
      have hwritten : s.file.Counts f₁ := by
        split at hf₁
        · cases hf₁
          exact Counts.refl _
        · exact counts_WriteUop hf₁
      exact hwritten.trans (counts_UndoUop hf)
  | Others kind n => exact absurd rfl (he kind n)

lemma Inv.setCore (h : (s.withCore core).Inv size) {core' : RegisterKind → ℕ}
    (hle : ∀ kind, (s.file.bank kind).num_occupied_registers ≤ core' kind) :
    (s.withCore core').Inv size :=
  ⟨h.top, fun kind => (h.books kind).setCore (hle kind), h.renamed, h.written⟩

end Window

lemma sum_map_set {α : Type} (g : α → ℕ) {l : List α} {i : ℕ} {a : α} (h : l[i]? = some a) (b : α) :
    ((l.set i b).map g).sum + g a = (l.map g).sum + g b := by
  induction l generalizing i with
  | nil => cases h
  | cons x l ih =>
    cases i with
    | zero =>
      obtain rfl := Option.some.inj h
      simp only [List.set_cons_zero, List.map_cons, List.sum_cons]
      omega
    | succ i =>
      have hrest := ih h
      simp only [List.set_cons_succ, List.map_cons, List.sum_cons]
      omega

namespace Core

/-- Number of registers of a kind that a thread has occupied -/
def occupied (kind : RegisterKind) (s : Window) : ℕ := (s.file.bank kind).num_occupied_registers

/-- The call is one that the stages of the thread make. -/
def Called (config : Config) (e : ℕ × Event) (c : Core) : Prop :=
  ∃ s ∈ c.threads[e.1]?, e.2.Called config (s.withCore c.num_occupied_registers)

instance (config : Config) (e : ℕ × Event) (c : Core) : Decidable (Called config e c) :=
  inferInstanceAs (Decidable (∃ s ∈ c.threads[e.1]?,
    e.2.Called config (s.withCore c.num_occupied_registers)))

/-- The counters of the core are sums, and the books of its threads are right. -/
structure Inv (config : Config) (c : Core) : Prop where
  counters : ∀ kind, c.num_occupied_registers kind = (c.threads.map (occupied kind)).sum
  books : ∀ s ∈ c.threads, (s.withCore c.num_occupied_registers).Inv config.local_size
  owned : ∀ s ∈ c.threads, s.Owned

variable {config : Config} {c c' : Core}

lemma occupied_le {threads : List Window} {s : Window} (hs : s ∈ threads) (kind : RegisterKind) :
    (s.file.bank kind).num_occupied_registers ≤ (threads.map (occupied kind)).sum :=
  List.single_le_sum (fun _ _ => Nat.zero_le _) _ (List.mem_map_of_mem hs)

lemma inv_new {num_threads : ℕ} (h : Core.new config num_threads = some c) : c.Inv config := by
  induction num_threads generalizing c with
  | zero =>
    cases h
    exact ⟨fun _ => rfl, fun s hs => absurd hs List.not_mem_nil,
      fun s hs => absurd hs List.not_mem_nil⟩
  | succ n ih =>
    rw [Core.new, Option.bind_eq_some_iff] at h
    obtain ⟨c₁, hc₁, h⟩ := h
    rw [Option.map_eq_some_iff] at h
    obtain ⟨f, hf, rfl⟩ := h
    have hinv := ih hc₁
    have hcount : ∀ kind, f.coreCounters kind =
        c₁.num_occupied_registers kind + (f.bank kind).num_occupied_registers := by
      intro kind
      apply new_keeps (Q := fun b => b.core_num_occupied_registers =
        c₁.num_occupied_registers kind + b.num_occupied_registers) _ _ hf kind
      · rfl
      · intro b p b' hb hrequest
        have hcounts := Bank.counts_request hrequest
        unfold Bank.Counts at hcounts
        omega
      · exact fun _ _ hb => hb
    refine ⟨fun kind => ?_, fun s hs => ?_, fun s hs => ?_⟩
    · rw [List.map_append, List.sum_append, ← hinv.counters]
      exact hcount kind
    · rw [List.mem_append, List.mem_singleton] at hs
      rcases hs with hs | rfl
      · apply (hinv.books s hs).setCore
        intro kind
        have hle := occupied_le hs kind
        rw [← hinv.counters] at hle
        exact hle.trans ((Nat.le_add_right _ _).trans (hcount kind).ge)
      · exact Window.inv_new hf
    · rw [List.mem_append, List.mem_singleton] at hs
      rcases hs with hs | rfl
      · exact hinv.owned s hs
      · exact Window.owned_new hf

lemma Inv.step (h : c.Inv config) {e : ℕ × Event} (hcall : Called config e c) :
    ∃ c', Core.step e c = some c' ∧ c'.Inv config := by
  obtain ⟨s, hs, hcall⟩ := hcall
  have hmem : s ∈ c.threads := List.mem_of_getElem? hs
  obtain ⟨s', hs', hinv', ho'⟩ := (h.books s hmem).call (h.owned s hmem) hcall
  have hcounts := Window.counts_step hs' fun kind n heq => by
    rw [heq] at hcall
    exact hcall
  have hstep : Core.step e c = some
      { num_occupied_registers := s'.file.coreCounters, threads := c.threads.set e.1 s' } := by
    rw [Core.step, hs, Option.bind_some, hs']
    rfl
  have hsum : ∀ kind, s'.file.coreCounters kind =
      ((c.threads.set e.1 s').map (occupied kind)).sum := by
    intro kind
    have hset := sum_map_set (occupied kind) hs s'
    have hkind : s'.file.coreCounters kind + occupied kind s =
        c.num_occupied_registers kind + occupied kind s' := hcounts kind
    rw [h.counters] at hkind
    omega
  refine ⟨_, hstep, hsum, fun u hu => ?_, fun u hu => ?_⟩
  · have hle : ∀ kind, (u.file.bank kind).num_occupied_registers ≤ s'.file.coreCounters kind := by
      intro kind
      rw [hsum]
      exact occupied_le hu kind
    obtain hu | rfl := List.mem_or_eq_of_mem_set hu
    · exact (h.books u hu).setCore hle
    · exact hinv'
  · obtain hu | rfl := List.mem_or_eq_of_mem_set hu
    · exact h.owned u hu
    · exact ho'

end Core

/-- Number of outputs that found the register in the alias table -/
def Uop.oldMappings (uop : Uop) (kind : RegisterKind) (p : ℕ) : ℕ :=
  (List.range MaxODeps).countP fun dep =>
    RegisterKind.ofDep (uop.uinst.odep dep) = some kind ∧ uop.old_outputs dep = some p

/-- Number of positions of the alias table that are mapped to the register -/
def Bank.mappings (b : Bank) (kind : RegisterKind) (p : ℕ) : ℕ :=
  ((Finset.range kind.depCount).filter fun l => b.rat l = p).card

/-- The busy counters are the numbers of mappings, in the alias table and in flight, and the free
list has the registers without one, each once. -/
structure Accounted (s : Window) (kind : RegisterKind) : Prop where
  busy : ∀ p, ((s.file.bank kind).registers p).busy =
    (s.file.bank kind).mappings kind p +
      (s.reorder_buffer.map fun uop => uop.oldMappings kind p).sum
  free : ∀ p, p ∈ (s.file.bank kind).free_registers ↔
    p < (s.file.bank kind).local_size ∧ ((s.file.bank kind).registers p).busy = 0
  nodup : (s.file.bank kind).free_registers.Nodup

lemma countP_log (kind : RegisterKind) (p : ℕ) {us : List Uop} (hus : ∀ uop ∈ us, uop.Renamed)
    (top : ℕ) : ((log kind top us).countP fun w => w.old = p) =
      (us.map fun uop => uop.oldMappings kind p).sum := by
  induction us generalizing top with
  | nil => rfl
  | cons uop us ih =>
    have hrenamed := hus uop List.mem_cons_self
    rw [log, List.countP_append, ih (fun u hu => hus u (List.mem_cons_of_mem uop hu)),
      List.map_cons, List.sum_cons, Uop.log, List.countP_filterMap, List.countP_reverse]
    congr 1
    apply List.countP_congr
    intro dep hdep
    obtain ⟨houtput, -⟩ := hrenamed dep (List.mem_range.mp hdep)
    unfold Uop.outputAt
    by_cases hkind : RegisterKind.ofDep (uop.uinst.odep dep) = some kind
    · rw [hkind, Option.isSome_some] at houtput
      obtain ⟨new, hnew⟩ := Option.isSome_iff_exists.mp houtput.symm
      rw [if_pos hkind, hnew, Option.bind_some]
      cases uop.old_outputs dep with
      | none => simp
      | some old => simp [hkind]
    · simp [hkind]

lemma Window.Inv.accounted {size : RegisterKind → ℕ} {s : Window} (h : s.Inv size)
    (kind : RegisterKind) : Accounted s kind where
  busy p := by
    rw [(h.books kind).busy p, holders, countP_log kind p h.renamed]
    rfl
  free p := by
    rw [(h.books kind).free p]
    simp
  nodup := (h.books kind).nodup

/-- **Register-file accounting.** No call of a run fails, every busy counter is the number of
mappings in the alias table and of old mappings in flight, and the free list has the registers
without one, each once. -/
theorem calls_accounted {config : Config} {num_threads : ℕ} {c₀ : Core}
    (hnew : Core.new config num_threads = some c₀) {es : List (ℕ × Event)}
    (hcalls : Along Core.step (Core.Called config) es c₀) :
    ∃ c, run Core.step es c₀ = some c ∧ ∀ s ∈ c.threads, ∀ kind, Accounted s kind := by
  obtain ⟨c, hrun, hinv⟩ := run_total (fun e c (h : c.Inv config) hcall => h.step hcall)
    (Core.inv_new hnew) hcalls
  refine ⟨c, hrun, fun s hs kind => ?_⟩
  obtain ⟨hbusy, hfree, hnodup⟩ := (hinv.books s hs).accounted kind
  exact ⟨hbusy, hfree, hnodup⟩

/-- An addition with the outputs `eax`, `zps`, `of` and `cf` -/
def addEax : Uinst where
  odep
    | 0 => 1
    | 1 => 15
    | 2 => 16
    | 3 => 17
    | _ => 0

/-- Two threads share their registers; one squashes what the other does not see. -/
theorem calls_accounted_shared :
    ∃ c₀, Core.new { kind := .Shared, local_size := fun _ => 160 } 2 = some c₀ ∧
      ∃ c, run Core.step [(0, .Rename addEax false), (1, .Rename pushTwice true), (0, .Write 0),
          (1, .Squash), (0, .Commit), (1, .Rename popFlags false)] c₀ = some c ∧
        ∀ s ∈ c.threads, ∀ kind, Accounted s kind := by
  have hcalls : ∃ c₀ ∈ Core.new { kind := .Shared, local_size := fun _ => 160 } 2,
      Along Core.step (Core.Called { kind := .Shared, local_size := fun _ => 160 })
        [(0, .Rename addEax false), (1, .Rename pushTwice true), (0, .Write 0),
          (1, .Squash), (0, .Commit), (1, .Rename popFlags false)] c₀ := by
    decide +kernel
  obtain ⟨c₀, hnew, hcalls⟩ := hcalls
  exact ⟨c₀, hnew, calls_accounted hnew hcalls⟩

lemma Window.Inv.check {size : RegisterKind → ℕ} {s : Window} (h : s.Inv size) :
    s.file.CheckRegisterFile = true := by
  unfold CheckRegisterFile
  rw [List.all_eq_true]
  intro kind _
  have hbooks := h.books kind
  rw [Bool.and_eq_true, List.all_eq_true, List.all_eq_true]
  constructor
  · intro p hp
    exact decide_eq_true ⟨((hbooks.free p).mp hp).2.1, hbooks.idle p hp⟩
  · intro position hposition
    have hmem := Finset.mem_range.mpr (List.mem_range.mp hposition)
    have hpos : 0 < holders (Finset.range kind.depCount) (s.file.bank kind).rat
      (log kind s.file.floating_point_top s.reorder_buffer) ((s.file.bank kind).rat position) :=
      holders_pos_of_mem hmem
    rw [← hbooks.busy] at hpos
    exact decide_eq_true hpos.ne'

/-- Number of registers that have a mapping -/
def Bank.inUse (b : Bank) : ℕ :=
  ((Finset.range b.local_size).filter fun p => (b.registers p).busy ≠ 0).card

lemma Window.Inv.inUse {size : RegisterKind → ℕ} {s : Window} (h : s.Inv size)
    (kind : RegisterKind) : Core.occupied kind s = (s.file.bank kind).inUse := by
  have hbooks := h.books kind
  have hfree : (s.file.bank kind).free_registers.toFinset =
      (Finset.range (s.file.bank kind).local_size).filter fun p =>
        ¬((s.file.bank kind).registers p).busy ≠ 0 := by
    ext p
    rw [List.mem_toFinset, hbooks.free p]
    simp
  have hcard := Finset.card_filter_add_card_filter_not
    (s := Finset.range (s.file.bank kind).local_size)
    fun p => ((s.file.bank kind).registers p).busy ≠ 0
  rw [← hfree, List.toFinset_card_of_nodup hbooks.nodup, Finset.card_range] at hcard
  exact Nat.add_right_cancel (hbooks.occupied.trans hcard.symm)

/-- **The check of the register files.** Along the same calls no assertion of the check fails, and
the counters of the core are the numbers of registers that the threads have in use. -/
theorem calls_checked {config : Config} {num_threads : ℕ} {c₀ : Core}
    (hnew : Core.new config num_threads = some c₀) {es : List (ℕ × Event)}
    (hcalls : Along Core.step (Core.Called config) es c₀) :
    ∃ c, run Core.step es c₀ = some c ∧ (∀ s ∈ c.threads, s.file.CheckRegisterFile = true) ∧
      ∀ kind, c.num_occupied_registers kind =
        (c.threads.map fun s => (s.file.bank kind).inUse).sum := by
  obtain ⟨c, hrun, hinv⟩ := run_total (fun e c (h : c.Inv config) hcall => h.step hcall)
    (Core.inv_new hnew) hcalls
  refine ⟨c, hrun, fun s hs => (hinv.books s hs).check, fun kind => ?_⟩
  rw [hinv.counters]
  exact congrArg List.sum (List.map_congr_left fun s hs => (hinv.books s hs).inUse kind)

/-- Two threads of which one squashes what it renamed -/
theorem calls_checked_squash :
    ∃ c₀ ∈ Core.new {} 2, ∃ c, run Core.step [(0, .Rename addEax false),
        (1, .Rename pushTwice true), (1, .Squash)] c₀ = some c ∧
      (∀ s ∈ c.threads, s.file.CheckRegisterFile = true) ∧ ∀ kind,
        c.num_occupied_registers kind =
          (c.threads.map fun s => (s.file.bank kind).inUse).sum := by
  have hcalls : ∃ c₀ ∈ Core.new {} 2, Along Core.step (Core.Called {}) [(0, .Rename addEax false),
      (1, .Rename pushTwice true), (1, .Squash)] c₀ := by
    decide +kernel
  obtain ⟨c₀, hnew, hcalls⟩ := hcalls
  exact ⟨c₀, hnew, calls_checked hnew hcalls⟩

/-- The three flags that the addition writes were one register, which the one uop holds thrice:
the busy counter is not the number of mappings and of uops. -/
theorem busy_ne_uops :
    ∃ c₀ ∈ Core.new {} 1, Along Core.step (Core.Called {}) [(0, .Rename addEax false)] c₀ ∧
      ∃ c ∈ run Core.step [(0, .Rename addEax false)] c₀, ∃ s ∈ c.threads[0]?,
        ((s.file.bank .Integer).registers 66).busy ≠ (s.file.bank .Integer).mappings .Integer 66 +
          s.reorder_buffer.countP fun uop => 0 < uop.oldMappings .Integer 66 := by
  decide +kernel

end OISA.X86.RegisterFile
