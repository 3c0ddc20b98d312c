import OISA.Proofs.Btb

/-!
# Return address stack

Calls and returns that are nested as in a program.
-/

namespace OISA.X86

/-- A call that pushes its return address. -/
def Uop.calls (uop : Uop) : Prop := uop.opcode = .Call ∧ uop.speculative_mode = false

def Uop.returns (uop : Uop) : Prop := uop.opcode = .Ret ∧ uop.speculative_mode = false

instance (uop : Uop) : Decidable uop.calls := by unfold Uop.calls; infer_instance

instance (uop : Uop) : Decidable uop.returns := by unfold Uop.returns; infer_instance

namespace BranchPredictor

open OISA.Lib

def Op.onStack : Op → Prop
  | .LookupBtb uop => uop.calls ∨ uop.returns
  | _ => False

/-- The operation finds its branch in the BTB. Other operations meet their assertions. -/
def Hits (op : Op) (p : BranchPredictor) : Prop :=
  match op with
  | .LookupBtb uop =>
    if uop.calls ∨ uop.returns then
      p.config.kind ≠ .Perfect ∧ index uop.eip p.config.btb_num_sets < p.config.btb_num_sets ∧
        (p.findBtb (index uop.eip p.config.btb_num_sets) uop.eip).isSome
    else (p.LookupBtb uop).isSome
  | op => (step op p).isSome

instance (op : Op) (p : BranchPredictor) : Decidable (Hits op p) := by
  cases op <;> unfold Hits <;> infer_instance

def target (p : BranchPredictor) : Op → List (BitVec 32)
  | .LookupBtb uop => if uop.returns then ((p.LookupBtb uop).map (·.1)).toList else []
  | _ => []

/-- The targets that the lookups of returns yield along a run. -/
def returned : List Op → BranchPredictor → List (BitVec 32)
  | [], _ => []
  | op :: ops, p => p.target op ++ (step op p).elim [] (returned ops)

/-- A well-nested sequence: a call is followed by a body, the matching return, and the rest. -/
inductive Calls
  | done
  | other (op : {op : Op // ¬ op.onStack}) (rest : Calls)
  | nest (call : {uop : Uop // uop.calls}) (ret : {uop : Uop // uop.returns}) (body rest : Calls)

namespace Calls

def ops : Calls → List Op
  | done => []
  | other op rest => op.1 :: rest.ops
  | nest call ret body rest =>
    .LookupBtb call.1 :: (body.ops ++ .LookupBtb ret.1 :: rest.ops)

def depth : Calls → ℕ
  | done => 0
  | other _ rest => rest.depth
  | nest _ _ body rest => max (body.depth + 1) rest.depth

/-- For each return, the address following its matching call. -/
def expected : Calls → List (BitVec 32)
  | done => []
  | other _ rest => rest.expected
  | nest call _ body rest => body.expected ++ call.1.next :: rest.expected

end Calls

section Steps

variable {p p' : BranchPredictor} {uop : Uop}

lemma step_LookupBtb (p : BranchPredictor) (uop : Uop) :
    step (.LookupBtb uop) p = (p.LookupBtb uop).map (·.2) := rfl

lemma step_other {op : Op} (hop : ¬ op.onStack) (h : step op p = some p') :
    p'.config = p.config ∧ p'.ras = p.ras ∧ p'.ras_index = p.ras_index := by
  cases op with
  | Lookup uop =>
    obtain ⟨_, _, rfl⟩ := Option.map_eq_some_iff.mp h
    exact ⟨rfl, rfl, rfl⟩
  | Update uop =>
    change p.Update uop = some p' at h
    unfold Update UpdateChoice UpdateBimod UpdateTwoLevel at h
    grind
  | LookupBtb uop =>
    obtain ⟨r, hr, rfl⟩ := Option.map_eq_some_iff.mp h
    have hop' : ¬ (uop.calls ∨ uop.returns) := hop
    cases LookupBtb_cases hr with
    | inl hsame => rw [hsame]; exact ⟨rfl, rfl, rfl⟩
    | inr hstack =>
      cases hstack with
      | inl hpush => exact absurd (Or.inl ⟨hpush.1, hpush.2.1⟩) hop'
      | inr hpop => exact absurd (Or.inr ⟨hpop.1, hpop.2.1⟩) hop'
  | UpdateBtb uop =>
    by_cases hkind : p.config.kind = .Perfect
    · rw [UpdateBtb_perfect h hkind]
      exact ⟨rfl, rfl, rfl⟩
    · obtain ⟨_, rfl⟩ | ⟨_, _, rfl⟩ := UpdateBtb_cases h hkind <;> exact ⟨rfl, rfl, rfl⟩

lemma Hits.isSome {op : Op} (hop : ¬ op.onStack) (h : Hits op p) : (step op p).isSome := by
  cases op with
  | LookupBtb uop =>
    have hop' : ¬ (uop.calls ∨ uop.returns) := hop
    simp only [Hits] at h
    rw [if_neg hop'] at h
    rw [step_LookupBtb, Option.isSome_map]
    exact h
  | Lookup uop => exact h
  | Update uop => exact h
  | UpdateBtb uop => exact h

lemma LookupBtb_call (hcall : uop.calls) (h : Hits (.LookupBtb uop) p)
    (hras : p.ras_index < p.config.ras_size) :
    ∃ target, p.LookupBtb uop = some (target, { p with
      ras := Function.update p.ras p.ras_index uop.next
      ras_index := (p.ras_index + 1) % p.config.ras_size }) := by
  simp only [Hits] at h
  rw [if_pos (Or.inl hcall)] at h
  obtain ⟨hkind, hrange, hfound⟩ := h
  obtain ⟨way, hway⟩ := Option.isSome_iff_exists.mp hfound
  unfold LookupBtb
  dsimp only
  rw [hcall.1, if_neg (by decide), if_neg hkind, if_neg (by decide), if_pos hrange, hway]
  dsimp only
  rw [if_pos ⟨rfl, hcall.2⟩]
  unfold push
  rw [if_pos hras]
  exact ⟨_, rfl⟩

lemma LookupBtb_return (hret : uop.returns) (h : Hits (.LookupBtb uop) p)
    (hras : p.ras_index < p.config.ras_size) :
    p.LookupBtb uop =
      some (p.ras ((p.ras_index + p.config.ras_size - 1) % p.config.ras_size), { p with
        ras_index := (p.ras_index + p.config.ras_size - 1) % p.config.ras_size }) := by
  simp only [Hits] at h
  rw [if_pos (Or.inr hret)] at h
  obtain ⟨hkind, hrange, hfound⟩ := h
  obtain ⟨way, hway⟩ := Option.isSome_iff_exists.mp hfound
  unfold LookupBtb
  dsimp only
  rw [hret.1, if_neg (by decide), if_neg hkind, if_neg (by decide), if_pos hrange, hway]
  dsimp only
  rw [if_neg (by simp), if_pos ⟨rfl, hret.2⟩]
  unfold pop
  rw [if_neg (by omega)]

lemma returned_append {is js : List Op} {q : BranchPredictor} (h : run step is p = some q) :
    returned (is ++ js) p = returned is p ++ returned js q := by
  induction is generalizing p with
  | nil =>
    rw [← Option.some.inj h]
    rfl
  | cons op is ih =>
    rw [run_cons] at h
    obtain ⟨r, hstep, hrest⟩ := Option.bind_eq_some_iff.mp h
    rw [List.cons_append, returned, returned, hstep, Option.elim_some, Option.elim_some, ih hrest,
      List.append_assoc]

end Steps

/-! ## The circular array -/

section Circular

variable {n i : ℕ}

lemma add_mod_ne {m : ℕ} (hi : i < n) (hpos : 0 < m) (hm : m < n) : (i + m) % n ≠ i := by
  by_cases hlt : i + m < n
  · rw [Nat.mod_eq_of_lt hlt]
    omega
  · rw [Nat.mod_eq_sub_mod (by omega), Nat.mod_eq_of_lt (by omega)]
    omega

lemma pop_push_index (hi : i < n) : ((i + 1) % n + n - 1) % n = i := by
  by_cases hlt : i + 1 < n
  · rw [Nat.mod_eq_of_lt hlt, Nat.mod_eq_sub_mod (by omega), Nat.mod_eq_of_lt (by omega)]
    omega
  · have hn : i + 1 = n := by omega
    rw [hn, Nat.mod_self, Nat.mod_eq_of_lt (by omega)]
    omega

end Circular

/-- Nested calls leave the top of the stack as it is, and change only the positions that follow
it, as many as they are deep. -/
lemma run_calls (t : Calls) {p : BranchPredictor}
    (hras : 0 < p.config.ras_size → p.ras_index < p.config.ras_size)
    (hdepth : t.depth ≤ p.config.ras_size) (halong : Along step Hits t.ops p) :
    ∃ p', run step t.ops p = some p' ∧ p'.config = p.config ∧ p'.ras_index = p.ras_index ∧
      (∀ j, (∀ k < t.depth, j ≠ (p.ras_index + k) % p.config.ras_size) → p'.ras j = p.ras j) ∧
      returned t.ops p = t.expected := by
  induction t generalizing p with
  | done => exact ⟨p, rfl, rfl, rfl, fun _ _ => rfl, rfl⟩
  | other op rest ih =>
    obtain ⟨hhits, halong'⟩ := halong
    obtain ⟨q, hstep⟩ := Option.isSome_iff_exists.mp (hhits.isSome op.2)
    obtain ⟨hconfig, hstack, hindex⟩ := step_other op.2 hstep
    rw [hstep, Option.elim_some] at halong'
    obtain ⟨p', hrun, hconfig', hindex', hkeeps, hreturned⟩ :=
      ih (by rw [hconfig, hindex]; exact hras) (by rw [hconfig]; exact hdepth) halong'
    refine ⟨p', ?_, hconfig'.trans hconfig, hindex'.trans hindex, ?_, ?_⟩
    · rw [Calls.ops, run_cons, hstep]
      exact hrun
    · intro j hj
      rw [hkeeps j (by rw [hconfig, hindex]; exact hj), hstack]
    · rw [Calls.ops, returned, hstep, Option.elim_some, hreturned, Calls.expected]
      have hnone : p.target op.1 = [] := by
        cases hop : op.1 with
        | LookupBtb uop =>
          have hnot : ¬ uop.returns := by
            intro hret
            have hstack' := op.2
            rw [hop] at hstack'
            exact hstack' (Or.inr hret)
          exact if_neg hnot
        | Lookup uop => rfl
        | Update uop => rfl
        | UpdateBtb uop => rfl
      rw [hnone, List.nil_append]
  | nest call ret body rest ihbody ihrest =>
    have hsize : 0 < p.config.ras_size := by
      have hle : body.depth + 1 ≤ (Calls.nest call ret body rest).depth := le_max_left _ _
      omega
    have hbody : body.depth + 1 ≤ p.config.ras_size := (le_max_left _ _).trans hdepth
    have hrest : rest.depth ≤ p.config.ras_size := (le_max_right _ _).trans hdepth
    have htop := hras hsize
    obtain ⟨hcall, halong₁⟩ := halong
    obtain ⟨target, hlookup⟩ := LookupBtb_call call.2 hcall htop
    have hstep₁ : step (.LookupBtb call.1) p = some { p with
        ras := Function.update p.ras p.ras_index call.1.next
        ras_index := (p.ras_index + 1) % p.config.ras_size } := by
      rw [step_LookupBtb, hlookup]
      rfl
    rw [hstep₁, Option.elim_some] at halong₁
    obtain ⟨halongb, halong₂⟩ := halong₁.append
    -- the body starts one position further, and is one call less deep
    obtain ⟨q, hrunb, hconfigb, hindexb, hkeepsb, hreturnedb⟩ :=
      ihbody (fun _ => Nat.mod_lt _ hsize) (by dsimp only; omega) halongb
    dsimp only at hconfigb hindexb hkeepsb
    rw [hrunb, Option.elim_some] at halong₂
    obtain ⟨hret, halong₃⟩ := halong₂
    have hpop := LookupBtb_return ret.2 hret
      (by rw [hindexb, hconfigb]; exact Nat.mod_lt _ hsize)
    rw [hconfigb, hindexb, pop_push_index htop] at hpop
    have hslot : q.ras p.ras_index = call.1.next := by
      rw [hkeepsb, Function.update_self]
      intro k hk
      rw [Nat.mod_add_mod, Nat.add_assoc]
      exact (add_mod_ne htop (by omega) (by omega)).symm
    rw [hslot] at hpop
    have hstep₂ : step (.LookupBtb ret.1) q = some { q with
        config := p.config
        ras_index := p.ras_index } := by
      rw [step_LookupBtb, hpop]
      rfl
    rw [hstep₂, Option.elim_some] at halong₃
    obtain ⟨p', hrunr, hconfigr, hindexr, hkeepsr, hreturnedr⟩ :=
      ihrest (p := { q with config := p.config, ras_index := p.ras_index }) hras hrest halong₃
    dsimp only at hconfigr hindexr hkeepsr
    refine ⟨p', ?_, hconfigr, hindexr, ?_, ?_⟩
    · rw [Calls.ops, run_cons, hstep₁, Option.bind_some, run_append, hrunb, Option.bind_some,
        run_cons, hstep₂, Option.bind_some]
      exact hrunr
    · intro j hj
      have hbefore : ∀ k < body.depth + 1, j ≠ (p.ras_index + k) % p.config.ras_size :=
        fun k hk => hj k (hk.trans_le (le_max_left _ _))
      rw [hkeepsr j, hkeepsb j, Function.update_of_ne]
      · have h0 := hbefore 0 (by omega)
        rw [Nat.add_zero, Nat.mod_eq_of_lt htop] at h0
        exact h0
      · intro k hk
        have hk' := hbefore (k + 1) (by omega)
        rw [Nat.mod_add_mod, Nat.add_assoc, Nat.add_comm 1 k]
        exact hk'
      · intro k hk
        exact hj k (hk.trans_le (le_max_right _ _))
    · have hnot : ¬ call.1.returns := by
        intro hreturns
        have hop := call.2.1.symm.trans hreturns.1
        cases hop
      rw [Calls.ops, returned, hstep₁, Option.elim_some, returned_append hrunb, returned, hstep₂,
        Option.elim_some, hreturnedb, hreturnedr, Calls.expected]
      unfold BranchPredictor.target
      dsimp only
      rw [if_neg hnot, if_pos ret.2, hpop]
      rfl

/-- The lookup of each return yields the address that follows its call, whatever ran before, if
the calls are not deeper than the stack. -/
theorem run_returned (config : Config) (before : List Op) (p : BranchPredictor)
    (hrun : run step before (new config) = some p) (t : Calls)
    (hdepth : t.depth ≤ config.ras_size) (halong : Along step Hits t.ops p) :
    ∃ p', run step t.ops p = some p' ∧ returned t.ops p = t.expected := by
  have hp : Sound config p := (sound_new config).run hrun
  obtain ⟨p', hrun', _, _, _, hreturned⟩ :=
    run_calls t hp.ras (by rw [hp.config_eq]; exact hdepth) halong
  exact ⟨p', hrun', hreturned⟩

/-- Two calls, one after the other, in a stack with one entry. -/
theorem run_returned_oneEntry :
    let call : Uop := { opcode := .Call, mop_size := 5, eip := 4, neip := 100 }
    let ret : Uop := { opcode := .Ret, mop_size := 1, eip := 101, neip := 9 }
    ∃ p, run step [.UpdateBtb call, .UpdateBtb ret]
        (new { btb_num_sets := 4, btb_num_ways := 2, ras_size := 1 }) = some p ∧
      returned [.LookupBtb call, .LookupBtb ret, .LookupBtb call, .LookupBtb ret] p = [9, 9] := by
  intro call ret
  have hrun := (Option.some_get (by decide +kernel : (run step [.UpdateBtb call, .UpdateBtb ret]
    (new { btb_num_sets := 4, btb_num_ways := 2, ras_size := 1 })).isSome = true)).symm
  obtain ⟨p', _, hreturned⟩ := run_returned _ _ _ hrun
    (.nest ⟨call, by decide⟩ ⟨ret, by decide⟩ .done
      (.nest ⟨call, by decide⟩ ⟨ret, by decide⟩ .done .done))
    (by decide) (by decide +kernel)
  exact ⟨_, hrun, hreturned⟩

end BranchPredictor

end OISA.X86
