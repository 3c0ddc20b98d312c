import OISA.X86.StringOps

/-!
# Repeated string instructions and their loop

The iterations that the calls of `Execute` perform are those of the loop of the definition, except
that `repz_cmpsd` leaves the flags of the opposite comparison.
-/

namespace OISA.X86.StringOps

theorem flagWord_masked (cf pf af zf sf of : Bool) :
    flagWord cf pf af zf sf of &&& ~~~arithmeticFlags = 0 := by
  revert cf pf af zf sf of
  decide

theorem flagWord_cf (cf pf af zf sf of : Bool) :
    (flagWord cf pf af zf sf of).getLsbD 0 = cf := by
  revert cf pf af zf sf of
  decide

theorem flagWord_zf (cf pf af zf sf of : Bool) :
    (flagWord cf pf af zf sf of).getLsbD ZF = zf := by
  revert cf pf af zf sf of
  decide

section Cmp

variable {w : ℕ} (a b : BitVec w) (e : Word)

theorem cmp_masked : cmp a b e &&& ~~~arithmeticFlags = e &&& ~~~arithmeticFlags := by
  unfold cmp
  rw [BitVec.and_or_distrib_right, flagWord_masked, BitVec.and_assoc, BitVec.and_self]
  exact BitVec.or_zero

theorem cmp_congr {e' : Word} (h : e &&& ~~~arithmeticFlags = e' &&& ~~~arithmeticFlags) :
    cmp a b e = cmp a b e' := by
  simp only [cmp, h]

theorem cmp_cf : (cmp a b e).getLsbD 0 = decide (a < b) := by
  have hmask : (~~~arithmeticFlags : Word).getLsbD 0 = false := by decide
  simp only [cmp, BitVec.getLsbD_or, BitVec.getLsbD_and, flagWord_cf, hmask, Bool.and_false,
    Bool.false_or]

theorem cmp_zf : (cmp a b e).getLsbD ZF = decide (a = b) := by
  have hmask : (~~~arithmeticFlags : Word).getLsbD ZF = false := by decide
  simp only [cmp, BitVec.getLsbD_or, BitVec.getLsbD_and, flagWord_zf, hmask, Bool.and_false,
    Bool.false_or]

theorem getLsbD_DF_masked : (e &&& ~~~arithmeticFlags).getLsbD DF = e.getLsbD DF := by
  have hmask : (~~~arithmeticFlags : Word).getLsbD DF = true := by decide
  rw [BitVec.getLsbD_and, hmask, Bool.and_true]

theorem cmp_df : (cmp a b e).getLsbD DF = e.getLsbD DF := by
  rw [← getLsbD_DF_masked, cmp_masked, getLsbD_DF_masked]

/-- The two orders of a comparison agree on all the flags only for equal operands, as one of them
borrows otherwise. -/
theorem cmp_swap_iff : cmp a b e = cmp b a e ↔ a = b := by
  constructor
  · intro h
    have hcf : decide (a < b) = decide (b < a) := by
      rw [← cmp_cf a b e, h, cmp_cf]
    have hlt : a < b ↔ b < a := by simpa using hcf
    have h1 : ¬a < b := fun hab => absurd (hlt.mp hab) (BitVec.lt_asymm hab)
    have h2 : ¬b < a := fun hba => absurd (hlt.mpr hba) (BitVec.lt_asymm hba)
    exact BitVec.le_antisymm (BitVec.not_lt.mp h2) (BitVec.not_lt.mp h1)
  · rintro rfl
    rfl

end Cmp

section Iteration

variable {Mem : Type} (ops : MemoryOps Mem)

theorem stride_congr {r ρ : Regs} (h : r.getFlag DF = ρ.getFlag DF) (n : ℕ) :
    r.stride n = ρ.stride n := by
  unfold Regs.stride
  rw [h]

/-- A comparison leaves the direction. -/
theorem stride_cmp {w : ℕ} (eax ecx esi edi e eip : Word) (a b : BitVec w) (n : ℕ) :
    (Regs.mk eax ecx esi edi (cmp a b e) eip).stride n =
      (Regs.mk eax ecx esi edi e eip).stride n := by
  apply stride_congr
  simp only [Regs.getFlag, cmp_df]

theorem op_of_isCmpsd : ∀ inst : Inst, inst.isCmpsd = true → inst.op = .cmps ∧ inst.size = 4 := by
  intro inst
  cases inst <;> decide

theorem size_of_cmpsb : ∀ inst : Inst, inst.op = .cmps → inst.isCmpsd = false →
    inst.size = 1 := by
  intro inst
  cases inst <;> decide

/-- What an iteration leaves, against the element of the loop at the same registers: only `cmpsd`
has flags of its own, which are those of the loop when the operands are equal. -/
structure Iteration (inst : Inst) (r r₁ ρ : Regs) : Prop where
  ecx : ρ.ecx = r.ecx
  regs : r₁ = { ρ with
    eflags := r₁.eflags
    eip := r₁.eip }
  eip : ρ.eip = r.eip
  zf : r₁.getFlag ZF = ρ.getFlag ZF
  masked : r₁.eflags &&& ~~~arithmeticFlags = ρ.eflags &&& ~~~arithmeticFlags
  eflags : inst.isCmpsd = false → r₁.eflags = ρ.eflags
  swapped : inst.isCmpsd = true → (r₁.eflags = ρ.eflags ↔ ρ.getFlag ZF = true)

theorem Iteration.of_not_cmpsd {inst : Inst} (hd : inst.isCmpsd = false) {r ρ : Regs} (x : Word)
    (hecx : ρ.ecx = r.ecx) (heip : ρ.eip = r.eip) :
    Iteration inst r { ρ with eip := x } ρ where
  ecx := hecx
  regs := rfl
  eip := heip
  zf := rfl
  masked := rfl
  eflags := fun _ => rfl
  swapped := fun h => absurd h (by rw [hd]; decide)

/-- The execution of an instruction other than `cmpsd` is the element. -/
theorem executeStringInst_eq (inst : Inst) (hd : inst.isCmpsd = false) {r r₁ : Regs}
    {m m₁ : Mem} (x : Word)
    (h : executeStringInst ops inst { r with eip := x } m = some (r₁, m₁)) :
    ∃ ρ, element ops inst.op inst.size r m = some (ρ, m₁) ∧ r₁ = { ρ with eip := x } ∧
      ρ.ecx = r.ecx ∧ ρ.eip = r.eip := by
  cases hop : inst.op with
  | movs =>
    simp only [executeStringInst, hop, executeStringInst_movs, Option.bind_eq_bind,
      Option.bind_eq_some_iff, Option.pure_def, Option.some.injEq, Prod.mk.injEq] at h
    obtain ⟨v, hv, m', hm, rfl, rfl⟩ := h
    refine ⟨{ r with
      edi := r.edi + r.stride inst.size
      esi := r.esi + r.stride inst.size }, ?_, rfl, rfl, rfl⟩
    simp only [element, hv, hm, Option.bind_eq_bind, Option.bind_some, Option.pure_def]
  | stos =>
    simp only [executeStringInst, hop, executeStringInst_stos, Option.bind_eq_bind,
      Option.bind_eq_some_iff, Option.pure_def, Option.some.injEq, Prod.mk.injEq] at h
    obtain ⟨m', hm, rfl, rfl⟩ := h
    refine ⟨{ r with edi := r.edi + r.stride inst.size }, ?_, rfl, rfl, rfl⟩
    simp only [element, hm, Option.bind_eq_bind, Option.bind_some, Option.pure_def]
  | scas =>
    simp only [executeStringInst, hop, executeStringInst_scas, Option.bind_eq_bind,
      Option.bind_eq_some_iff, Option.pure_def, Option.some.injEq, Prod.mk.injEq,
      stride_cmp] at h
    obtain ⟨v, hv, rfl, rfl⟩ := h
    refine ⟨{ r with
      edi := r.edi + r.stride inst.size
      eflags := cmp (r.eax.setWidth (8 * inst.size)) v r.eflags }, ?_, rfl, rfl, rfl⟩
    simp only [element, hv, Option.bind_eq_bind, Option.bind_some, Option.pure_def]
  | cmps =>
    have hsize := size_of_cmpsb inst hop hd
    simp only [executeStringInst, hop, hd, executeStringInst_cmpsb, Option.bind_eq_bind,
      Option.bind_eq_some_iff, Option.pure_def, Option.some.injEq, Prod.mk.injEq,
      Bool.false_eq_true, if_false, stride_cmp] at h
    obtain ⟨a, ha, b, hb, rfl, rfl⟩ := h
    refine ⟨{ r with
      esi := r.esi + r.stride 1
      edi := r.edi + r.stride 1
      eflags := cmp a b r.eflags }, ?_, rfl, rfl, rfl⟩
    rw [hsize]
    simp only [element, ha, hb, Option.bind_eq_bind, Option.bind_some, Option.pure_def]

/-- `cmpsd` compares the operands in the other order. -/
theorem executeStringInst_cmpsd_eq (inst : Inst) (hd : inst.isCmpsd = true) {r r₁ : Regs}
    {m m₁ : Mem} (x : Word)
    (h : executeStringInst ops inst { r with eip := x } m = some (r₁, m₁)) :
    ∃ ρ, ∃ a b : BitVec (8 * 4), element ops inst.op inst.size r m = some (ρ, m₁) ∧
      r₁ = { ρ with
        eflags := cmp b a r.eflags
        eip := x } ∧
      ρ.eflags = cmp a b r.eflags ∧ ρ.ecx = r.ecx ∧ ρ.eip = r.eip := by
  have hop := (op_of_isCmpsd inst hd).1
  have hsize := (op_of_isCmpsd inst hd).2
  simp only [executeStringInst, hop, hd, executeStringInst_cmpsd, Option.bind_eq_bind,
    Option.bind_eq_some_iff, Option.pure_def, Option.some.injEq, Prod.mk.injEq,
    if_true, stride_cmp] at h
  obtain ⟨b, hb, a, ha, rfl, rfl⟩ := h
  refine ⟨{ r with
    esi := r.esi + r.stride 4
    edi := r.edi + r.stride 4
    eflags := cmp a b r.eflags }, a, b, ?_, rfl, rfl, rfl, rfl⟩
  rw [hop, hsize]
  simp only [element, ha, hb, Option.bind_eq_bind, Option.bind_some, Option.pure_def]

theorem executeStringInst_element (inst : Inst) {r r₁ : Regs} {m m₁ : Mem} (x : Word)
    (h : executeStringInst ops inst { r with eip := x } m = some (r₁, m₁)) :
    r₁.eip = x ∧ ∃ ρ, element ops inst.op inst.size r m = some (ρ, m₁) ∧
      Iteration inst r r₁ ρ := by
  cases hd : inst.isCmpsd with
  | false =>
    obtain ⟨ρ, helem, rfl, hecx, heip⟩ := executeStringInst_eq ops inst hd x h
    exact ⟨rfl, ρ, helem, Iteration.of_not_cmpsd hd x hecx heip⟩
  | true =>
    obtain ⟨ρ, a, b, helem, rfl, hflags, hecx, heip⟩ := executeStringInst_cmpsd_eq ops inst hd x h
    refine ⟨rfl, ρ, helem, ?_⟩
    constructor
    · exact hecx
    · rfl
    · exact heip
    · simp only [Regs.getFlag, hflags, cmp_zf, eq_comm]
    · rw [hflags, cmp_masked, cmp_masked]
    · intro hf
      rw [hd] at hf
      cases hf
    · intro _
      simp only [Regs.getFlag, hflags, cmp_zf, decide_eq_true_eq]
      rw [cmp_swap_iff, eq_comm]

theorem again_congr (inst : Inst) {r ρ : Regs} (h : r.getFlag ZF = ρ.getFlag ZF) :
    again inst r = again inst ρ := by
  unfold again
  rw [h]

/-- The elements of a comparison replace the arithmetic flags. -/
theorem element_masked (n : ℕ) (r : Regs) (m : Mem) {e : Word}
    (h : e &&& ~~~arithmeticFlags = r.eflags &&& ~~~arithmeticFlags) :
    element ops .cmps n { r with eflags := e } m = element ops .cmps n r m := by
  have hdf : ({ r with eflags := e } : Regs).stride n = r.stride n := by
    apply stride_congr
    calc e.getLsbD DF = (e &&& ~~~arithmeticFlags).getLsbD DF := (getLsbD_DF_masked e).symm
      _ = (r.eflags &&& ~~~arithmeticFlags).getLsbD DF := by rw [h]
      _ = r.eflags.getLsbD DF := getLsbD_DF_masked r.eflags
  have hcmp (a b : BitVec (8 * n)) : cmp a b e = cmp a b r.eflags := cmp_congr a b e h
  simp only [element, hdf, hcmp]

theorem repLoop_masked (inst : Inst) (hop : inst.op = .cmps) (k : ℕ) (r : Regs) (m : Mem)
    {e : Word} (h : e &&& ~~~arithmeticFlags = r.eflags &&& ~~~arithmeticFlags) :
    repLoop ops inst (k + 1) { r with eflags := e } m = repLoop ops inst (k + 1) r m := by
  rw [repLoop, repLoop, hop, element_masked ops inst.size r m h]

end Iteration

/-- The addresses of the micro-instructions are those of the iteration: either what is tracked is
about another instruction, or the addresses it continues with are the ones of the registers. -/
def Agrees {Mem : Type} (inst : Inst) (s : Machine Mem) : Prop :=
  s.track.current_eip = s.regs.eip →
    let drift := (s.track.str_op_count + 1) * BitVec.ofNat 32 inst.size * s.track.str_op_dir
    let esi := s.track.str_op_esi + drift
    let edi := s.track.str_op_edi + drift
    match inst.op with
    | .movs => esi = s.regs.esi ∧ edi = s.regs.edi
    | .stos | .scas => edi = s.regs.edi
    | .cmps => (esi = s.regs.esi ∨ esi = s.regs.edi) ∧ (edi = s.regs.esi ∨ edi = s.regs.edi)

theorem newUinst_ne_nil (op : Op) (n : ℕ) (esi edi : Word) : newUinst op n esi edi ≠ [] := by
  cases op <;> exact List.cons_ne_nil _ _

theorem newUinst_subset_iff (op : Op) (n : ℕ) (esi edi esi' edi' : Word) :
    (∀ a ∈ newUinst op n esi' edi', a ∈ newUinst op n esi edi) ↔
      match op with
      | .movs => esi' = esi ∧ edi' = edi
      | .stos | .scas => edi' = edi
      | .cmps => (esi' = esi ∨ esi' = edi) ∧ (edi' = esi ∨ edi' = edi) := by
  cases op <;> simp [newUinst]

/-- The micro-instructions of a call are about its iteration just when it has one and what is
tracked agrees with the registers. -/
theorem uinsts_iff {Mem : Type} (inst : Inst) (s : Machine Mem) :
    (∀ a ∈ newUinst inst.op inst.size
        ((startRepInst s.track s.regs s.regs.eip).element inst.size
          (startRepInst s.track s.regs s.regs.eip).str_op_esi)
        ((startRepInst s.track s.regs s.regs.eip).element inst.size
          (startRepInst s.track s.regs s.regs.eip).str_op_edi),
      a ∈ performed inst s.regs) ↔ s.regs.ecx ≠ 0 ∧ Agrees inst s := by
  by_cases hecx : s.regs.ecx = 0
  · rw [performed, if_pos hecx]
    constructor
    · intro h
      exact absurd (List.eq_nil_iff_forall_not_mem.mpr fun a ha => List.not_mem_nil (h a ha))
        (newUinst_ne_nil _ _ _ _)
    · intro h
      exact absurd hecx h.1
  rw [performed, if_neg hecx, newUinst_subset_iff, Agrees]
  by_cases heip : s.track.current_eip = s.regs.eip
  · simp only [startRepInst, heip, if_true, Tracking.element, ne_eq, hecx, not_false_eq_true,
      true_and, forall_const]
  · have hzero (x y : Word) : x + 0 * BitVec.ofNat 32 inst.size * y = x := by
      simp
    simp only [startRepInst, heip, if_false, Tracking.element, hzero, ne_eq, hecx,
      not_false_eq_true, true_and, false_implies, iff_true]
    cases inst.op <;> simp

section Calls

variable {Mem : Type} (ops : MemoryOps Mem) {inst : Inst} {isize : Word}

/-- All that a call does: without iterations to do it passes the instruction, otherwise it does
one element and passes the instruction when the flag says so. -/
theorem execute_cases {s s' : Machine Mem} {u : List Access}
    (h : execute ops inst isize s = some (s', u)) :
    ((∀ a ∈ u, a ∈ performed inst s.regs) ↔ s.regs.ecx ≠ 0 ∧ Agrees inst s) ∧
    ((s.regs.ecx = 0 ∧ s'.regs = { s.regs with eip := s.regs.eip + isize } ∧ s'.mem = s.mem) ∨
      (s.regs.ecx ≠ 0 ∧ ∃ ρ r₁, element ops inst.op inst.size s.regs s.mem = some (ρ, s'.mem) ∧
        Iteration inst s.regs r₁ ρ ∧
        s'.regs = { r₁ with
          ecx := s.regs.ecx - 1
          eip := if again inst ρ then s.regs.eip else s.regs.eip + isize })) := by
  have huinsts := uinsts_iff inst s
  unfold execute at h
  by_cases hecx : s.regs.ecx = 0
  · simp only [hecx, ne_eq, not_true_eq_false, if_false, Option.pure_def, Option.some.injEq,
      Prod.mk.injEq] at h
    obtain ⟨rfl, rfl⟩ := h
    refine ⟨huinsts, Or.inl ⟨hecx, ?_, rfl⟩⟩
    rw [← hecx]
  · simp only [ne_eq, hecx, not_false_eq_true, if_true, Option.bind_eq_bind,
      Option.bind_eq_some_iff, Option.pure_def, Option.some.injEq, Prod.mk.injEq] at h
    obtain ⟨⟨r₁, m₁⟩, hexec, rfl, rfl⟩ := h
    obtain ⟨heip, ρ, helem, hit⟩ := executeStringInst_element ops inst _ hexec
    have hzf : ({ r₁ with ecx := r₁.ecx - 1 } : Regs).getFlag ZF = ρ.getFlag ZF := hit.zf
    have hecx₁ : r₁.ecx = s.regs.ecx := by rw [hit.regs, ← hit.ecx]
    refine ⟨huinsts, Or.inr ⟨hecx, ρ, r₁, helem, hit, ?_⟩⟩
    dsimp only
    rw [again_congr inst hzf, hecx₁, heip]
    cases again inst ρ
    · rfl
    · simp only [if_true, BitVec.add_sub_cancel]

theorem runRep_cons {w : Option Tracking} {rest : List (Option Tracking)} {s s' : Machine Mem}
    {log : List (List Access × List Access)}
    (h : runRep ops inst isize (w :: rest) s = some (s', log)) :
    ∃ s₁ u, execute ops inst isize { s with track := w.getD s.track } = some (s₁, u) ∧
      ((s₁.regs.eip = s.regs.eip ∧ ∃ calls, runRep ops inst isize rest s₁ = some (s', calls) ∧
        log = (performed inst s.regs, u) :: calls) ∨
      (s₁.regs.eip ≠ s.regs.eip ∧ rest = [] ∧ s' = s₁ ∧ log = [(performed inst s.regs, u)])) := by
  simp only [runRep, Option.bind_eq_bind, Option.bind_eq_some_iff] at h
  obtain ⟨⟨s₁, u⟩, hexec, h⟩ := h
  refine ⟨s₁, u, hexec, ?_⟩
  dsimp only at h
  split at h
  · rename_i heip
    simp only [Option.bind_eq_some_iff, Option.pure_def, Option.some.injEq, Prod.mk.injEq] at h
    obtain ⟨⟨t, calls⟩, hrun, rfl, rfl⟩ := h
    exact Or.inl ⟨heip, calls, hrun, rfl⟩
  · rename_i heip
    split at h
    · rename_i hrest
      simp only [Option.pure_def, Option.some.injEq, Prod.mk.injEq] at h
      exact Or.inr ⟨heip, hrest, h.1.symm, h.2.symm⟩
    · cases h

/-- No call of the run finds `ecx` zero, and what is tracked agrees with the registers at each. -/
def Tracked (inst : Inst) (isize : Word) : List (Option Tracking) → Machine Mem → Prop
  | [], _ => True
  | wrongPath :: rest, s =>
    let s := { s with track := wrongPath.getD s.track }
    (s.regs.ecx ≠ 0 ∧ Agrees inst s) ∧ ∀ s' u, execute ops inst isize s = some (s', u) →
      Tracked inst isize rest s'

/-- The run performs the loop of the definition, and each load or store of its
micro-instructions is an access of the iteration. -/
structure PerformsLoop (inst : Inst) (isize : Word) (s s' : Machine Mem)
    (log : List (List Access × List Access)) : Prop where
  loop : ∃ r, repLoop ops inst s.regs.ecx.toNat s.regs s.mem = some (r, s'.mem) ∧
    s'.regs = { r with eip := s.regs.eip + isize }
  uinsts : ∀ call ∈ log, ∀ a ∈ call.2, a ∈ call.1

theorem runRep_uinsts_iff {ws : List (Option Tracking)} {s s' : Machine Mem}
    {log : List (List Access × List Access)}
    (h : runRep ops inst isize ws s = some (s', log)) :
    (∀ call ∈ log, ∀ a ∈ call.2, a ∈ call.1) ↔ Tracked ops inst isize ws s := by
  induction ws generalizing s log with
  | nil => cases h
  | cons w rest ih =>
    obtain ⟨s₁, u, hexec, h⟩ := runRep_cons ops h
    have hcall := (execute_cases ops hexec).1
    have hall (P : Machine Mem → Prop) : (∀ s' u', execute ops inst isize
        { s with track := w.getD s.track } = some (s', u') → P s') ↔ P s₁ := by
      constructor
      · intro hP
        exact hP s₁ u hexec
      · intro hP s' u' hexec'
        rw [hexec] at hexec'
        cases hexec'
        exact hP
    rw [Tracked, hall, ← hcall]
    rcases h with ⟨-, calls, hrun, rfl⟩ | ⟨-, rfl, rfl, rfl⟩
    · rw [List.forall_mem_cons, ih hrun]
    · rw [List.forall_mem_singleton]
      exact (and_iff_left trivial).symm

/-- One element of the loop, and what it has left to do -/
theorem repLoop_step {s : Machine Mem} {ρ : Regs} {m : Mem} (hecx : s.regs.ecx ≠ 0)
    (helem : element ops inst.op inst.size s.regs s.mem = some (ρ, m)) :
    repLoop ops inst s.regs.ecx.toNat s.regs s.mem =
      if again inst ρ then
        repLoop ops inst (s.regs.ecx - 1).toNat { ρ with ecx := s.regs.ecx - 1 } m
      else some ({ ρ with ecx := s.regs.ecx - 1 }, m) := by
  have hpos : 0 < s.regs.ecx.toNat := by
    rw [Nat.pos_iff_ne_zero]
    intro h
    exact hecx (BitVec.eq_of_toNat_eq h)
  have hpred : (s.regs.ecx - 1).toNat = s.regs.ecx.toNat - 1 := by
    apply BitVec.toNat_sub_of_le
    rw [BitVec.le_def]
    exact hpos
  have hword : BitVec.ofNat 32 (s.regs.ecx.toNat - 1) = s.regs.ecx - 1 := by
    rw [← hpred, BitVec.ofNat_toNat, BitVec.setWidth_eq]
  obtain ⟨k, hk⟩ := Nat.exists_eq_add_of_lt hpos
  have hk' : s.regs.ecx.toNat = k + 1 := by omega
  rw [hpred, hk', repLoop, helem, ← hword, hk']
  rfl

theorem cmpsd_cases (hd : inst.isCmpsd = true) : inst = .repz_cmpsd ∨ inst = .repnz_cmpsd := by
  cases inst <;> first | exact Or.inl rfl | exact Or.inr rfl | cases hd

/-- Where the run stops, the flags are those of the loop except for `repz_cmpsd`, which stops at
different operands. -/
theorem Iteration.eflags_iff {r r₁ ρ : Regs} (hit : Iteration inst r r₁ ρ)
    (hagain : again inst ρ = false) : r₁.eflags = ρ.eflags ↔ inst ≠ .repz_cmpsd := by
  cases hd : inst.isCmpsd with
  | false =>
    have hne : inst ≠ .repz_cmpsd := by
      rintro rfl
      cases hd
    exact iff_of_true (hit.eflags hd) hne
  | true =>
    rw [hit.swapped hd]
    rcases cmpsd_cases hd with rfl | rfl
    · have hzf : ρ.getFlag ZF = false := hagain
      rw [hzf]
      decide
    · have hzf : (!ρ.getFlag ZF) = false := hagain
      rw [Bool.not_eq_false'] at hzf
      rw [hzf]
      decide

/-- The loop that goes on after an iteration does not see which of the two comparisons it did. -/
theorem Iteration.repLoop_eq {r r₁ ρ : Regs} (hit : Iteration inst r r₁ ρ) (c : Word) (k : ℕ)
    (m : Mem) (hk : 0 < k) :
    repLoop ops inst k { r₁ with
      ecx := c
      eip := r.eip } m = repLoop ops inst k { ρ with ecx := c } m := by
  have hregs : ({ r₁ with
      ecx := c
      eip := r.eip } : Regs) = { ({ ρ with ecx := c } : Regs) with eflags := r₁.eflags } := by
    rw [hit.regs, ← hit.eip]
  rw [hregs]
  cases hd : inst.isCmpsd with
  | false => rw [hit.eflags hd]
  | true =>
    obtain ⟨k, rfl⟩ := Nat.exists_eq_add_of_lt hk
    rw [Nat.zero_add]
    exact repLoop_masked ops inst (op_of_isCmpsd inst hd).1 k { ρ with ecx := c } m hit.masked

theorem runRep_loop (hsize : isize ≠ 0) {ws : List (Option Tracking)} {s s' : Machine Mem}
    {log : List (List Access × List Access)}
    (h : runRep ops inst isize ws s = some (s', log)) (ht : Tracked ops inst isize ws s) :
    ∃ r, repLoop ops inst s.regs.ecx.toNat s.regs s.mem = some (r, s'.mem) ∧
      s'.regs = { r with
        eflags := s'.regs.eflags
        eip := s.regs.eip + isize } ∧
      (s'.regs.eflags = r.eflags ↔ inst ≠ .repz_cmpsd) := by
  induction ws generalizing s log with
  | nil => cases h
  | cons w rest ih =>
    obtain ⟨s₁, u, hexec, h⟩ := runRep_cons ops h
    obtain ⟨⟨hecx, -⟩, hnext⟩ := ht
    obtain ⟨-, ⟨hzero, -⟩ | ⟨-, ρ, r₁, helem, hit, hregs⟩⟩ := execute_cases ops hexec
    · exact absurd hzero hecx
    have hstep := repLoop_step ops hecx helem
    dsimp only at hecx hit hregs hstep
    cases hagain : again inst ρ with
    | true =>
      rw [hagain, if_pos rfl] at hregs hstep
      rcases h with ⟨heip, calls, hrun, -⟩ | ⟨heip, -⟩
      · have ht₁ := hnext s₁ u hexec
        have hpos : 0 < s₁.regs.ecx.toNat := by
          cases rest with
          | nil => cases hrun
          | cons w' rest' =>
            rw [Nat.pos_iff_ne_zero]
            intro hz
            exact ht₁.1.1 (BitVec.eq_of_toNat_eq hz)
        obtain ⟨r, hloop, hr, hflags⟩ := ih hrun ht₁
        rw [heip] at hr
        refine ⟨r, ?_, hr, hflags⟩
        have hecx₁ : s₁.regs.ecx = s.regs.ecx - 1 := by rw [hregs]
        rw [hecx₁] at hpos hloop
        rw [hregs] at hloop
        rw [hstep, ← hit.repLoop_eq ops (s.regs.ecx - 1) _ s₁.mem hpos, hloop]
      · exact absurd (by rw [hregs]) heip
    | false =>
      rw [hagain, if_neg Bool.false_ne_true] at hregs hstep
      rcases h with ⟨heip, -⟩ | ⟨-, -, rfl, -⟩
      · exfalso
        rw [hregs] at heip
        exact hsize (BitVec.self_eq_add_right.mp heip.symm)
      · refine ⟨_, hstep, ?_, ?_⟩
        · rw [hregs, hit.regs]
        · rw [hregs]
          exact hit.eflags_iff hagain

end Calls

/-- A memory of a few bytes at address zero -/
def byteMemory : MemoryOps (List (BitVec 8)) where
  read m a n :=
    if a.toNat + n ≤ m.length then
      some (BitVec.ofNat _ (((m.drop a.toNat).take n).foldr (fun b x => b.toNat + 256 * x) 0))
    else none
  write m a n v :=
    if a.toNat + n ≤ m.length then
      some ((List.range n).foldl
        (fun m i => m.set (a.toNat + i) ((v >>> (8 * i)).setWidth 8)) m)
    else none

/-- At the instruction at `0x1000`, after another one -/
def atString (eax ecx edi : Word) (mem : List (BitVec 8)) : Machine (List (BitVec 8)) where
  regs := ⟨eax, ecx, 0, edi, 0x202, 0x1000⟩
  mem := mem
  track := ⟨0xffe, 0, 0, 0, 1⟩

end OISA.X86.StringOps
