import OISA.Proofs.TraceRecording

/-!
# The address behind a trace

`Lookup` goes on at the target of the last branch of the trace whenever one was recorded and the
mask predicts a branch taken behind those in the trace.
-/

namespace OISA.X86

open OISA.Lib OISA.Lib.Bits

namespace MacroInstruction

/-- Address that follows the instruction -/
def next (m : MacroInstruction) : BitVec 32 := m.eip + BitVec.ofNat 32 m.mop_size

end MacroInstruction

namespace TraceCache

inductive Call
  | record (m : MacroInstruction) (mop_index : Fin m.opcodes.length)
  | flush

def Call.step (call : Call) (tc : TraceCache) : Option TraceCache :=
  match call with
  | .record m mop_index => tc.RecordUop (m.uop mop_index (m.opcodes.get mop_index))
  | .flush => tc.Flush

def Call.instruction? : Call → Option MacroInstruction
  | .record m mop_index => if mop_index.val = 0 then some m else none
  | .flush => none

def recordInstruction (temp : Entry) (m : MacroInstruction) : Entry :=
  let uop := m.uop 0 (m.opcodes.head m.opcodes_ne)
  if uop.opcode.FlagCtrl then appendBranch (append temp uop) uop else append temp uop

def recordTrace (trace : List MacroInstruction) : Entry := trace.foldl recordInstruction {}

/-- The entry is what a flush leaves of the trace, but for the counter. -/
def EntryOf (trace : List MacroInstruction) (e : Entry) : Prop :=
  ∃ temp, trimBranch (recordTrace trace) = some temp ∧ e = { temp with counter := e.counter }

section Spec

variable (trace : List MacroInstruction) (taken : Bool)

/-- The target of the last instruction if it is a branch predicted taken, and else the address
that follows the trace -/
def nextAddress : BitVec 32 :=
  match trace.getLast? with
  | none => 0
  | some m => if m.branch && taken then m.target_neip else m.next

def recordedTarget : BitVec 32 :=
  ((trace.filter MacroInstruction.startsWithBranch).getLast?.map (·.target_neip)).getD 0

/-- No branch is predicted taken, or the target recorded belongs to the last instruction. -/
def TargetOfLast : Prop :=
  taken = true → ∀ m, trace.getLast? = some m →
    if m.branch then
      recordedTarget trace ≠ 0 ∧ recordedTarget trace = m.target_neip ∨
        recordedTarget trace = 0 ∧ m.next = m.target_neip
    else recordedTarget trace = 0 ∨ recordedTarget trace = m.next

end Spec

section Trace

variable {trace : List MacroInstruction} {m : MacroInstruction} {e : Entry}

lemma recordTrace_concat :
    recordTrace (trace ++ [m]) = recordInstruction (recordTrace trace) m := by
  unfold recordTrace
  rw [List.foldl_append, List.foldl_cons, List.foldl_nil]

lemma recordInstruction_fall_through (temp : Entry) :
    (recordInstruction temp m).fall_through = m.next := by
  unfold recordInstruction
  dsimp only
  split_ifs <;> rfl

lemma recordInstruction_target (temp : Entry) :
    (recordInstruction temp m).target =
      if m.startsWithBranch then m.target_neip else temp.target := by
  unfold recordInstruction
  change (if m.startsWithBranch = true then _ else _ : Entry).target = _
  split_ifs <;> rfl

lemma recordTrace_fall_through :
    (recordTrace trace).fall_through = (trace.getLast?.map (·.next)).getD 0 := by
  induction trace using List.reverseRecOn with
  | nil => rfl
  | append_singleton trace m _ =>
    rw [recordTrace_concat, recordInstruction_fall_through, List.getLast?_concat]
    rfl

lemma recordInstruction_uop_count (temp : Entry) :
    (recordInstruction temp m).uop_count = temp.uop_count + m.opcodes.length := by
  unfold recordInstruction
  dsimp only
  split_ifs <;> rfl

lemma eq_nil_of_uop_count (h : (recordTrace trace).uop_count = 0) : trace = [] := by
  induction trace using List.reverseRecOn with
  | nil => rfl
  | append_singleton trace m _ =>
    have hpos := List.length_pos_of_ne_nil m.opcodes_ne
    rw [recordTrace_concat, recordInstruction_uop_count] at h
    omega

lemma recordTrace_target : (recordTrace trace).target = recordedTarget trace := by
  induction trace using List.reverseRecOn with
  | nil => rfl
  | append_singleton trace m ih =>
    rw [recordTrace_concat, recordInstruction_target, ih]
    unfold recordedTarget
    rw [List.filter_append]
    split_ifs with hm
    · rw [List.filter_cons_of_pos hm, List.filter_nil, List.getLast?_concat]
      rfl
    · rw [List.filter_cons_of_neg hm, List.filter_nil, List.append_nil]

lemma trimBranch_addresses {temp : Entry} (h : trimBranch e = some temp) :
    temp.fall_through = e.fall_through ∧ temp.target = e.target := by
  unfold trimBranch at h
  split_ifs at h
  · rw [← Option.some.inj h]
    exact ⟨rfl, rfl⟩
  · rw [← Option.some.inj h]
    exact ⟨rfl, rfl⟩

lemma EntryOf.fall_through_eq (h : EntryOf trace e) :
    e.fall_through = (trace.getLast?.map (·.next)).getD 0 := by
  obtain ⟨temp, htrim, he⟩ := h
  rw [he, (trimBranch_addresses htrim).1, recordTrace_fall_through]

lemma EntryOf.target_eq (h : EntryOf trace e) : e.target = recordedTarget trace := by
  obtain ⟨temp, htrim, he⟩ := h
  rw [he, (trimBranch_addresses htrim).2, recordTrace_target]

lemma entryOf_nil (counter : ℤ) : EntryOf [] { counter := counter } := ⟨{}, rfl, rfl⟩

lemma EntryOf.withCounter (h : EntryOf trace e) (counter : ℤ) :
    EntryOf trace { e with counter := counter } := by
  obtain ⟨temp, htrim, he⟩ := h
  refine ⟨temp, htrim, ?_⟩
  rw [he]

end Trace

section Calls

variable {ms : List MacroInstruction} {m : MacroInstruction} {tc tc' : TraceCache}

/-- The entries are traces of instructions recorded one after another, and the temporary entry
records the last ones. -/
structure Traced (ms : List MacroInstruction) (tc : TraceCache) : Prop where
  temp : ∃ trace, trace <:+ ms ∧ tc.temp = recordTrace trace
  entries : ∀ i, ∃ trace, trace <:+: ms ∧ EntryOf trace (tc.entries i)

lemma traced_new (config : Config) : Traced [] (new config) where
  temp := ⟨[], List.nil_suffix, rfl⟩
  entries := fun _ => ⟨[], List.nil_infix, entryOf_nil _⟩

/-- The trace that is flushed goes into one entry, and the others change no more than their
counters. -/
lemma Flush_entries (h : tc.Flush = some tc') :
    (tc.temp.uop_count = 0 ∧ tc' = tc) ∨ ∃ temp, trimBranch tc.temp = some temp ∧ tc'.temp = {} ∧
      ∀ i, ∃ counter, tc'.entries i = { tc.entries i with counter := counter } ∨
        tc'.entries i = { temp with counter := counter } := by
  unfold Flush at h
  by_cases hzero : tc.temp.uop_count = 0
  · rw [if_pos hzero] at h
    exact Or.inl ⟨hzero, (Option.some.inj h).symm⟩
  · by_cases htag : tc.temp.tag = 0
    · rw [if_neg hzero, if_pos htag] at h
      cases h
    · rw [if_neg hzero, if_neg htag] at h
      obtain ⟨temp, htrim, hfill⟩ := Option.bind_eq_some_iff.mp h
      right
      refine ⟨temp, htrim, ?_⟩
      have hcopy : ∀ entries i j, (∀ k, ∃ counter,
          entries k = { tc.entries k with counter := counter }) →
          ∃ counter, (tc.fill entries i temp).entries j =
              { tc.entries j with counter := counter } ∨
            (tc.fill entries i temp).entries j = { temp with counter := counter } := by
        intro entries i j hentries
        obtain ⟨counter, hj⟩ := hentries j
        unfold fill
        dsimp only
        by_cases hji : j = i
        · rw [hji, Function.update_self]
          exact ⟨_, Or.inr rfl⟩
        · rw [Function.update_of_ne hji]
          exact ⟨counter, Or.inl hj⟩
      dsimp only at hfill
      cases hway : tc.findWay (temp.tag.toNat % tc.config.num_sets) temp with
      | some found_way =>
        rw [hway] at hfill
        rw [← Option.some.inj hfill]
        exact ⟨rfl, fun j => hcopy _ _ j fun k => ⟨(tc.entries k).counter, rfl⟩⟩
      | none =>
        rw [hway] at hfill
        obtain ⟨found_way, _, hfill⟩ := Option.map_eq_some_iff.mp hfill
        rw [← hfill]
        refine ⟨rfl, fun j => hcopy _ _ j ?_⟩
        intro k
        have hevict := (tc.evict_loop (temp.tag.toNat % tc.config.num_sets)
          tc.config.num_ways).1 k
        change (tc.evict _).1 k = _ at hevict
        rw [hevict]
        split_ifs
        · exact ⟨_, rfl⟩
        · exact ⟨(tc.entries k).counter, rfl⟩

lemma Traced.flush (h : Traced ms tc) (hflush : tc.Flush = some tc') : Traced ms tc' := by
  cases Flush_entries hflush with
  | inl hsame =>
    rw [hsame.2]
    exact h
  | inr hnew =>
    obtain ⟨temp, htrim, hempty, hentries⟩ := hnew
    refine ⟨⟨[], List.nil_suffix, hempty⟩, ?_⟩
    intro i
    obtain ⟨counter, hold | hflushed⟩ := hentries i
    · obtain ⟨trace, hinfix, hentry⟩ := h.entries i
      refine ⟨trace, hinfix, ?_⟩
      rw [hold]
      exact hentry.withCounter counter
    · obtain ⟨trace, hsuffix, htemp⟩ := h.temp
      refine ⟨trace, hsuffix.isInfix, temp, ?_, ?_⟩
      · rw [← htemp]
        exact htrim
      · rw [hflushed]

lemma Traced.flush_temp (h : Traced ms tc) (hflush : tc.Flush = some tc') : tc'.temp = {} := by
  cases Flush_entries hflush with
  | inl hsame =>
    obtain ⟨hzero, rfl⟩ := hsame
    obtain ⟨trace, _, htemp⟩ := h.temp
    rw [htemp] at hzero
    rw [htemp, eq_nil_of_uop_count hzero]
    rfl
  | inr hnew =>
    obtain ⟨_, _, hempty, _⟩ := hnew
    exact hempty

lemma Traced.concat (h : Traced ms tc) (htemp : tc'.temp = recordInstruction tc.temp m)
    (hentries : tc'.entries = tc.entries) : Traced (ms ++ [m]) tc' where
  temp := by
    obtain ⟨trace, ⟨before, hms⟩, ht⟩ := h.temp
    refine ⟨trace ++ [m], ⟨before, ?_⟩, ?_⟩
    · rw [← hms, List.append_assoc]
    · rw [recordTrace_concat, htemp, ht]
  entries := by
    intro i
    obtain ⟨trace, hinfix, hentry⟩ := h.entries i
    rw [hentries]
    exact ⟨trace, hinfix.trans (List.prefix_append ms [m]).isInfix, hentry⟩

lemma Traced.mono (h : Traced ms tc) (htemp : tc.temp = {}) : Traced (ms ++ [m]) tc where
  temp := ⟨[], List.nil_suffix, htemp⟩
  entries := by
    intro i
    obtain ⟨trace, hinfix, hentry⟩ := h.entries i
    exact ⟨trace, hinfix.trans (List.prefix_append ms [m]).isInfix, hentry⟩

lemma RecordUop_cases (h : tc.RecordUop (m.uop 0 (m.opcodes.head m.opcodes_ne)) = some tc') :
    ∃ tc₁, (tc.Flush = some tc₁ ∨ tc₁ = tc ∧ m.opcodes.length ≤ tc.config.trace_size) ∧
      (tc' = tc₁ ∧ m.opcodes.length > tc₁.config.trace_size ∨
        tc' = { tc₁ with temp := recordInstruction tc₁.temp m } ∨
        { tc₁ with temp := recordInstruction tc₁.temp m }.Flush = some tc') := by
  unfold RecordUop at h
  change (if (0 : ℕ) ≠ 0 then some tc else if _ then none else
    (if tc.temp.uop_count + m.opcodes.length > tc.config.trace_size then tc.Flush else some tc).bind
      fun tc => if m.opcodes.length > tc.config.trace_size then some tc else _) = some tc' at h
  rw [if_neg (not_not.mpr rfl)] at h
  by_cases hasserts : (m.uop 0 (m.opcodes.head m.opcodes_ne)).speculative_mode = true ∨
      (m.uop 0 (m.opcodes.head m.opcodes_ne)).eip = 0
  · rw [if_pos hasserts] at h
    cases h
  rw [if_neg hasserts] at h
  obtain ⟨tc₁, hroom, hrest⟩ := Option.bind_eq_some_iff.mp h
  refine ⟨tc₁, ?_, ?_⟩
  · split_ifs at hroom with hfull
    · exact Or.inl hroom
    · exact Or.inr ⟨(Option.some.inj hroom).symm, by omega⟩
  · split_ifs at hrest with hlong hctrl
    · exact Or.inl ⟨(Option.some.inj hrest).symm, hlong⟩
    · right
      unfold recordInstruction
      dsimp only at hrest ⊢
      rw [if_pos hctrl]
      split_ifs at hrest with hmax
      · exact Or.inr hrest
      · exact Or.inl (Option.some.inj hrest).symm
    · right; left
      unfold recordInstruction
      dsimp only
      rw [if_neg hctrl]
      exact (Option.some.inj hrest).symm

lemma Traced.record (h : Traced ms tc)
    (hrecord : tc.RecordUop (m.uop 0 (m.opcodes.head m.opcodes_ne)) = some tc') :
    Traced (ms ++ [m]) tc' := by
  obtain ⟨tc₁, hroom, hcases⟩ := RecordUop_cases hrecord
  have htc₁ : Traced ms tc₁ ∧ (m.opcodes.length > tc₁.config.trace_size → tc₁.temp = {}) := by
    cases hroom with
    | inl hflush => exact ⟨h.flush hflush, fun _ => h.flush_temp hflush⟩
    | inr hsame =>
      obtain ⟨rfl, hle⟩ := hsame
      exact ⟨h, fun hlong => absurd hle (by omega)⟩
  have hrecorded : Traced (ms ++ [m]) { tc₁ with temp := recordInstruction tc₁.temp m } :=
    htc₁.1.concat rfl rfl
  obtain ⟨rfl, hlong⟩ | rfl | hflush := hcases
  · exact htc₁.1.mono (htc₁.2 hlong)
  · exact hrecorded
  · exact hrecorded.flush hflush

lemma Traced.step {call : Call} (h : Traced ms tc) (hstep : call.step tc = some tc') :
    Traced (ms ++ call.instruction?.toList) tc' := by
  cases call with
  | flush =>
    change Traced (ms ++ []) tc'
    rw [List.append_nil]
    exact h.flush hstep
  | record m mop_index =>
    change Traced (ms ++ (if mop_index.val = 0 then some m else none).toList) tc'
    by_cases hfirst : mop_index.val = 0
    · rw [if_pos hfirst]
      have hhead : m.opcodes.get mop_index = m.opcodes.head m.opcodes_ne := by
        rw [List.head_eq_getElem, List.get_eq_getElem]
        congr 1
      apply h.record
      rw [← hhead, ← hfirst]
      exact hstep
    · rw [if_neg hfirst, Option.toList_none, List.append_nil]
      change (if mop_index.val ≠ 0 then some tc else _) = some tc' at hstep
      rw [if_pos hfirst] at hstep
      rw [← Option.some.inj hstep]
      exact h

lemma Traced.run {calls : List Call} (h : Traced ms tc)
    (hrun : run Call.step calls tc = some tc') :
    Traced (ms ++ calls.filterMap Call.instruction?) tc' := by
  induction calls generalizing ms tc with
  | nil =>
    rw [run_nil, Option.some.injEq] at hrun
    rw [List.filterMap_nil, List.append_nil, ← hrun]
    exact h
  | cons call calls ih =>
    rw [run_cons] at hrun
    obtain ⟨tc₁, hstep, hrest⟩ := Option.bind_eq_some_iff.mp hrun
    have hall := ih (h.step hstep) hrest
    rw [List.append_assoc] at hall
    cases hcall : call.instruction? with
    | none =>
      rw [hcall] at hall
      rw [List.filterMap_cons_none hcall]
      exact hall
    | some m =>
      rw [hcall] at hall
      rw [List.filterMap_cons_some hcall]
      exact hall

end Calls

lemma Lookup_cases {tc : TraceCache} {eip pred neip : BitVec 32} {e : Entry}
    (h : tc.Lookup eip pred = some (e, neip)) :
    (∃ i, e = tc.entries i) ∧
      neip = if e.target ≠ 0 ∧ pred.getLsbD e.branch_count = true then e.target
        else e.fall_through := by
  obtain ⟨way, _, heq⟩ := Option.map_eq_some_iff.mp h
  rw [Prod.mk.injEq] at heq
  obtain ⟨rfl, rfl⟩ := heq
  refine ⟨⟨_, rfl⟩, ?_⟩
  have htest : ∀ n, pred &&& (1#32 <<< n) ≠ 0 ↔ pred.getLsbD n = true :=
    and_one_shiftLeft_ne_zero_iff pred
  simp only [htest]

/-- A hit goes on where the trace predicts it to exactly when no branch is predicted behind the
recorded ones or the target recorded belongs to the last instruction. -/
theorem lookup_next_iff (config : Config) (calls : List Call) (tc : TraceCache)
    (hrun : run Call.step calls (new config) = some tc) (eip pred neip : BitVec 32) (e : Entry)
    (hhit : tc.Lookup eip pred = some (e, neip)) :
    ∃ trace, trace <:+: calls.filterMap Call.instruction? ∧ EntryOf trace e ∧
      (neip = nextAddress trace (pred.getLsbD e.branch_count) ↔
        TargetOfLast trace (pred.getLsbD e.branch_count)) := by
  have htraced := (traced_new config).run hrun
  rw [List.nil_append] at htraced
  obtain ⟨⟨i, hi⟩, hneip⟩ := Lookup_cases hhit
  obtain ⟨trace, hinfix, hentry⟩ := htraced.entries i
  rw [← hi] at hentry
  refine ⟨trace, hinfix, hentry, ?_⟩
  rw [hneip, hentry.target_eq, hentry.fall_through_eq]
  unfold nextAddress TargetOfLast
  generalize pred.getLsbD e.branch_count = taken
  cases hlast : trace.getLast? with
  | none =>
    -- an entry that is not in use is found at address zero
    have hnil : trace = [] := List.getLast?_eq_none_iff.mp hlast
    rw [hnil]
    simp [recordedTarget]
  | some m =>
    simp only [Option.map_some, Option.getD_some, Option.some.injEq, forall_eq']
    cases taken with
    | false => simp
    | true =>
      by_cases htarget : recordedTarget trace = 0
      · rw [if_neg (fun h => h.1 htarget)]
        cases m.branch <;> simp [htarget]
      · rw [if_pos ⟨htarget, rfl⟩]
        cases m.branch <;>
          simp only [htarget, Bool.false_and, Bool.true_and, Bool.false_eq_true, if_true, if_false,
            ne_eq, not_false_eq_true, true_and, false_and, false_or, or_false, forall_const]

def branchAndAdd : List MacroInstruction :=
  [{ eip := 4, neip := 6, target_neip := 100, mop_size := 2, opcodes := [.Branch] },
    { eip := 6, neip := 8, mop_size := 2, opcodes := [.Other] }]

def branchAndAddCalls : List Call :=
  [.record { eip := 4, neip := 6, target_neip := 100, mop_size := 2, opcodes := [.Branch] }
      ⟨0, by decide⟩,
    .record { eip := 6, neip := 8, mop_size := 2, opcodes := [.Other] } ⟨0, by decide⟩,
    .flush]

theorem lookup_next_branchAndAdd :
    ∃ tc e, run Call.step branchAndAddCalls (new {}) = some tc ∧ tc.Lookup 4 0 = some (e, 8) ∧
      ∃ trace, trace <:+: branchAndAddCalls.filterMap Call.instruction? ∧ EntryOf trace e ∧
        (8 = nextAddress trace ((0 : BitVec 32).getLsbD e.branch_count) ↔
          TargetOfLast trace ((0 : BitVec 32).getLsbD e.branch_count)) := by
  obtain ⟨tc, hrun⟩ := Option.isSome_iff_exists.mp
    (by decide +kernel : (run Call.step branchAndAddCalls (new {})).isSome = true)
  have hhit : ((run Call.step branchAndAddCalls (new {})).bind fun tc =>
      (tc.Lookup 4 0).map (·.2)) = some 8 := by decide +kernel
  rw [hrun, Option.bind_some] at hhit
  obtain ⟨⟨e, neip⟩, hlookup, rfl⟩ := Option.map_eq_some_iff.mp hhit
  exact ⟨tc, e, hrun, hlookup, lookup_next_iff {} branchAndAddCalls tc hrun 4 0 8 e hlookup⟩

/-- The addition ends the trace, and the fetch goes on at the target of the branch before it. -/
theorem lookup_not_next :
    ¬∀ config calls tc eip pred e neip trace, run Call.step calls (new config) = some tc →
      tc.Lookup eip pred = some (e, neip) → EntryOf trace e →
      neip = nextAddress trace (pred.getLsbD e.branch_count) := by
  intro h
  obtain ⟨tc, hrun⟩ := Option.isSome_iff_exists.mp
    (by decide +kernel : (run Call.step branchAndAddCalls (new {})).isSome = true)
  have hhit : ((run Call.step branchAndAddCalls (new {})).bind fun tc => tc.Lookup 4 2) =
      some ({ trimBranch (recordTrace branchAndAdd) |>.getD {} with counter := 0 }, 100) := by
    decide +kernel
  rw [hrun, Option.bind_some] at hhit
  have hentry : EntryOf branchAndAdd
      { trimBranch (recordTrace branchAndAdd) |>.getD {} with counter := 0 } :=
    ⟨_, (Option.some_get (by decide +kernel :
      (trimBranch (recordTrace branchAndAdd)).isSome = true)).symm, by decide +kernel⟩
  exact absurd (h {} branchAndAddCalls tc 4 2 _ 100 branchAndAdd hrun hhit hentry)
    (by decide +kernel)

end TraceCache

end OISA.X86
