import OISA.X86.TraceCache
import OISA.Lib.Bits
import OISA.Lib.Lru
import OISA.Lib.Runs

/-!
# Traces of committed instructions

What the trace cache holds after a stream of committed macro-instructions.
-/

namespace OISA.X86

open OISA.Lib OISA.Lib.Bits OISA.Lib.Lru

/-- A committed macro-instruction, with the opcodes of its uops -/
structure MacroInstruction where
  eip : BitVec 32
  neip : BitVec 32
  target_neip : BitVec 32 := 0
  mop_size : ℕ
  opcodes : List Opcode
  opcodes_ne : opcodes ≠ [] := by decide

namespace MacroInstruction

/-- The uop with the given position -/
def uop (m : MacroInstruction) (mop_index : ℕ) (opcode : Opcode) : Uop :=
  { opcode := opcode, mop_index := mop_index, mop_count := m.opcodes.length
    mop_size := m.mop_size, eip := m.eip, neip := m.neip, target_neip := m.target_neip }

/-- The uops that the fetch of the instruction produces. -/
def uops (m : MacroInstruction) : List Uop := m.opcodes.mapIdx m.uop

/-- The instruction is a branch if one of its uops affects control flow. -/
def branch (m : MacroInstruction) : Bool := m.opcodes.any Opcode.FlagCtrl

/-- The first uop affects control flow. -/
def startsWithBranch (m : MacroInstruction) : Bool :=
  (m.opcodes.head m.opcodes_ne).FlagCtrl

def taken (m : MacroInstruction) : Bool := m.neip ≠ m.eip + BitVec.ofNat 32 m.mop_size

lemma uops_eq (m : MacroInstruction) :
    m.uops = m.uop 0 (m.opcodes.head m.opcodes_ne) ::
      m.opcodes.tail.mapIdx fun i => m.uop (i + 1) := by
  unfold uops
  conv_lhs => rw [← List.cons_head_tail m.opcodes_ne]
  rw [List.mapIdx_cons]

lemma branch_of_startsWithBranch {m : MacroInstruction} (h : m.startsWithBranch) : m.branch :=
  List.any_eq_true.mpr ⟨_, List.head_mem m.opcodes_ne, h⟩

end MacroInstruction

namespace TraceCache

/-- The entry describes the branches: how many they are, and which of them were taken. -/
structure Describes (branches : List MacroInstruction) (e : Entry) : Prop where
  count : e.branch_count = branches.length
  mask : ∀ i, e.branch_mask.getLsbD i = decide (i < branches.length)
  flags : ∀ i, e.branch_flags.getLsbD i = (branches[i]?.map MacroInstruction.taken).getD false

lemma describes_empty : Describes [] {} where
  count := rfl
  mask := by intro i; exact BitVec.getLsbD_zero
  flags := by intro i; exact BitVec.getLsbD_zero

section Branches

variable {branches : List MacroInstruction} {e : Entry} {m : MacroInstruction}

lemma Describes.append {uop : Uop} (h : Describes branches e) (hlt : branches.length < 32)
    (htaken : uop.taken = m.taken) : Describes (branches ++ [m]) (appendBranch e uop) where
  count := by
    rw [List.length_append, ← h.count]
    rfl
  mask := by
    intro i
    have hcount := h.count
    unfold appendBranch
    rw [BitVec.getLsbD_or, h.mask, hcount, getLsbD_one_shiftLeft (.inl hlt), List.length_append,
      ← Bool.decide_or, decide_eq_decide, List.length_singleton]
    omega
  flags := by
    intro i
    have hcount := h.count
    unfold appendBranch
    rw [BitVec.getLsbD_or, h.flags, hcount, htaken]
    have hbit : ((if m.taken then 1#32 else 0#32) <<< branches.length).getLsbD i =
        (decide (i = branches.length) && m.taken) := by
      cases m.taken with
      | true => rw [if_pos rfl, getLsbD_one_shiftLeft (.inl hlt), Bool.and_true]
      | false => simp
    rw [hbit]
    by_cases hi : i < branches.length
    · rw [List.getElem?_append_left hi, decide_eq_false hi.ne, Bool.false_and, Bool.or_false]
    · rw [List.getElem?_append_right (by omega), List.getElem?_eq_none (by omega)]
      by_cases heq : i = branches.length
      · simp [heq]
      · rw [decide_eq_false heq, List.getElem?_eq_none (by simp; omega)]
        rfl

lemma Describes.trim {temp : Entry} (h : Describes (branches ++ [m]) e)
    (hlt : branches.length < 32) (hlast : e.is_last_instruction_branch = true)
    (htrim : trimBranch e = some temp) : Describes branches temp := by
  have hcount := h.count
  rw [List.length_append, List.length_singleton] at hcount
  unfold trimBranch at htrim
  rw [if_pos hlast, if_neg (by omega)] at htrim
  have htemp := (Option.some.inj htrim).symm
  rw [hcount, Nat.add_sub_cancel] at htemp
  have hclear : ∀ i, (~~~(1#32 <<< branches.length)).getLsbD i =
      (decide (i < 32) && !decide (i = branches.length)) := by
    intro i
    rw [BitVec.getLsbD_not, getLsbD_one_shiftLeft (.inl hlt)]
  refine ⟨by rw [htemp], ?_, ?_⟩
  · intro i
    rw [htemp]
    dsimp only
    rw [BitVec.getLsbD_and, h.mask, hclear, List.length_append, List.length_singleton]
    by_cases hi : i < branches.length
    · rw [decide_eq_true (by omega), decide_eq_true (by omega), decide_eq_false (by omega),
        decide_eq_true hi]
      rfl
    · rw [decide_eq_false hi]
      by_cases heq : i = branches.length
      · rw [decide_eq_true heq]
        simp
      · rw [decide_eq_false (by omega), Bool.false_and]
  · intro i
    rw [htemp]
    dsimp only
    rw [BitVec.getLsbD_and, h.flags, hclear]
    by_cases hi : i < branches.length
    · rw [List.getElem?_append_left hi, decide_eq_true (by omega), decide_eq_false (by omega)]
      simp
    · rw [List.getElem?_eq_none (by omega : branches.length ≤ i)]
      by_cases heq : i = branches.length
      · rw [decide_eq_true heq]
        simp
      · rw [List.getElem?_eq_none (by rw [List.length_append, List.length_singleton]; omega)]
        simp

end Branches

/-! ## Traces -/

/-- The entry is the trace of a run, for what counts as a branch. -/
structure IsTrace (config : Config) (isBranch : MacroInstruction → Bool)
    (run : List MacroInstruction) (e : Entry) : Prop where
  tag : run.head?.map (·.eip) = some e.tag
  macro_instructions : e.macro_instructions = run.map (·.eip)
  uop_count : e.uop_count = (run.map (·.opcodes.length)).sum
  uop_count_le : e.uop_count ≤ config.trace_size
  branches_le : (run.filter isBranch).length ≤ config.max_branches
  describes : Describes (run.dropLast.filter isBranch) e

/-- The temporary entry records a run with all its branches. -/
structure Records (run : List MacroInstruction) (temp : Entry) : Prop where
  tag : run.head?.map (·.eip) = if run = [] then none else some temp.tag
  macro_instructions : temp.macro_instructions = run.map (·.eip)
  uop_count : temp.uop_count = (run.map (·.opcodes.length)).sum
  describes : Describes (run.filter MacroInstruction.startsWithBranch) temp
  last : temp.is_last_instruction_branch =
    (run.getLast?.map MacroInstruction.startsWithBranch).getD false

lemma records_empty : Records [] {} where
  tag := rfl
  macro_instructions := rfl
  uop_count := rfl
  describes := describes_empty
  last := rfl

lemma Records.eq_nil {run : List MacroInstruction} {temp : Entry} (h : Records run temp) :
    run = [] ↔ temp.uop_count = 0 := by
  rw [h.uop_count]
  cases run with
  | nil => simp
  | cons m ms =>
    have hpos := List.length_pos_of_ne_nil m.opcodes_ne
    simp only [List.map_cons, List.sum_cons, reduceCtorEq, false_iff]
    omega

lemma trimBranch_keeps {e temp : Entry} (h : trimBranch e = some temp) :
    temp.tag = e.tag ∧ temp.macro_instructions = e.macro_instructions ∧
      temp.uop_count = e.uop_count := by
  unfold trimBranch at h
  split_ifs at h
  · rw [← Option.some.inj h]
    exact ⟨rfl, rfl, rfl⟩
  · rw [← Option.some.inj h]
    exact ⟨rfl, rfl, rfl⟩

lemma Records.trim {config : Config} {run : List MacroInstruction} {e : Entry}
    (h : Records run e) (hne : run ≠ []) (hle : e.uop_count ≤ config.trace_size)
    (hbranches : (run.filter MacroInstruction.startsWithBranch).length ≤ config.max_branches) :
    ∃ temp, trimBranch e = some temp ∧
      IsTrace config MacroInstruction.startsWithBranch run temp := by
  obtain ⟨before, m, rfl⟩ : ∃ before m, run = before ++ [m] :=
    ⟨_, _, (List.dropLast_append_getLast hne).symm⟩
  have hlast := h.last
  rw [List.getLast?_concat] at hlast
  have htrim : ∃ temp, trimBranch e = some temp ∧
      Describes (before.filter MacroInstruction.startsWithBranch) temp := by
    have hdescribes := h.describes
    rw [List.filter_append] at hdescribes hbranches
    have hsmall := config.max_branches_small
    by_cases hm : m.startsWithBranch = true
    · rw [List.filter_cons_of_pos hm, List.filter_nil] at hdescribes hbranches
      rw [List.length_append, List.length_singleton] at hbranches
      have hlast' : e.is_last_instruction_branch = true := hlast.trans hm
      have hcount := hdescribes.count
      rw [List.length_append, List.length_singleton] at hcount
      have hsome : ∃ temp, trimBranch e = some temp := by
        unfold trimBranch
        rw [if_pos hlast', if_neg (by omega)]
        exact ⟨_, rfl⟩
      obtain ⟨temp, htemp⟩ := hsome
      exact ⟨temp, htemp, hdescribes.trim (by omega) hlast' htemp⟩
    · rw [List.filter_cons_of_neg hm, List.filter_nil, List.append_nil] at hdescribes
      have hlast' : e.is_last_instruction_branch = false := hlast.trans (by simpa using hm)
      refine ⟨e, ?_, hdescribes⟩
      unfold trimBranch
      rw [if_neg (by simp [hlast'])]
  obtain ⟨temp, htemp, hdescribes⟩ := htrim
  obtain ⟨htag, hinstructions, hcount⟩ := trimBranch_keeps htemp
  refine ⟨temp, htemp, ?_, ?_, ?_, ?_, hbranches, ?_⟩
  · rw [htag, h.tag, if_neg hne]
  · rw [hinstructions, h.macro_instructions]
  · rw [hcount, h.uop_count]
  · rw [hcount]
    exact hle
  · rw [List.dropLast_concat]
    exact hdescribes

/-! ## Replacement -/

section Evict

variable (tc : TraceCache) (set : ℕ)

/-- The loop makes all entries of the set older, and finds the one that was the oldest. -/
lemma evict_loop (n : ℕ) :
    let loop := (List.range n).foldl
      (fun (entries, found_way) way =>
        let i := tc.entryIndex set way
        if (entries i).counter - 1 < 0 then
          (Function.update entries i { entries i with counter := tc.config.num_ways - 1 },
            some way)
        else
          (Function.update entries i { entries i with counter := (entries i).counter - 1 },
            found_way))
      (tc.entries, (none : Option ℕ))
    (∀ i, loop.1 i =
      if set * tc.config.num_ways ≤ i ∧ i < set * tc.config.num_ways + n then
        { tc.entries i with
          counter := rotate tc.config.num_ways (fun j => (tc.entries j).counter) i }
      else tc.entries i) ∧
    ((∃ way < n, (tc.entries (tc.entryIndex set way)).counter = 0) → loop.2.isSome) := by
  induction n with
  | zero =>
    refine ⟨?_, ?_⟩
    · intro i
      rw [if_neg (by omega)]
      rfl
    · rintro ⟨way, hway, _⟩
      omega
  | succ n ih =>
    rw [List.range_succ, List.foldl_append, List.foldl_cons, List.foldl_nil]
    generalize (List.range n).foldl _ (tc.entries, (none : Option ℕ)) = loop at ih ⊢
    obtain ⟨hentries, hfound⟩ := ih
    have hn : loop.1 (tc.entryIndex set n) = tc.entries (tc.entryIndex set n) := by
      rw [hentries, if_neg]
      unfold entryIndex
      omega
    dsimp only
    rw [hn]
    refine ⟨?_, ?_⟩
    · intro i
      by_cases hi : i = tc.entryIndex set n
      · have hin : set * tc.config.num_ways ≤ i ∧
            i < set * tc.config.num_ways + (n + 1) := by
          rw [hi]
          unfold entryIndex
          omega
        rw [hi] at hin ⊢
        rw [if_pos hin]
        unfold rotate
        split_ifs with hneg
        · exact Function.update_self _ _ _
        · exact Function.update_self _ _ _
      · have hsegment : (set * tc.config.num_ways ≤ i ∧
            i < set * tc.config.num_ways + (n + 1)) ↔
            (set * tc.config.num_ways ≤ i ∧ i < set * tc.config.num_ways + n) := by
          unfold entryIndex at hi
          omega
        simp only [hsegment]
        rw [← hentries i]
        split_ifs with hneg
        · exact Function.update_of_ne hi _ _
        · exact Function.update_of_ne hi _ _
    · rintro ⟨way, hway, hzero⟩
      by_cases hlast : way = n
      · rw [hlast] at hzero
        rw [if_pos (by omega)]
        rfl
      · have hsome := hfound ⟨way, by omega, hzero⟩
        split_ifs
        · rfl
        · exact hsome

end Evict

/-! ## Streams -/

/-- The entry is invalid, or the trace of a run of the stream. -/
def Stored (config : Config) (isBranch : MacroInstruction → Bool) (ms : List MacroInstruction)
    (e : Entry) : Prop :=
  e.tag ≠ 0 → ∃ before run after, ms = before ++ run ++ after ∧ IsTrace config isBranch run e

def AgesOf (tc : TraceCache) : Prop :=
  ∀ set, Ages tc.config.num_ways fun way => (tc.entries (tc.entryIndex set way)).counter

/-- What the trace cache is after a stream of macro-instructions. -/
structure Recorded (config : Config) (ms : List MacroInstruction) (tc : TraceCache) : Prop where
  config_eq : tc.config = config
  stored : ∀ i, Stored config MacroInstruction.startsWithBranch ms (tc.entries i)
  ages : AgesOf tc
  temp : ∃ before run, ms = before ++ run ∧ Records run tc.temp ∧
    tc.temp.uop_count ≤ config.trace_size ∧
    (run.filter MacroInstruction.startsWithBranch).length < config.max_branches

lemma recorded_new (config : Config) : Recorded config [] (new config) where
  config_eq := rfl
  stored := by
    intro i htag
    exact absurd rfl htag
  ages := by
    intro set
    apply (ages_initial config.num_ways).congr
    intro way hway
    change (((set * config.num_ways + way : ℕ) : ℤ) % config.num_ways) = way
    norm_cast
    rw [Nat.mul_add_mod_self_right, Nat.mod_eq_of_lt hway]
  temp := by
    refine ⟨[], [], rfl, records_empty, Nat.zero_le _, ?_⟩
    exact Nat.pos_of_ne_zero config.max_branches_pos

lemma Stored.mono {config : Config} {isBranch : MacroInstruction → Bool}
    {ms ms' : List MacroInstruction} {e : Entry} (h : Stored config isBranch ms e) :
    Stored config isBranch (ms ++ ms') e := by
  intro htag
  obtain ⟨before, run, after, hms, htrace⟩ := h htag
  exact ⟨before, run, after ++ ms', by rw [hms, List.append_assoc], htrace⟩

section Flush

variable {config : Config} {ms : List MacroInstruction} {tc : TraceCache}

lemma fill_stored {entries : ℕ → Entry} {temp : Entry} {i : ℕ} {before run : List MacroInstruction}
    (hstored : ∀ j, Stored config MacroInstruction.startsWithBranch ms (entries j))
    (hms : ms = before ++ run)
    (htrace : IsTrace config MacroInstruction.startsWithBranch run temp) :
    ∀ j, Stored config MacroInstruction.startsWithBranch ms
      ((tc.fill entries i temp).entries j) := by
  intro j
  unfold fill
  dsimp only
  by_cases hj : j = i
  · rw [hj, Function.update_self]
    intro _
    exact ⟨before, run, [], by rw [hms, List.append_nil], htrace.tag, htrace.macro_instructions,
      htrace.uop_count, htrace.uop_count_le, htrace.branches_le, htrace.describes.count,
      htrace.describes.mask, htrace.describes.flags⟩
  · rw [Function.update_of_ne hj]
    exact hstored j

lemma fill_counter (entries : ℕ → Entry) (temp : Entry) (i j : ℕ) :
    ((tc.fill entries i temp).entries j).counter = (entries j).counter := by
  unfold fill
  dsimp only
  by_cases hj : j = i
  · rw [hj, Function.update_self]
  · rw [Function.update_of_ne hj]

/-- A flush of the end of the stream succeeds, and leaves the temporary entry empty. -/
lemma Flush_recorded {before run : List MacroInstruction} (hconfig : tc.config = config)
    (hstored : ∀ i, Stored config MacroInstruction.startsWithBranch ms (tc.entries i))
    (hages : AgesOf tc) (hms : ms = before ++ run) (hrun : Records run tc.temp)
    (hle : tc.temp.uop_count ≤ config.trace_size)
    (hbranches : (run.filter MacroInstruction.startsWithBranch).length ≤ config.max_branches)
    (heip : ∀ m ∈ ms, m.eip ≠ 0) :
    ∃ tc', tc.Flush = some tc' ∧ tc'.config = config ∧ Records [] tc'.temp ∧ AgesOf tc' ∧
      ∀ i, Stored config MacroInstruction.startsWithBranch ms (tc'.entries i) := by
  subst hconfig
  unfold Flush
  by_cases hempty : run = []
  · rw [if_pos (hrun.eq_nil.mp hempty)]
    rw [hempty] at hrun
    exact ⟨tc, rfl, rfl, hrun, hages, hstored⟩
  · have htag : tc.temp.tag ≠ 0 := by
      cases run with
      | nil => exact absurd rfl hempty
      | cons m rest =>
        have hhead := hrun.tag
        rw [if_neg hempty, List.head?_cons, Option.map_some, Option.some_inj] at hhead
        rw [← hhead]
        exact heip m (by rw [hms]; simp)
    rw [if_neg (mt hrun.eq_nil.mpr hempty), if_neg htag]
    obtain ⟨temp, htrim, htrace⟩ := hrun.trim hempty hle hbranches
    rw [htrim, Option.bind_some]
    dsimp only
    cases tc.findWay (temp.tag.toNat % tc.config.num_sets) temp with
    | some found =>
      refine ⟨_, rfl, rfl, records_empty, ?_, fill_stored hstored hms htrace⟩
      intro set
      apply (hages set).congr
      intro way _
      exact fill_counter _ _ _ _
    | none =>
      -- no counter changes but here, where the oldest entry of the set is replaced
      generalize temp.tag.toNat % tc.config.num_sets = set
      obtain ⟨hentries, hfound⟩ := tc.evict_loop set tc.config.num_ways
      obtain ⟨k, hk, hzero⟩ := (hages set).exists_oldest (Nat.pos_of_ne_zero tc.config.ways_pos.2)
      obtain ⟨found, hsome⟩ := Option.isSome_iff_exists.mp (hfound ⟨k, hk, hzero⟩)
      change (tc.evict set).2 = some found at hsome
      change ∀ i, (tc.evict set).1 i = _ at hentries
      rw [hsome]
      refine ⟨_, rfl, rfl, records_empty, ?_, fill_stored ?_ hms htrace⟩
      · intro set'
        by_cases hset : set' = set
        · apply ((hages set').rotate (Nat.pos_of_ne_zero tc.config.ways_pos.2)).congr
          intro way hway
          rw [fill_counter]
          change ((tc.evict set).1 (set' * tc.config.num_ways + way)).counter = _
          rw [hentries, if_pos ((mul_add_mem_segment hway).mpr hset)]
          rfl
        · apply (hages set').congr
          intro way hway
          rw [fill_counter]
          change ((tc.evict set).1 (set' * tc.config.num_ways + way)).counter = _
          rw [hentries, if_neg (mt (mul_add_mem_segment hway).mp hset)]
          rfl
      · intro j
        rw [hentries]
        split_ifs
        · intro htagj
          obtain ⟨before', run', after', hms', htrace'⟩ := hstored j htagj
          exact ⟨before', run', after', hms', htrace'.tag, htrace'.macro_instructions,
            htrace'.uop_count, htrace'.uop_count_le, htrace'.branches_le,
            htrace'.describes.count, htrace'.describes.mask, htrace'.describes.flags⟩
        · exact hstored j

end Flush

section Record

variable {config : Config} {ms : List MacroInstruction} {m : MacroInstruction} {tc : TraceCache}

lemma Records.append_tag {run : List MacroInstruction} {temp : Entry} (h : Records run temp) :
    (run ++ [m]).head?.map (·.eip) =
      some (TraceCache.append temp (m.uop 0 (m.opcodes.head m.opcodes_ne))).tag := by
  unfold TraceCache.append
  dsimp only
  by_cases hrun : run = []
  · rw [if_pos (h.eq_nil.mp hrun), hrun]
    rfl
  · have htag := h.tag
    rw [if_neg hrun] at htag
    rw [if_neg (mt h.eq_nil.mpr hrun), List.head?_append_of_ne_nil _ hrun, htag]

lemma Records.append {run : List MacroInstruction} {temp : Entry} (h : Records run temp)
    (hm : m.startsWithBranch = false) :
    Records (run ++ [m]) (TraceCache.append temp (m.uop 0 (m.opcodes.head m.opcodes_ne))) where
  tag := by
    rw [if_neg (by simp), h.append_tag]
  macro_instructions := by
    rw [List.map_append, ← h.macro_instructions]
    rfl
  uop_count := by
    rw [List.map_append, List.sum_append, ← h.uop_count]
    rfl
  describes := by
    rw [List.filter_append, List.filter_cons_of_neg (by simp [hm]), List.filter_nil,
      List.append_nil]
    exact ⟨h.describes.count, h.describes.mask, h.describes.flags⟩
  last := by
    rw [List.getLast?_concat, Option.map_some, Option.getD_some, hm]
    rfl

lemma Records.appendBranch {run : List MacroInstruction} {temp : Entry} (h : Records run temp)
    (hm : m.startsWithBranch = true)
    (hlt : (run.filter MacroInstruction.startsWithBranch).length < 32) :
    Records (run ++ [m])
      (TraceCache.appendBranch
        (TraceCache.append temp (m.uop 0 (m.opcodes.head m.opcodes_ne)))
        (m.uop 0 (m.opcodes.head m.opcodes_ne))) where
  tag := by
    rw [if_neg (by simp), h.append_tag]
    rfl
  macro_instructions := by
    rw [List.map_append, ← h.macro_instructions]
    rfl
  uop_count := by
    rw [List.map_append, List.sum_append, ← h.uop_count]
    rfl
  describes := by
    rw [List.filter_append, List.filter_cons_of_pos hm, List.filter_nil]
    have happend : Describes (run.filter MacroInstruction.startsWithBranch)
        (TraceCache.append temp (m.uop 0 (m.opcodes.head m.opcodes_ne))) :=
      ⟨h.describes.count, h.describes.mask, h.describes.flags⟩
    exact happend.append hlt rfl
  last := by
    rw [List.getLast?_concat, Option.map_some, Option.getD_some, hm]
    rfl

lemma room_recorded (h : Recorded config ms tc) (heip : ∀ m ∈ ms, m.eip ≠ 0) (n : ℕ) :
    ∃ tc', (if tc.temp.uop_count + n > tc.config.trace_size then tc.Flush else some tc) =
        some tc' ∧
      tc'.config = config ∧
      (∀ i, Stored config MacroInstruction.startsWithBranch ms (tc'.entries i)) ∧ AgesOf tc' ∧
      ∃ before run, ms = before ++ run ∧ Records run tc'.temp ∧
        (run = [] ∨ tc'.temp.uop_count + n ≤ config.trace_size) ∧
        (run.filter MacroInstruction.startsWithBranch).length < config.max_branches := by
  obtain ⟨hconfig, hstored, hages, before, run, hms, hrun, hle, hbranches⟩ := h
  by_cases hfull : tc.temp.uop_count + n > tc.config.trace_size
  · rw [if_pos hfull]
    obtain ⟨tc', hflush, hconfig', hempty, hages', hstored'⟩ :=
      Flush_recorded hconfig hstored hages hms hrun hle hbranches.le heip
    exact ⟨tc', hflush, hconfig', hstored', hages', ms, [], (List.append_nil ms).symm, hempty,
      Or.inl rfl, Nat.pos_of_ne_zero config.max_branches_pos⟩
  · rw [if_neg hfull]
    rw [hconfig] at hfull
    exact ⟨tc, rfl, hconfig, hstored, hages, before, run, hms, hrun, Or.inr (by omega), hbranches⟩

/-- The first uop of an instruction records it. -/
lemma RecordUop_first (h : Recorded config ms tc) (heip : ∀ m' ∈ ms ++ [m], m'.eip ≠ 0) :
    ∃ tc', tc.RecordUop (m.uop 0 (m.opcodes.head m.opcodes_ne)) = some tc' ∧
      Recorded config (ms ++ [m]) tc' := by
  have heipm : m.eip ≠ 0 := heip m (by simp)
  have heips : ∀ m' ∈ ms, m'.eip ≠ 0 := fun m' hm' => heip m' (List.mem_append_left _ hm')
  obtain ⟨tc₁, hroom, hconfig, hstored, hages, before, run, hms, hrun, hfits, hbranches⟩ :=
    room_recorded h heips m.opcodes.length
  have hstored' : ∀ i, Stored config MacroInstruction.startsWithBranch (ms ++ [m])
      (tc₁.entries i) := fun i => (hstored i).mono
  have hasserts : ¬ ((m.uop 0 (m.opcodes.head m.opcodes_ne)).speculative_mode = true ∨
      (m.uop 0 (m.opcodes.head m.opcodes_ne)).eip = 0) := by
    intro h
    cases h with
    | inl hspec => cases hspec
    | inr hzero => exact heipm hzero
  unfold RecordUop
  have hfirst : ¬ (m.uop 0 (m.opcodes.head m.opcodes_ne)).mop_index ≠ 0 := not_not.mpr rfl
  rw [if_neg hfirst, if_neg hasserts]
  change ∃ tc', (if tc.temp.uop_count + m.opcodes.length > tc.config.trace_size then tc.Flush
    else some tc).bind _ = some tc' ∧ _
  rw [hroom, Option.bind_some]
  by_cases hlarge : (m.uop 0 (m.opcodes.head m.opcodes_ne)).mop_count > tc₁.config.trace_size
  · -- the instruction does not fit, and nothing is left in the temporary entry
    rw [if_pos hlarge]
    rw [hconfig] at hlarge
    have hempty : run = [] := by
      cases hfits with
      | inl hempty => exact hempty
      | inr hle =>
        change m.opcodes.length > config.trace_size at hlarge
        omega
    rw [hempty] at hrun hbranches
    refine ⟨tc₁, rfl, hconfig, hstored', hages, ms ++ [m], [], (List.append_nil _).symm, hrun, ?_,
      hbranches⟩
    rw [hrun.eq_nil.mp rfl]
    exact Nat.zero_le _
  · rw [if_neg hlarge]
    rw [hconfig] at hlarge
    have hle : tc₁.temp.uop_count + m.opcodes.length ≤ config.trace_size := by
      cases hfits with
      | inl hempty =>
        rw [hrun.eq_nil.mp hempty]
        change ¬ m.opcodes.length > config.trace_size at hlarge
        omega
      | inr hle => exact hle
    have hms' : ms ++ [m] = before ++ (run ++ [m]) := by rw [hms, List.append_assoc]
    have hsmall := config.max_branches_small
    by_cases hm : m.startsWithBranch = true
    · have hflag : (m.uop 0 (m.opcodes.head m.opcodes_ne)).opcode.FlagCtrl = true := hm
      rw [if_pos hflag]
      have hrun' := hrun.appendBranch hm (by omega)
      have hcount := hrun'.describes.count
      have hlength : ((run ++ [m]).filter MacroInstruction.startsWithBranch).length =
          (run.filter MacroInstruction.startsWithBranch).length + 1 := by
        rw [List.filter_append, List.filter_cons_of_pos hm, List.length_append]
        rfl
      dsimp only
      by_cases hmax : (TraceCache.appendBranch
          (TraceCache.append tc₁.temp (m.uop 0 (m.opcodes.head m.opcodes_ne)))
          (m.uop 0 (m.opcodes.head m.opcodes_ne))).branch_count = tc₁.config.max_branches
      · rw [if_pos hmax]
        obtain ⟨tc', hflush, hconfig', hempty, hages', hstored''⟩ :=
          @Flush_recorded _ _ { tc₁ with
              temp := TraceCache.appendBranch
                (TraceCache.append tc₁.temp (m.uop 0 (m.opcodes.head m.opcodes_ne)))
                (m.uop 0 (m.opcodes.head m.opcodes_ne)) } _ _
            hconfig hstored' hages hms' hrun' hle (by omega) heip
        refine ⟨tc', hflush, hconfig', hstored'', hages', ms ++ [m], [],
          (List.append_nil _).symm, hempty, ?_, Nat.pos_of_ne_zero config.max_branches_pos⟩
        rw [hempty.eq_nil.mp rfl]
        exact Nat.zero_le _
      · rw [if_neg hmax]
        rw [hcount, hconfig] at hmax
        exact ⟨_, rfl, hconfig, hstored', hages, before, run ++ [m], hms', hrun', hle, by omega⟩
    · have hm' : m.startsWithBranch = false := by simpa using hm
      have hflag : ¬ (m.uop 0 (m.opcodes.head m.opcodes_ne)).opcode.FlagCtrl = true := hm
      rw [if_neg hflag]
      refine ⟨_, rfl, hconfig, hstored', hages, before, run ++ [m], hms', hrun.append hm', hle, ?_⟩
      rw [List.filter_append, List.filter_cons_of_neg hm, List.filter_nil, List.append_nil]
      exact hbranches

lemma run_rest {uops : List Uop} (h : ∀ uop ∈ uops, uop.mop_index ≠ 0) :
    run step uops tc = some tc := by
  induction uops with
  | nil => rfl
  | cons uop uops ih =>
    have hstep : step uop tc = some tc := if_pos (h uop List.mem_cons_self)
    rw [run_cons, hstep, Option.bind_some]
    exact ih fun uop' huop' => h uop' (List.mem_cons_of_mem _ huop')

lemma run_uops (h : Recorded config ms tc) (heip : ∀ m' ∈ ms ++ [m], m'.eip ≠ 0)
    {uops : List Uop} (huops : uops <+: m.uops) (hne : uops ≠ []) :
    ∃ tc', run step uops tc = some tc' ∧ Recorded config (ms ++ [m]) tc' := by
  rw [MacroInstruction.uops_eq] at huops
  cases uops with
  | nil => exact absurd rfl hne
  | cons uop uops =>
    obtain ⟨huop, hrest⟩ := List.cons_prefix_cons.mp huops
    obtain ⟨tc', hfirst, htc'⟩ := RecordUop_first h heip
    have hstep : step uop tc = some tc' := by
      rw [huop]
      exact hfirst
    refine ⟨tc', ?_, htc'⟩
    rw [run_cons, hstep, Option.bind_some]
    apply run_rest
    intro uop' huop'
    obtain ⟨i, hi, heq⟩ := List.mem_mapIdx.mp (hrest.subset huop')
    rw [← heq]
    exact Nat.succ_ne_zero i

lemma run_recorded {rest : List MacroInstruction} {uops : List Uop} (h : Recorded config ms tc)
    (heip : ∀ m' ∈ ms ++ rest, m'.eip ≠ 0) (huops : uops <+: rest.flatMap MacroInstruction.uops) :
    ∃ tc' before after, run step uops tc = some tc' ∧ rest = before ++ after ∧
      Recorded config (ms ++ before) tc' := by
  induction rest generalizing ms tc uops with
  | nil =>
    have hnil : uops = [] := List.prefix_nil.mp huops
    rw [hnil]
    exact ⟨tc, [], [], rfl, rfl, by rw [List.append_nil]; exact h⟩
  | cons m rest ih =>
    rw [List.flatMap_cons] at huops
    have heipm : ∀ m' ∈ ms ++ [m], m'.eip ≠ 0 := by
      intro m' hm'
      apply heip
      simp only [List.mem_append, List.mem_cons, List.not_mem_nil, or_false] at hm' ⊢
      tauto
    by_cases hempty : uops = []
    · rw [hempty]
      exact ⟨tc, [], m :: rest, rfl, rfl, by rw [List.append_nil]; exact h⟩
    · cases List.prefix_or_prefix_of_prefix huops (List.prefix_append m.uops _) with
      | inl hpart =>
        obtain ⟨tc', hrun, htc'⟩ := run_uops h heipm hpart hempty
        exact ⟨tc', [m], rest, hrun, rfl, htc'⟩
      | inr hwhole =>
        obtain ⟨uops', hsplit⟩ := hwhole
        rw [← hsplit] at huops
        have huops' := (List.prefix_append_right_inj m.uops).mp huops
        have hne : m.uops ≠ [] := by
          rw [MacroInstruction.uops_eq]
          exact List.cons_ne_nil _ _
        obtain ⟨tc₁, hrun₁, htc₁⟩ := run_uops h heipm (List.prefix_refl m.uops) hne
        obtain ⟨tc', before, after, hrun', hrest, htc'⟩ := ih htc₁
          (by rw [List.append_assoc]; exact heip) huops'
        refine ⟨tc', m :: before, after, ?_, by rw [hrest]; rfl, ?_⟩
        · rw [← hsplit, run_append, hrun₁, Option.bind_some]
          exact hrun'
        · rw [List.append_assoc] at htc'
          exact htc'

end Record

/-- If every branch of a stream starts with its control uop, the valid entries are traces of runs
of the stream, with all the branches of the run, and the counters of a set are a permutation. -/
theorem run_traces (config : Config) (ms : List MacroInstruction) (uops : List Uop)
    (huops : uops <+: ms.flatMap MacroInstruction.uops) (heip : ∀ m ∈ ms, m.eip ≠ 0)
    (hbranch : ∀ m ∈ ms, m.branch → m.startsWithBranch) :
    ∃ tc, run step uops (new config) = some tc ∧
      (∀ set < config.num_sets,
        ((List.range config.num_ways).map fun way =>
            (tc.entries (tc.entryIndex set way)).counter).Perm
          ((List.range config.num_ways).map fun i : ℕ => (i : ℤ))) ∧
      ∀ i, Stored config MacroInstruction.branch ms (tc.entries i) := by
  obtain ⟨tc, before, after, hrun, hms, htc⟩ :=
    run_recorded (recorded_new config) (by rw [List.nil_append]; exact heip) huops
  refine ⟨tc, hrun, ?_, ?_⟩
  · intro set _
    rw [← htc.config_eq]
    exact (htc.ages set).perm
  · intro i htag
    have hstored : Stored config MacroInstruction.startsWithBranch ([] ++ before ++ after)
        (tc.entries i) := (htc.stored i).mono
    rw [List.nil_append, ← hms] at hstored
    obtain ⟨before', run', after', hms', htrace⟩ := hstored htag
    have hsame : ∀ m ∈ run', m.branch = m.startsWithBranch := by
      intro m hm
      have hmem : m ∈ ms := by
        rw [hms']
        exact List.mem_append_left _ (List.mem_append_right _ hm)
      exact Bool.eq_iff_iff.mpr
        ⟨hbranch m hmem, MacroInstruction.branch_of_startsWithBranch⟩
    have hfilter := List.filter_congr hsame
    have hfilter' := List.filter_congr fun m hm => hsame m (List.mem_of_mem_dropLast hm)
    refine ⟨before', run', after', hms', htrace.tag, htrace.macro_instructions, htrace.uop_count,
      htrace.uop_count_le, ?_, ?_⟩
    · rw [hfilter]
      exact htrace.branches_le
    · rw [hfilter']
      exact htrace.describes

/-- A loop of an addition and a conditional branch. -/
theorem run_traces_loop :
    let ms : List MacroInstruction :=
      [{ eip := 4, neip := 6, mop_size := 2, opcodes := [.Other] },
        { eip := 6, neip := 4, mop_size := 2, opcodes := [.Branch] },
        { eip := 4, neip := 6, mop_size := 2, opcodes := [.Other] },
        { eip := 6, neip := 8, mop_size := 2, opcodes := [.Branch] }]
    let config : Config := { trace_size := 4, max_branches := 2 }
    ∃ tc, run step (ms.flatMap MacroInstruction.uops) (new config) = some tc ∧
      ∀ i, Stored config MacroInstruction.branch ms (tc.entries i) := by
  intro ms config
  obtain ⟨tc, hrun, _, hstored⟩ := run_traces config ms _ (List.prefix_refl _)
    (by decide) (by decide)
  exact ⟨tc, hrun, hstored⟩

/-- Each call stores its return address before it jumps, so that a trace of two calls counts no
branches. -/
theorem calls_not_stored :
    let call (eip : BitVec 32) : MacroInstruction :=
      { eip := eip, neip := eip + 100, mop_size := 5, opcodes := [.Other, .Store, .Call] }
    let config : Config := { trace_size := 6, max_branches := 1 }
    ∃ tc, run step ([call 4, call 104, call 204].flatMap MacroInstruction.uops) (new config) =
        some tc ∧
      ∃ i, ¬ Stored config MacroInstruction.branch [call 4, call 104, call 204]
        (tc.entries i) := by
  intro call config
  have hrun := (Option.some_get (by decide +kernel : (run step
    ([call 4, call 104, call 204].flatMap MacroInstruction.uops) (new config)).isSome = true)).symm
  refine ⟨_, hrun, 16, ?_⟩
  intro hstored
  obtain ⟨before, trace, after, hms, htrace⟩ := hstored (by decide +kernel)
  have hbranch : ∀ m ∈ trace.dropLast, m.branch = true := by
    intro m hm
    have hmem : m ∈ [call 4, call 104, call 204] := by
      rw [hms]
      exact List.mem_append_left _ (List.mem_append_right _ (List.mem_of_mem_dropLast hm))
    simp only [List.mem_cons, List.not_mem_nil, or_false] at hmem
    obtain rfl | rfl | rfl := hmem <;> rfl
  have hlength := congrArg List.length htrace.macro_instructions
  have hcount := htrace.describes.count
  rw [List.filter_eq_self.mpr hbranch, List.length_dropLast] at hcount
  rw [List.length_map] at hlength
  rw [← hlength] at hcount
  exact absurd hcount (by decide +kernel)

end TraceCache

end OISA.X86
