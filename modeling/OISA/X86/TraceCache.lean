import OISA.X86.Uop

/-!
# Trace cache

`timing/TraceCache.cc`: traces of committed macro-instructions are built in a temporary entry and
flushed into the cache.
-/

namespace OISA.X86

/-- Configuration, with the integrity checks of `ParseConfiguration` -/
structure TraceCache.Config where
  num_sets : ℕ := 64
  num_ways : ℕ := 4
  trace_size : ℕ := 16
  max_branches : ℕ := 3
  sets_pos : num_sets &&& (num_sets - 1) = 0 ∧ num_sets ≠ 0 := by decide
  ways_pos : num_ways &&& (num_ways - 1) = 0 ∧ num_ways ≠ 0 := by decide
  trace_size_pos : trace_size ≠ 0 := by decide
  max_branches_pos : max_branches ≠ 0 := by decide
  max_branches_le : max_branches ≤ trace_size := by decide
  max_branches_small : max_branches ≤ 31 := by decide

structure TraceCache.Entry where
  counter : ℤ := 0
  tag : BitVec 32 := 0
  uop_count : ℕ := 0
  branch_count : ℕ := 0
  branch_mask : BitVec 32 := 0
  branch_flags : BitVec 32 := 0
  is_last_instruction_branch : Bool := false
  fall_through : BitVec 32 := 0
  target : BitVec 32 := 0
  macro_instructions : List (BitVec 32) := []
  deriving DecidableEq, Repr

structure TraceCache where
  config : TraceCache.Config
  entries : ℕ → TraceCache.Entry
  temp : TraceCache.Entry := {}

namespace TraceCache

/-- Constructor -/
def new (config : Config) : TraceCache :=
  { config := config, entries := fun i => { counter := i % config.num_ways } }

/-- Position of an entry. -/
def entryIndex (tc : TraceCache) (set way : ℕ) : ℕ := set * tc.config.num_ways + way

/-- Remove a branch that ends the trace from the mask and flags fields. -/
def trimBranch (temp : Entry) : Option Entry :=
  if temp.is_last_instruction_branch then
    if temp.branch_count = 0 then none
    else
      let branch_count := temp.branch_count - 1
      some { temp with
        branch_count := branch_count
        branch_mask := temp.branch_mask &&& ~~~(1#32 <<< branch_count)
        branch_flags := temp.branch_flags &&& ~~~(1#32 <<< branch_count) }
  else some temp

def findWay (tc : TraceCache) (set : ℕ) (temp : Entry) : Option ℕ :=
  (List.range tc.config.num_ways).find? fun way =>
    let entry := tc.entries (tc.entryIndex set way)
    entry.tag = 0 ∨
      (entry.tag = temp.tag ∧ entry.branch_mask = temp.branch_mask ∧
        entry.branch_flags = temp.branch_flags)

/-- Look for a trace at the address, for a mask of predictions: the entry found and the address of
the next instruction to fetch after it, or `none` on a miss. -/
def Lookup (tc : TraceCache) (eip pred : BitVec 32) : Option (Entry × BitVec 32) :=
  let set := eip.toNat % tc.config.num_sets
  let way := (List.range tc.config.num_ways).find? fun way =>
    let entry := tc.entries (tc.entryIndex set way)
    entry.tag = eip ∧ pred &&& entry.branch_mask = entry.branch_flags
  way.map fun way =>
    let found_entry := tc.entries (tc.entryIndex set way)
    let taken := found_entry.target ≠ 0 ∧ pred &&& (1#32 <<< found_entry.branch_count) ≠ 0
    (found_entry, if taken then found_entry.target else found_entry.fall_through)

/-- The loop that looks for the LRU entry of the set. -/
def evict (tc : TraceCache) (set : ℕ) : (ℕ → Entry) × Option ℕ :=
  (List.range tc.config.num_ways).foldl
    (fun (entries, found_way) way =>
      let i := tc.entryIndex set way
      if (entries i).counter - 1 < 0 then
        (Function.update entries i { entries i with counter := tc.config.num_ways - 1 }, some way)
      else
        (Function.update entries i { entries i with counter := (entries i).counter - 1 },
          found_way))
    (tc.entries, none)

def fill (tc : TraceCache) (entries : ℕ → Entry) (i : ℕ) (temp : Entry) : TraceCache :=
  { tc with
    entries := Function.update entries i { temp with counter := (entries i).counter }
    temp := {} }

/-- Flush temporary trace of committed instructions back into the trace cache. -/
def Flush (tc : TraceCache) : Option TraceCache :=
  if tc.temp.uop_count = 0 then some tc
  else if tc.temp.tag = 0 then none
  else
    (trimBranch tc.temp).bind fun temp =>
      let set := temp.tag.toNat % tc.config.num_sets
      match tc.findWay set temp with
      | some found_way => some (tc.fill tc.entries (tc.entryIndex set found_way) temp)
      | none =>
        let (entries, found_way) := tc.evict set
        found_way.map fun found_way => tc.fill entries (tc.entryIndex set found_way) temp

/-- Add a macro-instruction to the temporary trace. -/
def append (temp : Entry) (uop : Uop) : Entry :=
  { temp with
    tag := if temp.uop_count = 0 then uop.eip else temp.tag
    macro_instructions := temp.macro_instructions ++ [uop.eip]
    uop_count := temp.uop_count + uop.mop_count
    is_last_instruction_branch := false
    fall_through := uop.next }

def appendBranch (temp : Entry) (uop : Uop) : Entry :=
  { temp with
    branch_mask := temp.branch_mask ||| (1#32 <<< temp.branch_count)
    branch_flags := temp.branch_flags |||
      ((if uop.taken then 1#32 else 0#32) <<< temp.branch_count)
    branch_count := temp.branch_count + 1
    target := uop.target_neip
    is_last_instruction_branch := true }

/-- Record the uop in trace cache -/
def RecordUop (tc : TraceCache) (uop : Uop) : Option TraceCache :=
  if uop.mop_index ≠ 0 then some tc
  else if uop.speculative_mode ∨ uop.eip = 0 then none
  else
    (if tc.temp.uop_count + uop.mop_count > tc.config.trace_size then tc.Flush else some tc).bind
      fun tc =>
        if uop.mop_count > tc.config.trace_size then some tc
        else if uop.opcode.FlagCtrl then
          let tc := { tc with temp := appendBranch (append tc.temp uop) uop }
          if tc.temp.branch_count = tc.config.max_branches then tc.Flush else some tc
        else some { tc with temp := append tc.temp uop }

/-- The commit of a uop. -/
def step (uop : Uop) (tc : TraceCache) : Option TraceCache := tc.RecordUop uop

end TraceCache

end OISA.X86
