import OISA.X86.Uop

/-!
# Branch predictor

`timing/BranchPredictor.cc`: branch target buffer, return address stack and direction predictors.
-/

namespace OISA.X86

inductive BranchPredictor.Kind
  | Perfect
  | Taken
  | Nottaken
  | Bimod
  | TwoLevel
  | Combined
  deriving DecidableEq, Repr

structure BranchPredictor.Config where
  kind : Kind := .TwoLevel
  btb_num_sets : ℕ := 256
  btb_num_ways : ℕ := 4
  ras_size : ℕ := 32
  bimod_size : ℕ := 1024
  choice_size : ℕ := 1024
  two_level_l1_size : ℕ := 1
  two_level_l2_size : ℕ := 1024
  two_level_history_size : ℕ := 8

namespace BranchPredictor

def Config.two_level_l2_height (config : Config) : ℕ := 1 <<< config.two_level_history_size

structure BtbEntry where
  source : BitVec 32 := 0
  target : BitVec 32 := 0
  counter : ℤ := 0
  deriving DecidableEq, Repr

end BranchPredictor

structure BranchPredictor where
  config : BranchPredictor.Config
  ras : ℕ → BitVec 32 := fun _ => 0
  ras_index : ℕ := 0
  btb : ℕ → BranchPredictor.BtbEntry
  bimod : ℕ → ℤ := fun _ => 2
  two_level_bht : ℕ → ℕ := fun _ => 0
  two_level_pht : ℕ → ℤ := fun _ => 2
  choice : ℕ → ℤ := fun _ => 2

namespace BranchPredictor

/-- Constructor -/
def new (config : Config) : BranchPredictor :=
  { config := config, btb := fun i => { counter := i % config.btb_num_ways } }

/-- Position of an address in a table with a power of two entries. -/
def index (eip : BitVec 32) (size : ℕ) : ℕ := eip.toNat &&& (size - 1)

def direction (counter : ℤ) : Prediction := if counter > 1 then .Taken else .NotTaken

/-- Bimodal predictor -/
def LookupBimod (p : BranchPredictor) (uop : Uop) : Option Uop :=
  let bimod_index := index uop.eip p.config.bimod_size
  if bimod_index < p.config.bimod_size then
    let bimod_prediction := direction (p.bimod bimod_index)
    some { uop with
      bimod_index := bimod_index
      bimod_prediction := bimod_prediction
      prediction := bimod_prediction }
  else none

/-- Two-level adaptive -/
def LookupTwoLevel (p : BranchPredictor) (uop : Uop) : Option Uop :=
  let two_level_bht_index := index uop.eip p.config.two_level_l1_size
  if two_level_bht_index < p.config.two_level_l1_size then
    let two_level_pht_row := p.two_level_bht two_level_bht_index
    let two_level_pht_col := index uop.eip p.config.two_level_l2_size
    if two_level_pht_row < p.config.two_level_l2_height ∧
        two_level_pht_col < p.config.two_level_l2_size then
      let two_level_prediction := direction (p.two_level_pht
        (two_level_pht_row * p.config.two_level_l2_size + two_level_pht_col))
      some { uop with
        two_level_bht_index := two_level_bht_index
        two_level_pht_row := two_level_pht_row
        two_level_pht_col := two_level_pht_col
        two_level_prediction := two_level_prediction
        prediction := two_level_prediction }
    else none
  else none

/-- Combined -/
def LookupChoice (p : BranchPredictor) (uop : Uop) : Option Uop :=
  let choice_index := index uop.eip p.config.choice_size
  if choice_index < p.config.choice_size then
    let choice_prediction :=
      if p.choice choice_index > 1 then uop.two_level_prediction else uop.bimod_prediction
    some { uop with
      choice_index := choice_index
      choice_prediction := choice_prediction
      prediction := choice_prediction }
  else none

/-- The uop with the prediction for its address, which is its field `prediction`. -/
def Lookup (p : BranchPredictor) (uop : Uop) : Option Uop :=
  if uop.opcode.FlagCtrl = false then none
  else if uop.opcode.FlagUncond then some { uop with prediction := .Taken }
  else if uop.opcode = .Ibranch then some { uop with prediction := .Taken }
  else
    match p.config.kind with
    | .Perfect => some { uop with prediction := if uop.taken then .Taken else .NotTaken }
    | .Taken => some { uop with prediction := .Taken }
    | .Nottaken => some { uop with prediction := .NotTaken }
    | .Bimod => p.LookupBimod uop
    | .TwoLevel => p.LookupTwoLevel uop
    | .Combined => ((p.LookupBimod uop).bind p.LookupTwoLevel).bind p.LookupChoice

/-- Value of the enumerator -/
def value : Prediction → ℕ
  | .NotTaken => 0
  | .Taken => 1

/-- The loop of `LookupMultiple`: `prediction` holds the bits below `i`, and `temp_prediction` is
the last of them. -/
def predictRest (p : BranchPredictor) (pht_col : ℕ) :
    ℕ → ℕ → ℕ → Prediction → BitVec 32 → BitVec 32
  | 0, _, _, _, prediction => prediction
  | n + 1, i, pht_row, temp_prediction, prediction =>
    let pht_row :=
      ((pht_row <<< 1) ||| value temp_prediction) &&& (p.config.two_level_l2_height - 1)
    let temp_prediction :=
      direction (p.two_level_pht (pht_row * p.config.two_level_l2_size + pht_col))
    p.predictRest pht_col n (i + 1) pht_row temp_prediction
      (prediction ||| BitVec.ofNat 32 (value temp_prediction) <<< i)

/-- Multiple predictions for an address. The prediction of the primary branch is bit 0. -/
def LookupMultiple (p : BranchPredictor) (eip : BitVec 32) (count : ℕ) : Option (BitVec 32) :=
  if p.config.kind ≠ .TwoLevel then none
  else
    let bht_index := index eip p.config.two_level_l1_size
    if bht_index < p.config.two_level_l1_size then
      let pht_row := p.two_level_bht bht_index
      let pht_col := index eip p.config.two_level_l2_size
      if pht_row < p.config.two_level_l2_height ∧ pht_col < p.config.two_level_l2_size then
        let prediction :=
          direction (p.two_level_pht (pht_row * p.config.two_level_l2_size + pht_col))
        -- the rest of the predictions
        some (p.predictRest pht_col (count - 1) 1 pht_row prediction
          (BitVec.ofNat 32 (value prediction)))
      else none
    else none

/-- A two-bit counter after an outcome -/
def count (up : Bool) (counter : ℤ) : ℤ :=
  if up then (if counter + 1 > 3 then 3 else counter + 1)
  else (if counter - 1 < 0 then 0 else counter - 1)

def UpdateBimod (p : BranchPredictor) (uop : Uop) : BranchPredictor :=
  { p with
    bimod := Function.update p.bimod uop.bimod_index (count uop.taken (p.bimod uop.bimod_index)) }

def UpdateTwoLevel (p : BranchPredictor) (uop : Uop) : BranchPredictor :=
  let pht_index := uop.two_level_pht_row * p.config.two_level_l2_size + uop.two_level_pht_col
  { p with
    two_level_bht := Function.update p.two_level_bht uop.two_level_bht_index
      (((p.two_level_bht uop.two_level_bht_index <<< 1) ||| uop.taken.toNat) &&&
        (p.config.two_level_l2_height - 1))
    two_level_pht := Function.update p.two_level_pht pht_index
      (count uop.taken (p.two_level_pht pht_index)) }

def UpdateChoice (p : BranchPredictor) (uop : Uop) : BranchPredictor :=
  if uop.bimod_prediction ≠ uop.two_level_prediction then
    { p with
      choice := Function.update p.choice uop.choice_index
        (count (uop.bimod_prediction ≠ .Taken) (p.choice uop.choice_index)) }
  else p

/-- Update the direction predictors with a committed branch. -/
def Update (p : BranchPredictor) (uop : Uop) : Option BranchPredictor :=
  if uop.speculative_mode ∨ uop.opcode.FlagCtrl = false then none
  else if uop.opcode.FlagUncond then some p
  else
    match p.config.kind with
    | .Perfect | .Taken | .Nottaken => some p
    | .Bimod => some (p.UpdateBimod uop)
    | .TwoLevel => some (p.UpdateTwoLevel uop)
    | .Combined =>
      let p' :=
        if uop.choice_prediction = .NotTaken then p.UpdateBimod uop else p.UpdateTwoLevel uop
      some (p'.UpdateChoice uop)

def btbIndex (p : BranchPredictor) (set way : ℕ) : ℕ := set * p.config.btb_num_ways + way

def findBtb (p : BranchPredictor) (set : ℕ) (eip : BitVec 32) : Option ℕ :=
  (List.range p.config.btb_num_ways).find? fun way => (p.btb (p.btbIndex set way)).source = eip

def push (p : BranchPredictor) (eip : BitVec 32) : Option BranchPredictor :=
  if p.ras_index < p.config.ras_size then
    some { p with
      ras := Function.update p.ras p.ras_index eip
      ras_index := (p.ras_index + 1) % p.config.ras_size }
  else none

def pop (p : BranchPredictor) : Option (BitVec 32 × BranchPredictor) :=
  if p.config.ras_size = 0 then none
  else
    let ras_index := (p.ras_index + p.config.ras_size - 1) % p.config.ras_size
    some (p.ras ras_index, { p with ras_index := ras_index })

/-- Lookup BTB. If it contains the uop address, return target. -/
def LookupBtb (p : BranchPredictor) (uop : Uop) : Option (BitVec 32 × BranchPredictor) :=
  if uop.opcode.FlagCtrl = false then none
  else if p.config.kind = .Perfect then some (uop.neip, p)
  else if uop.opcode = .Ibranch then some (uop.eip, p)
  else
    let set := index uop.eip p.config.btb_num_sets
    if set < p.config.btb_num_sets then
      match p.findBtb set uop.eip with
      | none => some (0, p)
      | some way =>
        let target := (p.btb (p.btbIndex set way)).target
        if uop.opcode = .Call ∧ uop.speculative_mode = false then
          (p.push uop.next).map fun p' => (target, p')
        else if uop.opcode = .Ret ∧ uop.speculative_mode = false then p.pop
        else some (target, p)
    else none

def nextBranchLoop (p : BranchPredictor) : ℕ → BitVec 32 → BitVec 32 → Option (BitVec 32)
  | 0, _, ret_addr => some ret_addr
  | n + 1, eip, ret_addr =>
    let set := index eip p.config.btb_num_sets
    if set < p.config.btb_num_sets then
      -- the break leaves the loop over the ways only
      p.nextBranchLoop n (eip + 1) (if (p.findBtb set eip).isSome then eip else ret_addr)
    else none

/-- Find address of next branch after eip within current block. -/
def getNextBranch (p : BranchPredictor) (eip block_size : BitVec 32) : Option (BitVec 32) :=
  if block_size &&& (block_size - 1) ≠ 0 then none
  else
    let limit := (eip + block_size) &&& ~~~(block_size - 1)
    p.nextBranchLoop (limit.toNat - eip.toNat) eip 0

/-- The loop that looks for the LRU entry of the set and replaces it. -/
def evictBtb (p : BranchPredictor) (set : ℕ) (uop : Uop) : BranchPredictor :=
  { p with
    btb := (List.range p.config.btb_num_ways).foldl
      (fun btb way =>
        let entry := btb (p.btbIndex set way)
        Function.update btb (p.btbIndex set way)
          (if entry.counter - 1 < 0 then
            { source := uop.eip, target := uop.neip, counter := p.config.btb_num_ways - 1 }
          else { entry with counter := entry.counter - 1 }))
      p.btb }

/-- The update of LRU counters and target when the address was found. -/
def hitBtb (p : BranchPredictor) (set found_way : ℕ) (uop : Uop) : BranchPredictor :=
  let found := p.btbIndex set found_way
  let btb := (List.range p.config.btb_num_ways).foldl
    (fun btb way =>
      let entry := btb (p.btbIndex set way)
      if entry.counter > (btb found).counter then
        Function.update btb (p.btbIndex set way) { entry with counter := entry.counter - 1 }
      else btb)
    p.btb
  { p with
    btb := Function.update btb found
      { btb found with counter := p.config.btb_num_ways - 1, target := uop.neip } }

/-- Update the BTB -/
def UpdateBtb (p : BranchPredictor) (uop : Uop) : Option BranchPredictor :=
  if p.config.kind = .Perfect then some p
  else
    let set := index uop.eip p.config.btb_num_sets
    if set < p.config.btb_num_sets then
      match p.findBtb set uop.eip with
      | none => some (p.evictBtb set uop)
      | some way => some (p.hitBtb set way uop)
    else none

/-- The calls of the pipeline to the predictor of a thread. -/
inductive Op
  | Lookup (uop : Uop)
  | Update (uop : Uop)
  | LookupBtb (uop : Uop)
  | UpdateBtb (uop : Uop)

def step (op : Op) (p : BranchPredictor) : Option BranchPredictor :=
  match op with
  | .Lookup uop => (p.Lookup uop).map fun _ => p
  | .Update uop => p.Update uop
  | .LookupBtb uop => (p.LookupBtb uop).map (·.2)
  | .UpdateBtb uop => p.UpdateBtb uop

end BranchPredictor

end OISA.X86
