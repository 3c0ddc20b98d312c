import OISA.Lib.Runs

/-!
# Register file

`timing/RegisterFile.cc`: alias tables, physical registers and free lists, with the reorder buffer
of `Thread` whose uops are renamed, committed and undone.
-/

namespace OISA.X86

open OISA.Lib

/-- The opcodes that move the top of the floating-point stack -/
inductive StackOpcode
  | FpPop
  | FpPush
  | Other
  deriving DecidableEq, Repr

/-- An emulator micro-instruction with its input and output dependences -/
structure Uinst where
  opcode : StackOpcode := .Other
  idep : ℕ → ℕ := fun _ => 0
  odep : ℕ → ℕ := fun _ => 0

namespace Uinst

def DepIntFirst : ℕ := 1
def DepIntLast : ℕ := 22
def DepIntCount : ℕ := DepIntLast - DepIntFirst + 1
def DepFlagFirst : ℕ := 15
def DepFlagLast : ℕ := 18
def DepFpFirst : ℕ := 23
def DepFpLast : ℕ := 33
def DepFpCount : ℕ := DepFpLast - DepFpFirst + 1
def DepXmmFirst : ℕ := 34
def DepXmmLast : ℕ := 42
def DepXmmCount : ℕ := DepXmmLast - DepXmmFirst + 1
def MaxIDeps : ℕ := 3
def MaxODeps : ℕ := 4

def isIntegerDependency (dep : ℕ) : Bool := DepIntFirst ≤ dep ∧ dep ≤ DepIntLast
def isFloatingPointDependency (dep : ℕ) : Bool := DepFpFirst ≤ dep ∧ dep ≤ DepFpLast
def isXmmDependency (dep : ℕ) : Bool := DepXmmFirst ≤ dep ∧ dep ≤ DepXmmLast
def isFlagDependency (dep : ℕ) : Bool := DepFlagFirst ≤ dep ∧ dep ≤ DepFlagLast

end Uinst

open Uinst

inductive RegisterKind
  | Integer
  | FloatingPoint
  | Xmm
  deriving DecidableEq, Repr

namespace RegisterKind

def depCount : RegisterKind → ℕ
  | Integer => DepIntCount
  | FloatingPoint => DepFpCount
  | Xmm => DepXmmCount

def ofDep (dep : ℕ) : Option RegisterKind :=
  if isIntegerDependency dep then some Integer
  else if isFloatingPointDependency dep then some FloatingPoint
  else if isXmmDependency dep then some Xmm
  else none

end RegisterKind

namespace RegisterFile

structure Uop where
  uinst : Uinst
  speculative_mode : Bool := false
  completed : Bool := false
  inputs : ℕ → Option ℕ := fun _ => some 0
  outputs : ℕ → Option ℕ := fun _ => some 0
  old_outputs : ℕ → Option ℕ := fun _ => some 0

structure PhysicalRegister where
  /-- The result is still being computed. -/
  pending : Bool := false
  /-- Number of logical registers mapped to this physical register -/
  busy : ℕ := 0

structure Bank where
  local_size : ℕ
  rat : ℕ → ℕ := fun _ => 0
  registers : ℕ → PhysicalRegister := fun _ => {}
  /-- The used part of the array, the last entry first -/
  free_registers : List ℕ
  num_occupied_registers : ℕ := 0
  /-- The counter in the core, for all its threads -/
  core_num_occupied_registers : ℕ := 0

namespace Bank

/-- `RequestIntegerRegister` and its siblings -/
def request (b : Bank) : Option (ℕ × Bank) :=
  match b.free_registers with
  | [] => none
  | physical_register :: free_registers =>
    if (b.registers physical_register).busy = 0 ∧
        (b.registers physical_register).pending = false then
      some (physical_register,
        { b with
          free_registers := free_registers
          num_occupied_registers := b.num_occupied_registers + 1
          core_num_occupied_registers := b.core_num_occupied_registers + 1 })
    else none

def setRegister (b : Bank) (physical_register : ℕ) (register : PhysicalRegister) : Bank :=
  { b with registers := Function.update b.registers physical_register register }

def setRat (b : Bank) (position physical_register : ℕ) : Bank :=
  { b with rat := Function.update b.rat position physical_register }

def mapTo (b : Bank) (position physical_register : ℕ) : Bank :=
  (b.setRegister physical_register
    { b.registers physical_register with
      busy := (b.registers physical_register).busy + 1 }).setRat position physical_register

def rename (b : Bank) (position physical_register : ℕ) : Bank :=
  (b.setRegister physical_register
    { busy := (b.registers physical_register).busy + 1, pending := true }).setRat position
      physical_register

def release (b : Bank) (physical_register : ℕ) : Option Bank :=
  if b.free_registers.length < b.local_size ∧ 0 < b.core_num_occupied_registers ∧
      0 < b.num_occupied_registers then
    some { b with
      free_registers := physical_register :: b.free_registers
      num_occupied_registers := b.num_occupied_registers - 1
      core_num_occupied_registers := b.core_num_occupied_registers - 1 }
  else none

/-- Decrease busy counter and free if 0. Return to previous mapping. -/
def undo (b : Bank) (position physical_register old_physical_register : ℕ) : Option Bank :=
  let register := b.registers physical_register
  if 0 < register.busy ∧ register.pending = false then
    let b := b.setRegister physical_register { register with busy := register.busy - 1 }
    (if register.busy - 1 = 0 then b.release physical_register else some b).bind fun b =>
      if (b.registers old_physical_register).busy ≠ 0 then
        some (b.setRat position old_physical_register)
      else none
  else none

def commit (b : Bank) (old_physical_register : ℕ) : Option Bank :=
  let register := b.registers old_physical_register
  if 0 < register.busy then
    let b := b.setRegister old_physical_register { register with busy := register.busy - 1 }
    if register.busy - 1 = 0 then
      if register.pending = false then b.release old_physical_register else none
    else some b
  else none

/-- The end of a computation -/
def write (b : Bank) (physical_register : ℕ) : Bank :=
  b.setRegister physical_register { b.registers physical_register with pending := false }

end Bank

inductive Kind
  | Shared
  | Private
  deriving DecidableEq, Repr

/-- `local_size` is the size for a thread, which is the size for the core if it is shared. -/
structure Config where
  kind : Kind := .Private
  local_size : RegisterKind → ℕ := fun
    | .Integer => 80
    | .FloatingPoint => 40
    | .Xmm => 40

end RegisterFile

structure RegisterFile where
  bank : RegisterKind → RegisterFile.Bank
  /-- Value between 0 and 7 indicating the top of the stack -/
  floating_point_top : ℕ := 0

namespace RegisterFile

def setBank (f : RegisterFile) (kind : RegisterKind) (b : Bank) : RegisterFile :=
  { f with bank := Function.update f.bank kind b }

/-! ### Constructor -/

def emptyBank (config : Config) (core : RegisterKind → ℕ) (kind : RegisterKind) : Bank where
  local_size := config.local_size kind
  free_registers := (List.range (config.local_size kind)).reverse
  core_num_occupied_registers := core kind

def mapInteger (dep : ℕ) (s : Option ℕ × Bank) : Option (Option ℕ × Bank) :=
  if isFlagDependency (dep + DepIntFirst) then
    s.1.map fun flag_physical_register =>
      (s.1, s.2.mapTo dep flag_physical_register)
  else s.2.request.map fun r => (some r.1, r.2.mapTo dep r.1)

def mapOther (dep : ℕ) (b : Bank) : Option Bank := b.request.map fun r => r.2.mapTo dep r.1

/-- Constructor; `core` are the counters of the core before. -/
def new (config : Config) (core : RegisterKind → ℕ) : Option RegisterFile :=
  (run mapInteger (List.range DepIntCount) (none, emptyBank config core .Integer)).bind fun i =>
    (run mapOther (List.range DepFpCount) (emptyBank config core .FloatingPoint)).bind fun f =>
      (run mapOther (List.range DepXmmCount) (emptyBank config core .Xmm)).map fun x =>
        { bank := fun
            | .Integer => i.2
            | .FloatingPoint => f
            | .Xmm => x }

/-! ### Renaming -/

def Uop.numOutputs (uop : Uop) (kind : RegisterKind) : ℕ :=
  let count := (List.range MaxODeps).countP fun dep =>
    RegisterKind.ofDep (uop.uinst.odep dep) = some kind ∧
      isFlagDependency (uop.uinst.odep dep) = false
  let flag_count := (List.range MaxODeps).countP fun dep => isFlagDependency (uop.uinst.odep dep)
  if kind = .Integer ∧ flag_count ≠ 0 ∧ count = 0 then 1 else count

/-- `canCommit` of the thread: stores, which have no outputs, commit before they are completed. An
uop in speculative mode is recovered instead. -/
def Uop.canCommit (uop : Uop) : Bool :=
  !uop.speculative_mode && (uop.completed ||
    (List.range MaxODeps).all fun dep => (RegisterKind.ofDep (uop.uinst.odep dep)).isNone)

def canRename (config : Config) (f : RegisterFile) (uop : Uop) : Bool :=
  [RegisterKind.Integer, .FloatingPoint, .Xmm].all fun kind =>
    (match config.kind with
      | .Private => (f.bank kind).num_occupied_registers
      | .Shared => (f.bank kind).core_num_occupied_registers) + uop.numOutputs kind ≤
      config.local_size kind

def pushPop : StackOpcode → ℕ → ℕ
  | .FpPop, top => (top + 1) % 8
  | .FpPush, top => (top + 7) % 8
  | .Other, top => top

def undoPushPop : StackOpcode → ℕ → ℕ
  | .FpPop, top => (top + 7) % 8
  | .FpPush, top => (top + 1) % 8
  | .Other, top => top

def stackRegister (floating_point_top logical_register : ℕ) : ℕ :=
  (logical_register - DepFpFirst + floating_point_top) % 8 + DepFpFirst

def position (floating_point_top logical_register : ℕ) : RegisterKind → ℕ
  | .Integer => logical_register - DepIntFirst
  | .FloatingPoint => stackRegister floating_point_top logical_register - DepFpFirst
  | .Xmm => logical_register - DepXmmFirst

def renameInput (f : RegisterFile) (logical_register : ℕ) : Option ℕ :=
  (RegisterKind.ofDep logical_register).map fun kind =>
    (f.bank kind).rat (position f.floating_point_top logical_register kind)

structure Renaming where
  file : RegisterFile
  uop : Uop
  flag_physical_register : Option ℕ := none
  flag_count : ℕ := 0

def Uop.setOutput (uop : Uop) (dep : ℕ) (physical_register old_physical_register : Option ℕ) :
    Uop :=
  { uop with
    outputs := Function.update uop.outputs dep physical_register
    old_outputs := Function.update uop.old_outputs dep old_physical_register }

/-- A logical register gets a physical register, and the uop keeps both the new and the old one. -/
def Renaming.assign (s : Renaming) (dep : ℕ) (kind : RegisterKind) (b : Bank)
    (physical_register : ℕ) : Renaming :=
  let position := position s.file.floating_point_top (s.uop.uinst.odep dep) kind
  { s with
    file := s.file.setBank kind (b.rename position physical_register)
    uop := s.uop.setOutput dep physical_register (b.rat position) }

/-- Rename output int/FP/XMM registers (not flags). -/
def renameOutput (dep : ℕ) (s : Renaming) : Option Renaming :=
  let logical_register := s.uop.uinst.odep dep
  if isFlagDependency logical_register then some { s with flag_count := s.flag_count + 1 }
  else
    match RegisterKind.ofDep logical_register with
    | some kind =>
      (s.file.bank kind).request.map fun r =>
        { s.assign dep kind r.2 r.1 with
          flag_physical_register :=
            if kind = .Integer then s.flag_physical_register.or (some r.1)
            else s.flag_physical_register }
    | none => some { s with uop := s.uop.setOutput dep none none }

def renameFlag (flag_physical_register : ℕ) (s : Renaming) (dep : ℕ) : Renaming :=
  if isFlagDependency (s.uop.uinst.odep dep) then
    s.assign dep .Integer (s.file.bank .Integer) flag_physical_register
  else s

def requestFlag (s : Renaming) : Option (ℕ × Renaming) :=
  match s.flag_physical_register with
  | some flag_physical_register => some (flag_physical_register, s)
  | none => (s.file.bank .Integer).request.map fun r =>
      (r.1, { s with file := s.file.setBank .Integer r.2 })

/-- Perform register renaming on the given uop. -/
def Rename (f : RegisterFile) (uop : Uop) : Option (RegisterFile × Uop) :=
  let f := { f with floating_point_top := pushPop uop.uinst.opcode f.floating_point_top }
  let uop := { uop with
    inputs := fun dep =>
      if dep < MaxIDeps then renameInput f (uop.uinst.idep dep) else uop.inputs dep }
  (run renameOutput (List.range MaxODeps) { file := f, uop := uop }).bind fun s =>
    if 0 < s.flag_count then
      (requestFlag s).map fun r =>
        let s := (List.range MaxODeps).foldl (renameFlag r.1) r.2
        (s.file, s.uop)
    else some (s.file, s.uop)

/-! ### Completion, recovery and commit -/

def writeOutput (uop : Uop) (dep : ℕ) (f : RegisterFile) : Option RegisterFile :=
  match RegisterKind.ofDep (uop.uinst.odep dep) with
  | some kind => (uop.outputs dep).map fun physical_register =>
      f.setBank kind ((f.bank kind).write physical_register)
  | none => some f

def WriteUop (f : RegisterFile) (uop : Uop) : Option RegisterFile :=
  run (writeOutput uop) (List.range MaxODeps) f

def undoOutput (uop : Uop) (dep : ℕ) (f : RegisterFile) : Option RegisterFile :=
  match RegisterKind.ofDep (uop.uinst.odep dep) with
  | some kind =>
    (uop.outputs dep).bind fun physical_register =>
      (uop.old_outputs dep).bind fun old_physical_register =>
        ((f.bank kind).undo (position f.floating_point_top (uop.uinst.odep dep) kind)
          physical_register old_physical_register).map (f.setBank kind)
  | none =>
    if uop.outputs dep = none ∧ uop.old_outputs dep = none then some f else none

def UndoUop (f : RegisterFile) (uop : Uop) : Option RegisterFile :=
  if uop.speculative_mode then
    (run (undoOutput uop) (List.range MaxODeps).reverse f).map fun f =>
      { f with floating_point_top := undoPushPop uop.uinst.opcode f.floating_point_top }
  else none

def commitOutput (uop : Uop) (dep : ℕ) (f : RegisterFile) : Option RegisterFile :=
  match RegisterKind.ofDep (uop.uinst.odep dep) with
  | some kind =>
    (uop.outputs dep).bind fun _ =>
      (uop.old_outputs dep).bind fun old_physical_register =>
        ((f.bank kind).commit old_physical_register).map (f.setBank kind)
  | none =>
    if uop.outputs dep = none ∧ uop.old_outputs dep = none then some f else none

def CommitUop (f : RegisterFile) (uop : Uop) : Option RegisterFile :=
  if uop.speculative_mode then none
  else run (commitOutput uop) (List.range MaxODeps) f

/-- The assertions: free registers are idle, and mapped ones are busy. -/
def CheckRegisterFile (f : RegisterFile) : Bool :=
  [RegisterKind.Integer, .FloatingPoint, .Xmm].all fun kind =>
    ((f.bank kind).free_registers.all fun physical_register =>
      ((f.bank kind).registers physical_register).busy = 0 ∧
        ((f.bank kind).registers physical_register).pending = false) &&
    (List.range kind.depCount).all fun position =>
      ((f.bank kind).registers ((f.bank kind).rat position)).busy ≠ 0

/-! ### Reorder buffer -/

/-- A register file and the uops that were renamed from it, the youngest first. -/
structure Window where
  file : RegisterFile
  reorder_buffer : List Uop

inductive Event
  /-- `Dispatch` -/
  | Rename (uinst : Uinst) (speculative_mode : Bool)
  /-- `Writeback` of the uop at a place of the reorder buffer -/
  | Write (place : ℕ)
  /-- `Writeback` of an uop that has left the reorder buffer -/
  | WriteLate (uop : Uop)
  /-- `Commit` of the oldest uop -/
  | Commit
  /-- `Recover`, for the youngest uop -/
  | Squash
  /-- The counter of the core is changed by another thread. -/
  | Others (kind : RegisterKind) (core_num_occupied_registers : ℕ)

namespace Window

def dispatch (s : Window) (uop : Uop) : Option Window :=
  (s.file.Rename uop).map fun r =>
    { file := r.1, reorder_buffer := r.2 :: s.reorder_buffer }

def writeback (s : Window) (place : ℕ) : Option Window :=
  s.reorder_buffer[place]?.bind fun uop =>
    if uop.completed then none
    else (s.file.WriteUop uop).map fun f =>
      { file := f
        reorder_buffer := s.reorder_buffer.set place { uop with completed := true } }

def commit (s : Window) : Option Window :=
  s.reorder_buffer.getLast?.bind fun uop =>
    (s.file.CommitUop uop).map fun f =>
      { file := f, reorder_buffer := s.reorder_buffer.dropLast }

def squash (s : Window) : Option Window :=
  match s.reorder_buffer with
  | [] => none
  | uop :: rest =>
    (if uop.completed then some s.file else s.file.WriteUop uop).bind fun f =>
      (f.UndoUop uop).map fun f => { file := f, reorder_buffer := rest }

def others (s : Window) (kind : RegisterKind) (core_num_occupied_registers : ℕ) : Option Window :=
  if (s.file.bank kind).num_occupied_registers ≤ core_num_occupied_registers then
    some { s with
      file := s.file.setBank kind
        { s.file.bank kind with core_num_occupied_registers := core_num_occupied_registers } }
  else none

def step : Event → Window → Option Window
  | .Rename uinst speculative_mode, s =>
    s.dispatch { uinst := uinst, speculative_mode := speculative_mode }
  | .Write place, s => s.writeback place
  | .WriteLate uop, s => (s.file.WriteUop uop).map fun f => { s with file := f }
  | .Commit, s => s.commit
  | .Squash, s => s.squash
  | .Others kind n, s => s.others kind n

end Window

/-! ### Threads of a core -/

def Window.withCore (s : Window) (core : RegisterKind → ℕ) : Window :=
  { s with file := { s.file with
      bank := fun kind => { s.file.bank kind with core_num_occupied_registers := core kind } } }

def coreCounters (f : RegisterFile) (kind : RegisterKind) : ℕ :=
  (f.bank kind).core_num_occupied_registers

/-- The threads of a core and the counters that their register files share -/
structure Core where
  num_occupied_registers : RegisterKind → ℕ := fun _ => 0
  threads : List Window := []

namespace Core

/-- The register files of the threads are constructed one after another. -/
def new (config : Config) : ℕ → Option Core
  | 0 => some {}
  | num_threads + 1 => (new config num_threads).bind fun c =>
    (RegisterFile.new config c.num_occupied_registers).map fun f =>
      { num_occupied_registers := f.coreCounters
        threads := c.threads ++ [{ file := f, reorder_buffer := [] }] }

/-- The threads of the core by turns -/
def step (e : ℕ × Event) (c : Core) : Option Core :=
  c.threads[e.1]?.bind fun s =>
    (Window.step e.2 (s.withCore c.num_occupied_registers)).map fun s' =>
      { num_occupied_registers := s'.file.coreCounters
        threads := c.threads.set e.1 s' }

end Core

end RegisterFile

end OISA.X86
