import OISA.Proofs.DecoderBounds
import OISA.X86.Expansion

/-!
# Accesses and dependences of an expansion

A memory operand among the inputs becomes a load, and one among the outputs a store.
-/

namespace OISA.X86.Expansion

open OISA.Lib
open Decoder (Instruction)
open Registers (RegEax RegEs)

def DepAux : ℕ := 19
def DepAux2 : ℕ := 20
def DepFpaux : ℕ := 33

/-- The dependences that are no registers of the machine -/
def internals : List ℕ := [DepAux, DepAux2, DepEa, DepData, DepFpaux, DepXmmData]

/-- The bytes of the operands that are in memory, or may be -/
def operandBytes : List (ℕ × ℕ) :=
  [(DepRm8, 1), (DepRm16, 2), (DepRm32, 4), (DepMem8, 1), (DepMem16, 2), (DepMem32, 4),
    (DepMem64, 8), (DepMem80, 10), (DepMem128, 16), (DepXmmm32, 4), (DepXmmm64, 8),
    (DepXmmm128, 16)]

/-- Every internal dependence that is consumed is in `before`, or produced before. -/
def Fed : List ℕ → List Uinst → Prop
  | _, [] => True
  | before, u :: us => (∀ dep ∈ u.idep, dep ∈ internals → dep ∈ before) ∧ Fed (before ++ u.odep) us

/-- The micro-instruction is an access of `bytes` bytes itself. -/
structure InPlace (opcode : Opcode) (bytes : ℕ) (u : Uinst) (emitted : List Uinst) : Prop where
  emitted : emitted = []
  opcode : u.opcode = opcode
  size : u.size = bytes
  address : DepEa ∈ u.idep

def Loaded (bytes : ℕ) (u : Uinst) (loads : List Uinst) : Prop :=
  ∃ load data, loads = [load] ∧ load.opcode = .Load ∧ load.size = bytes ∧ load.idep = [DepEa] ∧
    load.odep = [data] ∧ data ∈ u.idep

def Stored (bytes : ℕ) (u : Uinst) (stores : List Uinst) : Prop :=
  ∃ store data, stores = [store] ∧ store.opcode = .Store ∧ store.size = bytes ∧
    store.idep = [DepEa, data] ∧ data ∈ u.odep

section Instruction

variable (inst : Instruction)

/-- The sizes and standard dependences of the memory operands among some dependences -/
def operands (deps : List ℕ) : List (ℕ × ℕ) := deps.filterMap (getMemoryDepSize inst)

/-- At most one memory operand is read, and at most one is written. -/
structure OneOperand (d : Description) : Prop where
  idep : (operands inst d.uinst.idep).length ≤ 1
  odep : (operands inst d.uinst.odep).length ≤ 1

/-- A move of what is not in memory, with room for the address -/
def movesOut (d : Description) : Bool :=
  d.uinst.opcode = .Move && operands inst d.uinst.idep = [] &&
    d.uinst.idep.any fun dep => ParseUinstDep inst dep = some DepNone

/-- Every operand that is read is loaded, and every one that is written is stored. -/
structure Expanded (d : Description) (c : Call) : Prop where
  effaddr : ∀ u ∈ c.effaddr, u.opcode = .Effaddr
  opcode : d.uinst.opcode ≠ .Move ∨ d.memory inst = false → c.uinst.opcode = d.uinst.opcode
  noLoads : operands inst d.uinst.idep = [] → c.loads = []
  load : ∀ dep ∈ d.uinst.idep, (getMemoryDepSize inst dep).isSome →
    ∃ bytes, (dep, bytes) ∈ operandBytes ∧
      if d.uinst.opcode = .Move then InPlace .Load bytes c.uinst c.loads
      else Loaded bytes c.uinst c.loads
  noStores : operands inst d.uinst.odep = [] → c.stores = []
  store : ∀ dep ∈ d.uinst.odep, (getMemoryDepSize inst dep).isSome →
    ∃ bytes, (dep, bytes) ∈ operandBytes ∧
      if movesOut inst d then InPlace .Store bytes c.uinst c.stores
      else Stored bytes c.uinst c.stores

structure Faithful (ds : List Description) (s : State) : Prop where
  expanded : List.Forall₂ (Expanded inst) ds s.calls
  effaddr : (s.calls.flatMap Call.effaddr).length ≤ 1
  regular : ∀ u ∈ s.uinsts, ∀ dep ∈ u.idep ++ u.odep, dep = DepNone ∨ isValidDependency dep
  fed : Fed [] s.uinsts

/-! ### Dependences -/

/-- What a dependence becomes, if those on memory become `f` of their standard dependence -/
def Resolves (f : ℕ → ℕ) (dep dep' : ℕ) : Prop :=
  (∃ size std, getMemoryDepSize inst dep = some (size, std) ∧ dep' = f std) ∨
    getMemoryDepSize inst dep = none ∧ ParseUinstDep inst dep = some dep'

variable {inst}

section Dep

variable {dep dep' size std : ℕ}

lemma mem_operandBytes (h : getMemoryDepSize inst dep = some (size, std)) :
    (dep, size) ∈ operandBytes ↔ dep ≠ DepMem128 := by
  unfold getMemoryDepSize at h
  split_ifs at h with h1 _ h2 h3 h4 <;> simp only [Option.some.injEq, Prod.mk.injEq] at h <;>
    obtain ⟨rfl, -⟩ := h
  · rcases h1 with rfl | rfl | rfl <;> decide
  · rcases h2 with rfl | rfl | rfl | rfl | rfl <;> decide
  · subst h3
    decide
  · rcases h4 with rfl | rfl | rfl <;> decide

lemma std_of_memory (h : getMemoryDepSize inst dep = some (size, std)) :
    (std = DepData ∨ std = DepXmmData) ∧ dep ∉ internals := by
  unfold getMemoryDepSize at h
  split_ifs at h with h1 _ h2 h3 h4 <;> simp only [Option.some.injEq, Prod.mk.injEq] at h <;>
    obtain ⟨-, rfl⟩ := h
  · exact ⟨.inl rfl, by rcases h1 with rfl | rfl | rfl <;> decide⟩
  · exact ⟨.inl rfl, by rcases h2 with rfl | rfl | rfl | rfl | rfl <;> decide⟩
  · exact ⟨.inl rfl, by subst h3; decide⟩
  · exact ⟨.inr rfl, by rcases h4 with rfl | rfl | rfl <;> decide⟩

/-- A register of the machine -/
def Register (dep : ℕ) : Prop := dep ≤ 18 ∨ 23 ≤ dep ∧ dep ≤ 30 ∨ 34 ≤ dep ∧ dep ≤ 41

lemma regDep_register (reg : Decoder.Reg) {firstReg firstDep : ℕ}
    (h : firstReg = RegEs ∧ firstDep = DepEs ∨ firstReg = RegEax ∧ firstDep = DepEax) :
    Register (regDep reg firstReg firstDep) := by
  unfold Register
  rcases h with ⟨rfl, rfl⟩ | ⟨rfl, rfl⟩ <;> cases reg <;> decide

lemma register_ite {c : Prop} [Decidable c] {a b : ℕ} {x : Option ℕ}
    (h : (if c then some a else x) = some b) (ha : Register a) (hx : x = some b → Register b) :
    Register b := by
  split_ifs at h with hc
  · cases h
    exact ha
  · exact hx h

lemma parseUinstDep_cases (hinst : Decoder.Narrow inst) (h : ParseUinstDep inst dep = some dep') :
    isValidDependency dep = true ∧ dep' = dep ∨ Register dep' ∧ dep ∉ internals := by
  have hbyte {i : ℕ} (hi : i < 8) : Register (byteReg i) := by
    unfold Register byteReg DepEax
    split_ifs <;> omega
  have hplus {first i : ℕ} (hfirst : first = DepEax ∨ first = DepEs ∨ first = DepSt0 ∨
      first = DepXmm0) (hi : i < 8) : Register (first + i) := by
    unfold Register
    rcases hfirst with rfl | rfl | rfl | rfl <;> simp only [DepEax, DepEs, DepSt0, DepXmm0] <;>
      omega
  unfold ParseUinstDep at h
  by_cases hvalid : isValidDependency dep = true
  · rw [if_pos hvalid, Option.some.injEq] at h
    exact .inl ⟨hvalid, h.symm⟩
  · have hinternals : ∀ dep ∈ internals, isValidDependency dep = true := by decide
    refine .inr ⟨?_, fun hdep => hvalid (hinternals dep hdep)⟩
    rw [if_neg hvalid] at h
    by_cases hnone : dep = DepNone
    · rw [if_pos hnone, Option.some.injEq] at h
      subst h hnone
      exact .inl (Nat.zero_le _)
    rw [if_neg hnone] at h
    refine register_ite h (regDep_register _ (.inl ⟨rfl, rfl⟩)) fun h =>
      register_ite h (regDep_register _ (.inr ⟨rfl, rfl⟩)) fun h =>
      register_ite h (regDep_register _ (.inr ⟨rfl, rfl⟩)) fun h =>
      register_ite h (hbyte hinst.rm) fun h =>
      register_ite h (hplus (.inl rfl) hinst.rm) fun h =>
      register_ite h (hbyte hinst.reg) fun h =>
      register_ite h (hplus (.inl rfl) hinst.reg) fun h =>
      register_ite h (hbyte hinst.opindex) fun h =>
      register_ite h (hplus (.inl rfl) hinst.opindex) fun h =>
      register_ite h (hplus (.inr (.inl rfl)) hinst.reg) fun h =>
      register_ite h (hplus (.inr (.inr (.inl rfl))) hinst.opindex) fun h =>
      register_ite h (hplus (.inr (.inr (.inr rfl))) hinst.rm) fun h =>
      register_ite h (hplus (.inr (.inr (.inr rfl))) hinst.reg) fun h => ?_
    cases h

lemma register_regular (h : Register dep) : dep = DepNone ∨ isValidDependency dep = true := by
  unfold Register at h
  have hall : ∀ dep < 42, dep = DepNone ∨ isValidDependency dep = true := by decide
  exact hall dep (by omega)

lemma register_not_internal (h : Register dep) : dep ∉ internals := by
  unfold Register at h
  have hall : ∀ dep ∈ internals, 18 < dep ∧ (dep < 23 ∨ 30 < dep) ∧ (dep < 34 ∨ 41 < dep) := by
    decide
  intro hdep
  have hrange := hall dep hdep
  omega

end Dep

section Deps

variable {deps deps' : List ℕ} {f : ℕ → ℕ} {u u' : Uinst} {emitted : List Uinst}

lemma operands_cons_some {dep : ℕ} {p : ℕ × ℕ} (h : getMemoryDepSize inst dep = some p) :
    operands inst (dep :: deps) = p :: operands inst deps := List.filterMap_cons_some h

lemma operands_cons_none {dep : ℕ} (h : getMemoryDepSize inst dep = none) :
    operands inst (dep :: deps) = operands inst deps := List.filterMap_cons_none h

lemma mem_operands {p : ℕ × ℕ} :
    p ∈ operands inst deps ↔ ∃ dep ∈ deps, getMemoryDepSize inst dep = some p := List.mem_filterMap

/-- A loop over dependences that treats a memory operand by `f`, `g` and `e` -/
lemma parseDeps_spec {parse : ℕ → Uinst → Option Parsed} {g : ℕ × ℕ → Uinst}
    {e : ℕ × ℕ → List Uinst}
    (hplain : ∀ dep u, getMemoryDepSize inst dep = none →
      parse dep u = (ParseUinstDep inst dep).map (·, u, []))
    (hmemory : ∀ dep ∈ deps, ∀ p, getMemoryDepSize inst dep = some p →
      parse dep u = some (f p.2, g p, e p))
    (hone : (operands inst deps).length ≤ 1)
    (h : parseDeps parse deps u = some (deps', u', emitted)) :
    List.Forall₂ (Resolves inst f) deps deps' ∧ u' = (operands inst deps).head?.elim u g ∧
      emitted = (operands inst deps).flatMap e := by
  induction deps generalizing u deps' emitted with
  | nil =>
    cases h
    exact ⟨.nil, rfl, rfl⟩
  | cons dep deps ih =>
    obtain ⟨⟨dep', u₁, first⟩, hstep, h⟩ := Option.bind_eq_some_iff.mp h
    obtain ⟨⟨rest', u₂, rest⟩, hrest, h⟩ := Option.bind_eq_some_iff.mp h
    cases h
    cases hdep : getMemoryDepSize inst dep with
    | none =>
      rw [hplain dep u hdep, Option.map_eq_some_iff] at hstep
      obtain ⟨dep₁, hdep₁, hstep⟩ := hstep
      cases hstep
      rw [operands_cons_none hdep] at hone ⊢
      obtain ⟨hdeps, hu, hemitted⟩ :=
        ih (fun other hother => hmemory other (.tail _ hother)) hone hrest
      exact ⟨.cons (.inr ⟨hdep, hdep₁⟩) hdeps, hu, hemitted⟩
    | some p =>
      rw [hmemory dep (.head _) p hdep] at hstep
      cases hstep
      rw [operands_cons_some hdep] at hone ⊢
      have hnil : operands inst deps = [] := by
        rw [List.length_cons] at hone
        exact List.length_eq_zero_iff.mp (by omega)
      have hvacuous : ∀ other ∈ deps, ∀ q, getMemoryDepSize inst other = some q →
          parse other (g p) = some (f q.2, g q, e q) := by
        intro other hother q hq
        have hmem : q ∈ operands inst deps := mem_operands.mpr ⟨other, hother, hq⟩
        rw [hnil] at hmem
        cases hmem
      obtain ⟨hdeps, hu, hemitted⟩ := ih hvacuous (by rw [hnil]; exact Nat.zero_le _) hrest
      rw [hnil] at hu hemitted ⊢
      subst hu hemitted
      exact ⟨.cons (.inl ⟨p.1, p.2, hdep, rfl⟩) hdeps, rfl, rfl⟩

lemma mem_resolved (hinst : Decoder.Narrow inst) (h : List.Forall₂ (Resolves inst f) deps deps')
    {x : ℕ} (hx : x ∈ internals) :
    x ∈ deps' ↔ x ∈ deps ∨ ∃ p ∈ operands inst deps, x = f p.2 := by
  induction h with
  | nil => simp [operands]
  | @cons dep dep' deps deps' hdep _ ih =>
    rw [List.mem_cons, List.mem_cons, ih]
    rcases hdep with ⟨size, std, hmem, rfl⟩ | ⟨hnone, hparse⟩
    · have hne : x ≠ dep := fun heq => (std_of_memory hmem).2 (heq ▸ hx)
      rw [operands_cons_some hmem, List.exists_mem_cons_iff]
      tauto
    · rw [operands_cons_none hnone]
      rcases parseUinstDep_cases hinst hparse with ⟨-, rfl⟩ | ⟨hregister, hdep⟩
      · tauto
      · have hne : x ≠ dep := fun heq => hdep (heq ▸ hx)
        have hne' : x ≠ dep' := fun heq => register_not_internal hregister (heq ▸ hx)
        tauto

lemma regular_resolved (hinst : Decoder.Narrow inst)
    (hf : ∀ std, std = DepData ∨ std = DepXmmData → f std = DepNone ∨ isValidDependency (f std))
    (h : List.Forall₂ (Resolves inst f) deps deps') :
    ∀ x ∈ deps', x = DepNone ∨ isValidDependency x = true := by
  induction h with
  | nil => exact List.forall_mem_nil _
  | @cons dep dep' deps deps' hdep _ ih =>
    refine List.forall_mem_cons.mpr ⟨?_, ih⟩
    rcases hdep with ⟨size, std, hmem, rfl⟩ | ⟨-, hparse⟩
    · exact hf std (std_of_memory hmem).1
    · rcases parseUinstDep_cases hinst hparse with ⟨hvalid, rfl⟩ | ⟨hregister, -⟩
      · exact .inr hvalid
      · exact register_regular hregister

lemma none_mem_resolved (hnil : operands inst deps = [])
    (h : List.Forall₂ (Resolves inst f) deps deps') :
    DepNone ∈ deps' ↔ ∃ dep ∈ deps, ParseUinstDep inst dep = some DepNone := by
  induction h with
  | nil => simp
  | @cons dep dep' deps deps' hdep _ ih =>
    rcases hdep with ⟨size, std, hmem, -⟩ | ⟨hnone, hparse⟩
    · rw [operands_cons_some hmem] at hnil
      cases hnil
    · rw [operands_cons_none hnone] at hnil
      rw [List.mem_cons, List.exists_mem_cons_iff, ih hnil, hparse, Option.some.injEq, eq_comm]

lemma addIDep_isSome (new : ℕ) : (addIDep new deps).isSome ↔ DepNone ∈ deps := by
  induction deps with
  | nil => simp [addIDep]
  | cons dep deps ih =>
    rw [addIDep, List.mem_cons]
    split_ifs with hdep
    · simp [hdep]
    · rw [Option.isSome_map, ih, or_iff_right (Ne.symm hdep)]

lemma mem_addIDep {new x : ℕ} (h : addIDep new deps = some deps') (hx : x ≠ DepNone) :
    x ∈ deps' ↔ x ∈ deps ∨ x = new := by
  induction deps generalizing deps' with
  | nil => cases h
  | cons dep deps ih =>
    rw [addIDep] at h
    split_ifs at h with hdep
    · cases h
      subst hdep
      simp only [List.mem_cons]
      tauto
    · obtain ⟨rest, hrest, rfl⟩ := Option.map_eq_some_iff.mp h
      rw [List.mem_cons, List.mem_cons, ih hrest, or_assoc]

end Deps

/-! ### Calls -/

section Call

variable {d : Description} {s s' : State} {c : Call} {emit : Bool}

/-- What a call of `newMemoryUinst` appends -/
structure IsCall (inst : Instruction) (emit : Bool) (d : Description) (c : Call) : Prop where
  effaddr : c.effaddr = if emit then [effectiveAddressUinst inst] else []
  loads : c.loads = if d.uinst.opcode = .Move then []
    else (operands inst d.uinst.idep).map (loadUinst d.last_effective_address)
  stores : c.stores = if movesOut inst d then []
    else (operands inst d.uinst.odep).map (storeUinst d.last_effective_address)
  opcode : c.uinst.opcode =
    if d.uinst.opcode = .Move ∧ operands inst d.uinst.idep ≠ [] then .Load
    else if movesOut inst d = true ∧ operands inst d.uinst.odep ≠ [] then .Store
    else d.uinst.opcode
  loadSize : d.uinst.opcode = .Move → ∀ p ∈ operands inst d.uinst.idep, c.uinst.size = p.1
  storeSize : movesOut inst d = true → ∀ p ∈ operands inst d.uinst.odep, c.uinst.size = p.1
  idep : ∀ x ∈ internals, x ∈ c.uinst.idep ↔ x ∈ d.uinst.idep ∨
    (∃ p ∈ operands inst d.uinst.idep, x = if d.uinst.opcode = .Move then DepEa else p.2) ∨
    (movesOut inst d = true ∧ operands inst d.uinst.odep ≠ [] ∧ x = DepEa)
  odep : ∀ x ∈ internals, x ∈ c.uinst.odep ↔ x ∈ d.uinst.odep ∨
    ∃ p ∈ operands inst d.uinst.odep, x = if movesOut inst d then DepNone else p.2
  regular : ∀ x ∈ c.uinst.idep ++ c.uinst.odep, x = DepNone ∨ isValidDependency x = true

lemma memory_iff : d.memory inst = true ↔
    operands inst d.uinst.idep ≠ [] ∨ operands inst d.uinst.odep ≠ [] := by
  have hany (deps : List ℕ) : deps.any (fun dep => (getMemoryDepSize inst dep).isSome) = true ↔
      operands inst deps ≠ [] := by
    rw [List.any_eq_true, ne_eq, operands, List.filterMap_eq_nil_iff]
    simp only [Option.isSome_iff_ne_none, not_forall, exists_prop]
  rw [Description.memory, List.any_append, Bool.or_eq_true, hany, hany]

lemma movesOut_iff : movesOut inst d = true ↔ d.uinst.opcode = .Move ∧
    operands inst d.uinst.idep = [] ∧
      ∃ dep ∈ d.uinst.idep, ParseUinstDep inst dep = some DepNone := by
  simp [movesOut, and_assoc]

lemma eq_nil_or_single {deps : List ℕ} (h : (operands inst deps).length ≤ 1) :
    operands inst deps = [] ∨ ∃ p, operands inst deps = [p] := by
  cases hops : operands inst deps with
  | nil => exact .inl rfl
  | cons p rest =>
    rw [hops, List.length_cons] at h
    have hrest : rest = [] := List.length_eq_zero_iff.mp (by omega)
    exact .inr ⟨p, by rw [hrest]⟩

lemma operands_single {deps : List ℕ} (h : (operands inst deps).length ≤ 1) {p : ℕ × ℕ}
    (hp : p ∈ operands inst deps) : operands inst deps = [p] := by
  obtain ⟨q, hops⟩ := (eq_nil_or_single h).resolve_left (List.ne_nil_of_mem hp)
  rw [hops] at hp ⊢
  rw [List.mem_singleton.mp hp]

lemma std_internal {dep : ℕ} {p : ℕ × ℕ} (h : getMemoryDepSize inst dep = some p) :
    p.2 ∈ internals := by
  rcases (std_of_memory h).1 with hstd | hstd <;> rw [hstd] <;> decide

lemma flatMap_ite {α β : Type} (c : Prop) [Decidable c] (g : α → β) (l : List α) :
    (l.flatMap fun a => if c then [] else [g a]) = if c then [] else l.map g := by
  split_ifs
  · simp
  · exact List.flatMap_pure_eq_map g l

lemma newMemoryUinst_cases (hinst : Decoder.Narrow inst) (hone : OneOperand inst d)
    (h : newMemoryUinst inst d s = some s') : ∃ c,
      IsCall inst (!s.uinst_effaddr_emitted && d.memory inst) d c ∧
        s' = ⟨s.uinst_effaddr_emitted || d.memory inst, s.calls ++ [c]⟩ := by
  obtain ⟨⟨idep, u, loads⟩, hidep, h⟩ := Option.bind_eq_some_iff.mp h
  obtain ⟨⟨odep, u', stores⟩, hodep, h⟩ := Option.bind_eq_some_iff.mp h
  cases h
  set address := d.last_effective_address with haddress
  obtain ⟨hideps, hu, hloads⟩ := parseDeps_spec
    (f := fun std => if d.uinst.opcode = .Move then DepEa else std)
    (g := fun p => if d.uinst.opcode = .Move then
      { d.uinst with opcode := .Load, address := address, size := p.1 } else d.uinst)
    (e := fun p => if d.uinst.opcode = .Move then [] else [loadUinst address p])
    (fun dep u hdep => by rw [ParseUinstIDep, hdep])
    (fun dep _ p hdep => by
      rw [ParseUinstIDep, hdep]
      split_ifs <;> rfl) hone.idep hidep
  -- what the loop over the outputs finds
  have hopcode : u.opcode = if d.uinst.opcode = .Move ∧ operands inst d.uinst.idep ≠ [] then .Load
      else d.uinst.opcode := by
    subst hu
    rcases eq_nil_or_single hone.idep with hops | ⟨p, hops⟩ <;> rw [hops] <;>
      by_cases hmove : d.uinst.opcode = .Move <;> simp [hmove]
  have hsize : d.uinst.opcode = .Move → ∀ p ∈ operands inst d.uinst.idep, u.size = p.1 := by
    intro hmove p hp
    subst hu
    rw [operands_single hone.idep hp, List.head?_cons, Option.elim_some, if_pos hmove]
  set room := if u.opcode = .Move then addIDep DepEa idep else none with hroom
  have hroom_iff : room.isSome = movesOut inst d := by
    rw [Bool.eq_iff_iff, movesOut_iff, hroom, hopcode]
    by_cases hmove : d.uinst.opcode = .Move
    · by_cases hops : operands inst d.uinst.idep = []
      · simp only [hmove, hops, ne_eq, not_true_eq_false, and_false, if_false, if_true, true_and]
        rw [addIDep_isSome, none_mem_resolved hops hideps]
      · simp [hmove, hops]
    · simp [hmove]
  obtain ⟨hodeps, hu', hstores⟩ := parseDeps_spec
    (f := fun std => if room.isSome then DepNone else std)
    (g := fun p => room.elim { u with idep := idep } fun idep' =>
      { u with opcode := .Store, idep := idep', address := address, size := p.1 })
    (e := fun p => if room.isSome then [] else [storeUinst address p])
    (fun dep u hdep => by rw [ParseUinstODep, hdep])
    (fun dep _ p hdep => by
      simp only [ParseUinstODep, hdep, ← hroom]
      cases room <;> rfl) hone.odep hodep
  rw [hroom_iff] at hodeps hstores
  have hflag : (s.uinst_effaddr_emitted || !s.uinst_effaddr_emitted && d.memory inst) =
      (s.uinst_effaddr_emitted || d.memory inst) := by
    cases s.uinst_effaddr_emitted <;> rfl
  -- the micro-instruction after the loop over the outputs
  have hfinal : (u'.opcode = if movesOut inst d = true ∧ operands inst d.uinst.odep ≠ [] then .Store
      else u.opcode) ∧
      (movesOut inst d = true → ∀ p ∈ operands inst d.uinst.odep, u'.size = p.1) ∧
      (operands inst d.uinst.odep = [] ∨ movesOut inst d = false → u'.size = u.size) ∧
      ∀ x ≠ DepNone, x ∈ u'.idep ↔ x ∈ idep ∨
        (movesOut inst d = true ∧ operands inst d.uinst.odep ≠ [] ∧ x = DepEa) := by
    subst hu'
    rcases eq_nil_or_single hone.odep with hops | ⟨q, hops⟩ <;> rw [hops]
    · simp
    · cases hr : room with
      | none =>
        rw [hr] at hroom_iff
        simp [← hroom_iff]
      | some idep' =>
        have hadd : addIDep DepEa idep = some idep' := by
          rw [hroom] at hr
          split_ifs at hr
          exact hr
        rw [hr] at hroom_iff
        refine ⟨by simp [← hroom_iff], by simp, by simp [← hroom_iff], fun x hx => ?_⟩
        simp [← hroom_iff, mem_addIDep hadd hx]
  obtain ⟨hopcode', hstoreSize, hkept, hidep'⟩ := hfinal
  have hnotNone : ∀ x ∈ internals, x ≠ DepNone := by decide
  refine ⟨_, ⟨rfl, ?_, ?_, ?_, ?_, hstoreSize, ?_, ?_, ?_⟩, by rw [hflag]⟩
  · rw [hloads]
    exact flatMap_ite _ _ _
  · rw [hstores]
    exact flatMap_ite _ _ _
  · rw [hopcode', hopcode]
    by_cases hmoves : movesOut inst d = true
    · obtain ⟨hmove, hops, -⟩ := movesOut_iff.mp hmoves
      simp [hmoves, hmove, hops]
    · rw [if_neg fun h => hmoves h.1]
      simp only [if_neg (show ¬(movesOut inst d = true ∧ _) from fun h => hmoves h.1)]
  · intro hmove p hp
    rw [hkept, hsize hmove p hp]
    refine .inr (Bool.eq_false_iff.mpr fun hmoves => ?_)
    rw [(movesOut_iff.mp hmoves).2.1] at hp
    cases hp
  · intro x hx
    rw [hidep' x (hnotNone x hx), mem_resolved hinst hideps hx, or_assoc]
  · intro x hx
    exact mem_resolved hinst hodeps hx
  · have hea : isValidDependency DepEa = true := by decide
    have hstd {std : ℕ} (hstd : std = DepData ∨ std = DepXmmData) :
        isValidDependency std = true := by
      rcases hstd with rfl | rfl <;> decide
    intro x hx
    rcases List.mem_append.mp hx with hx | hx
    · by_cases hnone : x = DepNone
      · exact .inl hnone
      rcases (hidep' x hnone).mp hx with hx | ⟨-, -, rfl⟩
      · refine regular_resolved hinst (fun std hmem => .inr ?_) hideps x hx
        split_ifs
        · exact hea
        · exact hstd hmem
      · exact .inr hea
    · refine regular_resolved hinst (fun std hmem => ?_) hodeps x hx
      split_ifs
      · exact .inl rfl
      · exact .inr (hstd hmem)

lemma operandBytes_iff {dep : ℕ} {p : ℕ × ℕ} (h : getMemoryDepSize inst dep = some p) :
    (∃ bytes, (dep, bytes) ∈ operandBytes ∧ p.1 = bytes) ↔ dep ≠ DepMem128 := by
  rw [← mem_operandBytes h]
  exact ⟨fun ⟨bytes, hbytes, heq⟩ => heq ▸ hbytes, fun h => ⟨_, h, rfl⟩⟩

lemma IsCall.load_iff (h : IsCall inst emit d c) (hone : OneOperand inst d) {dep bytes : ℕ}
    {p : ℕ × ℕ} (hdep : dep ∈ d.uinst.idep) (hp : getMemoryDepSize inst dep = some p) :
    (if d.uinst.opcode = .Move then InPlace .Load bytes c.uinst c.loads
      else Loaded bytes c.uinst c.loads) ↔ p.1 = bytes := by
  have hmem : p ∈ operands inst d.uinst.idep := mem_operands.mpr ⟨dep, hdep, hp⟩
  have hops := operands_single hone.idep hmem
  split_ifs with hmove
  · constructor
    · intro hplace
      rw [← h.loadSize hmove p hmem, hplace.size]
    · intro heq
      refine ⟨?_, ?_, ?_, ?_⟩
      · rw [h.loads, if_pos hmove]
      · rw [h.opcode, if_pos ⟨hmove, List.ne_nil_of_mem hmem⟩]
      · rw [h.loadSize hmove p hmem, heq]
      · refine (h.idep DepEa (by decide)).mpr (.inr (.inl ⟨p, hmem, ?_⟩))
        rw [if_pos hmove]
  · have hloads : c.loads = [loadUinst d.last_effective_address p] := by
      rw [h.loads, if_neg hmove, hops, List.map_singleton]
    constructor
    · rintro ⟨load, data, heq, -, hsize, -⟩
      rw [hloads, List.singleton_inj] at heq
      rw [← hsize, ← heq]
      rfl
    · intro heq
      have hstd := std_internal hp
      refine ⟨_, p.2, hloads, rfl, heq, rfl, rfl, (h.idep p.2 hstd).mpr (.inr (.inl ⟨p, hmem, ?_⟩))⟩
      rw [if_neg hmove]

lemma IsCall.store_iff (h : IsCall inst emit d c) (hone : OneOperand inst d) {dep bytes : ℕ}
    {p : ℕ × ℕ} (hdep : dep ∈ d.uinst.odep) (hp : getMemoryDepSize inst dep = some p) :
    (if movesOut inst d then InPlace .Store bytes c.uinst c.stores
      else Stored bytes c.uinst c.stores) ↔ p.1 = bytes := by
  have hmem : p ∈ operands inst d.uinst.odep := mem_operands.mpr ⟨dep, hdep, hp⟩
  have hops := operands_single hone.odep hmem
  split_ifs with hmoves
  · obtain ⟨hmove, hnil, -⟩ := movesOut_iff.mp hmoves
    constructor
    · intro hplace
      rw [← h.storeSize hmoves p hmem, hplace.size]
    · intro heq
      refine ⟨?_, ?_, ?_, ?_⟩
      · rw [h.stores, if_pos hmoves]
      · rw [h.opcode, if_neg fun hload => hload.2 hnil, if_pos ⟨hmoves, List.ne_nil_of_mem hmem⟩]
      · rw [h.storeSize hmoves p hmem, heq]
      · exact (h.idep DepEa (by decide)).mpr (.inr (.inr ⟨hmoves, List.ne_nil_of_mem hmem, rfl⟩))
  · have hstores : c.stores = [storeUinst d.last_effective_address p] := by
      rw [h.stores, if_neg hmoves, hops, List.map_singleton]
    constructor
    · rintro ⟨store, data, heq, -, hsize, -⟩
      rw [hstores, List.singleton_inj] at heq
      rw [← hsize, ← heq]
      rfl
    · intro heq
      have hstd := std_internal hp
      refine ⟨_, p.2, hstores, rfl, heq, rfl, (h.odep p.2 hstd).mpr (.inr ⟨p, hmem, ?_⟩)⟩
      rw [if_neg hmoves]

lemma IsCall.expanded_iff (h : IsCall inst emit d c) (hone : OneOperand inst d) :
    Expanded inst d c ↔ DepMem128 ∉ d.uinst.idep ++ d.uinst.odep := by
  have h128 : getMemoryDepSize inst DepMem128 = some (32, DepData) := rfl
  constructor
  · rintro hexp hmem
    rcases List.mem_append.mp hmem with hdep | hdep
    · obtain ⟨bytes, hbytes, hload⟩ := hexp.load _ hdep rfl
      exact (operandBytes_iff h128).mp ⟨bytes, hbytes, (h.load_iff hone hdep h128).mp hload⟩ rfl
    · obtain ⟨bytes, hbytes, hstore⟩ := hexp.store _ hdep rfl
      exact (operandBytes_iff h128).mp ⟨bytes, hbytes, (h.store_iff hone hdep h128).mp hstore⟩ rfl
  · intro hne
    rw [List.mem_append, not_or] at hne
    refine ⟨?_, ?_, ?_, ?_, ?_, ?_⟩
    · intro u hu
      rw [h.effaddr] at hu
      split_ifs at hu
      · rw [List.mem_singleton.mp hu]
        rfl
      · cases hu
    · intro hkept
      rw [h.opcode]
      rcases hkept with hmove | hmemory
      · rw [if_neg fun hload => hmove hload.1,
          if_neg fun hstore => hmove (movesOut_iff.mp hstore.1).1]
      · have hnone := mt memory_iff.mpr (Bool.eq_false_iff.mp hmemory)
        rw [if_neg fun hload => hnone (.inl hload.2), if_neg fun hstore => hnone (.inr hstore.2)]
    · intro hnil
      rw [h.loads, hnil, List.map_nil, ite_self]
    · intro dep hdep hsome
      obtain ⟨p, hp⟩ := Option.isSome_iff_exists.mp hsome
      refine ⟨p.1, (mem_operandBytes hp).mpr fun heq => hne.1 (heq ▸ hdep), ?_⟩
      exact (h.load_iff hone hdep hp).mpr rfl
    · intro hnil
      rw [h.stores, hnil, List.map_nil, ite_self]
    · intro dep hdep hsome
      obtain ⟨p, hp⟩ := Option.isSome_iff_exists.mp hsome
      refine ⟨p.1, (mem_operandBytes hp).mpr fun heq => hne.2 (heq ▸ hdep), ?_⟩
      exact (h.store_iff hone hdep hp).mpr rfl

lemma effectiveAddress_register : ∀ dep ∈ (effectiveAddressUinst inst).idep, Register dep := by
  simp only [effectiveAddressUinst, List.forall_mem_cons]
  exact ⟨regDep_register _ (.inl ⟨rfl, rfl⟩), regDep_register _ (.inr ⟨rfl, rfl⟩),
    regDep_register _ (.inr ⟨rfl, rfl⟩), List.forall_mem_nil _⟩

lemma IsCall.forall_uinsts {P : Uinst → Prop} (h : IsCall inst emit d c)
    (heffaddr : P (effectiveAddressUinst inst))
    (hload : ∀ p ∈ operands inst d.uinst.idep, P (loadUinst d.last_effective_address p))
    (huinst : P c.uinst)
    (hstore : ∀ p ∈ operands inst d.uinst.odep, P (storeUinst d.last_effective_address p)) :
    ∀ u ∈ c.uinsts, P u := by
  rw [Call.uinsts, h.effaddr, h.loads, h.stores]
  intro u hu
  rcases List.mem_append.mp hu with hu | hu
  · rcases List.mem_append.mp hu with hu | hu
    · split_ifs at hu
      · exact List.mem_singleton.mp hu ▸ heffaddr
      · cases hu
    · split_ifs at hu
      · cases hu
      · obtain ⟨p, hp, rfl⟩ := List.mem_map.mp hu
        exact hload p hp
  · rcases List.mem_cons.mp hu with rfl | hu
    · exact huinst
    · split_ifs at hu
      · cases hu
      · obtain ⟨p, hp, rfl⟩ := List.mem_map.mp hu
        exact hstore p hp

lemma IsCall.regular_uinsts (h : IsCall inst emit d c) :
    ∀ u ∈ c.uinsts, ∀ dep ∈ u.idep ++ u.odep, dep = DepNone ∨ isValidDependency dep = true := by
  have hinternal : ∀ dep ∈ internals, isValidDependency dep = true := by decide
  have hea : DepEa ∈ internals := by decide
  have hstd {deps : List ℕ} {p : ℕ × ℕ} (hp : p ∈ operands inst deps) : p.2 ∈ internals := by
    obtain ⟨dep, -, hp⟩ := mem_operands.mp hp
    exact std_internal hp
  refine h.forall_uinsts ?_ (fun p hp => ?_) h.regular fun p hp => ?_
  · intro dep hdep
    rcases List.mem_append.mp hdep with hdep | hdep
    · exact register_regular (effectiveAddress_register dep hdep)
    · rw [List.mem_singleton.mp hdep]
      exact .inr (hinternal _ hea)
  all_goals
    refine fun dep hdep => .inr (hinternal dep ?_)
    simp only [loadUinst, storeUinst, List.cons_append, List.nil_append, List.mem_cons,
      List.not_mem_nil, or_false] at hdep
    rcases hdep with rfl | rfl
    · exact hea
    · exact hstd hp

/-! ### What is produced before it is consumed -/

lemma Fed.append {before : List ℕ} {us vs : List Uinst} :
    Fed before (us ++ vs) ↔ Fed before us ∧ Fed (before ++ us.flatMap Uinst.odep) vs := by
  induction us generalizing before with
  | nil => simp [Fed]
  | cons u us ih =>
    rw [List.cons_append, Fed, Fed, ih, List.flatMap_cons, List.append_assoc, and_assoc]

lemma fed_of_forall {before : List ℕ} {us : List Uinst}
    (h : ∀ u ∈ us, ∀ dep ∈ u.idep, dep ∈ internals → dep ∈ before) : Fed before us := by
  induction us generalizing before with
  | nil => trivial
  | cons u us ih =>
    obtain ⟨hu, hus⟩ := List.forall_mem_cons.mp h
    exact ⟨hu, ih fun v hv dep hdep hx => List.mem_append_left _ (hus v hv dep hdep hx)⟩

lemma Fed.congr {before before' : List ℕ} {us : List Uinst}
    (heq : ∀ x ∈ internals, x ∈ before ↔ x ∈ before') (h : Fed before us) : Fed before' us := by
  induction us generalizing before before' with
  | nil => trivial
  | cons u us ih =>
    refine ⟨fun dep hdep hx => (heq dep hx).mp (h.1 dep hdep hx), ih (fun x hx => ?_) h.2⟩
    rw [List.mem_append, List.mem_append, heq x hx]

/-- The internal dependences that the memory operands supply to the operation -/
def fetched (inst : Instruction) (d : Description) : List ℕ :=
  (if d.memory inst then [DepEa] else []) ++
    if d.uinst.opcode = .Move then [] else (operands inst d.uinst.idep).map Prod.snd

/-- The dependences that are produced when the operation is done -/
def written (inst : Instruction) (d : Description) : List ℕ :=
  d.uinst.odep ++ if movesOut inst d then [] else (operands inst d.uinst.odep).map Prod.snd

/-- The internal dependences that the descriptions name as inputs are in `before`, or are supplied
by earlier ones or by the memory operand. -/
def Supplied (inst : Instruction) : List ℕ → List Description → Prop
  | _, [] => True
  | before, d :: ds => (∀ dep ∈ d.uinst.idep, dep ∈ internals → dep ∈ before ++ fetched inst d) ∧
      Supplied inst (before ++ fetched inst d ++ written inst d) ds

/-- Before the operation of a call there is what its memory operands supply. -/
lemma IsCall.fetches (h : IsCall inst emit d c) {before : List ℕ}
    (hemit : emit = true → d.memory inst = true)
    (hea : d.memory inst = true → emit = true ∨ DepEa ∈ before) (x : ℕ) :
    x ∈ before ++ (c.effaddr ++ c.loads).flatMap Uinst.odep ↔ x ∈ before ++ fetched inst d := by
  have hloads : c.loads.flatMap Uinst.odep =
      if d.uinst.opcode = .Move then [] else (operands inst d.uinst.idep).map Prod.snd := by
    rw [h.loads]
    split_ifs
    · rfl
    · rw [List.flatMap_map]
      exact List.flatMap_pure_eq_map _ _
  rw [List.flatMap_append, hloads, fetched, h.effaddr]
  simp only [List.mem_append]
  by_cases hmem : d.memory inst = true
  · rw [if_pos hmem]
    rcases hea hmem with rfl | hbefore
    · rfl
    · have hsame : x = DepEa → x ∈ before := fun heq => heq ▸ hbefore
      split_ifs <;> simp [effectiveAddressUinst] <;> tauto
  · rw [if_neg hmem, if_neg (mt hemit hmem)]
    rfl

lemma IsCall.writes (h : IsCall inst emit d c) {x : ℕ} (hx : x ∈ internals) :
    x ∈ (c.uinst :: c.stores).flatMap Uinst.odep ↔ x ∈ written inst d := by
  have hnone : x ≠ DepNone := by
    rintro rfl
    revert hx
    decide
  have hstores : c.stores.flatMap Uinst.odep = [] := by
    rw [List.flatMap_eq_nil_iff, h.stores]
    intro u hu
    split_ifs at hu
    · cases hu
    · obtain ⟨p, -, rfl⟩ := List.mem_map.mp hu
      rfl
  rw [List.flatMap_cons, hstores, List.append_nil, h.odep x hx, written, List.mem_append]
  split_ifs <;> simp [hnone, eq_comm]

lemma IsCall.fed_iff (h : IsCall inst emit d c) {before : List ℕ}
    (hemit : emit = true → d.memory inst = true)
    (hea : d.memory inst = true → emit = true ∨ DepEa ∈ before) :
    Fed before c.uinsts ↔
      ∀ dep ∈ d.uinst.idep, dep ∈ internals → dep ∈ before ++ fetched inst d := by
  have hfetches := h.fetches hemit hea
  -- where there is a memory operand there is its address
  have haddress (hmem : d.memory inst = true) : DepEa ∈ before ++ fetched inst d := by
    rw [fetched, if_pos hmem]
    exact List.mem_append_right _ (.head _)
  have hin (hops : operands inst d.uinst.idep ≠ []) := haddress (memory_iff.mpr (.inl hops))
  have hout (hops : operands inst d.uinst.odep ≠ []) := haddress (memory_iff.mpr (.inr hops))
  have haccesses : Fed before (c.effaddr ++ c.loads) := by
    rw [Fed.append]
    constructor
    · refine fed_of_forall fun u hu dep hdep hx => ?_
      rw [h.effaddr] at hu
      split_ifs at hu
      · rw [List.mem_singleton.mp hu] at hdep
        exact absurd hx (register_not_internal (effectiveAddress_register dep hdep))
      · cases hu
    · refine fed_of_forall fun u hu dep hdep hx => ?_
      rw [h.loads] at hu
      split_ifs at hu with hmove
      · cases hu
      · obtain ⟨p, hp, rfl⟩ := List.mem_map.mp hu
        rw [List.mem_singleton.mp hdep, h.effaddr]
        rcases hea (memory_iff.mpr (.inl (List.ne_nil_of_mem hp))) with rfl | hbefore
        · exact List.mem_append_right _ (.head _)
        · exact List.mem_append_left _ hbefore
  have hstores : Fed (before ++ (c.effaddr ++ c.loads).flatMap Uinst.odep ++ c.uinst.odep)
      c.stores := by
    refine fed_of_forall fun u hu dep hdep hx => ?_
    rw [h.stores] at hu
    split_ifs at hu with hmoves
    · cases hu
    · obtain ⟨p, hp, rfl⟩ := List.mem_map.mp hu
      rcases List.mem_cons.mp hdep with rfl | hdep
      · exact List.mem_append_left _ ((hfetches _).mpr (hout (List.ne_nil_of_mem hp)))
      · rw [List.mem_singleton.mp hdep] at hx ⊢
        refine List.mem_append_right _ ((h.odep p.2 hx).mpr (.inr ⟨p, hp, ?_⟩))
        rw [if_neg hmoves]
  rw [Call.uinsts, Fed.append, Fed, and_iff_right haccesses, and_iff_left hstores]
  constructor
  · intro hall dep hdep hx
    exact (hfetches dep).mp (hall dep ((h.idep dep hx).mpr (.inl hdep)) hx)
  · intro hall dep hdep hx
    rw [hfetches]
    rcases (h.idep dep hx).mp hdep with hdep | ⟨p, hp, rfl⟩ | ⟨-, hops, rfl⟩
    · exact hall dep hdep hx
    · split_ifs with hmove
      · exact hin (List.ne_nil_of_mem hp)
      · rw [fetched, if_neg hmove]
        exact List.mem_append_right _ (List.mem_append_right _ (List.mem_map.mpr ⟨p, hp, rfl⟩))
    · exact hout hops

end Call

/-! ### Macro-instructions -/

section Run

variable {ds : List Description} {s s' : State} {cs : List Call} {emitted : Bool}

/-- The calls for some descriptions, with the flag in front of them -/
inductive Calls (inst : Instruction) : Bool → List Description → List Call → Prop where
  | nil {emitted : Bool} : Calls inst emitted [] []
  | cons {emitted : Bool} {d : Description} {c : Call} {ds : List Description} {cs : List Call} :
      OneOperand inst d → IsCall inst (!emitted && d.memory inst) d c →
      Calls inst (emitted || d.memory inst) ds cs → Calls inst emitted (d :: ds) (c :: cs)

lemma calls_of_run (hinst : Decoder.Narrow inst) (hone : ∀ d ∈ ds, OneOperand inst d)
    (h : run (newMemoryUinst inst) ds s = some s') :
    ∃ cs, Calls inst s.uinst_effaddr_emitted ds cs ∧ s'.calls = s.calls ++ cs := by
  induction ds generalizing s with
  | nil =>
    cases h
    exact ⟨[], .nil, (List.append_nil _).symm⟩
  | cons d ds ih =>
    obtain ⟨hd, hds⟩ := List.forall_mem_cons.mp hone
    obtain ⟨s₁, hstep, hrest⟩ := Option.bind_eq_some_iff.mp h
    obtain ⟨c, hc, rfl⟩ := newMemoryUinst_cases hinst hd hstep
    obtain ⟨cs, hcs, heq⟩ := ih hds hrest
    exact ⟨c :: cs, .cons hd hc hcs, by rw [heq, List.append_assoc, List.singleton_append]⟩

lemma Calls.expanded_iff (h : Calls inst emitted ds cs) :
    List.Forall₂ (Expanded inst) ds cs ↔
      ∀ d ∈ ds, DepMem128 ∉ d.uinst.idep ++ d.uinst.odep := by
  induction h with
  | nil => simp
  | cons hone hc _ ih => rw [List.forall₂_cons, hc.expanded_iff hone, ih, List.forall_mem_cons]

lemma Calls.effaddr (h : Calls inst emitted ds cs) :
    (cs.flatMap Call.effaddr).length + emitted.toNat ≤ 1 := by
  induction h with
  | @nil emitted => exact (Nat.zero_add _).trans_le emitted.toNat_le
  | @cons emitted d c ds cs _ hc _ ih =>
    rw [List.flatMap_cons, List.length_append, hc.effaddr]
    cases emitted <;> cases hmem : d.memory inst <;> simp_all

lemma Calls.regular (h : Calls inst emitted ds cs) : ∀ u ∈ cs.flatMap Call.uinsts,
    ∀ dep ∈ u.idep ++ u.odep, dep = DepNone ∨ isValidDependency dep = true := by
  induction h with
  | nil => exact List.forall_mem_nil _
  | cons _ hc _ ih =>
    intro u hu
    rw [List.flatMap_cons] at hu
    exact (List.mem_append.mp hu).elim (hc.regular_uinsts u) (ih u)

lemma Calls.fed_iff (h : Calls inst emitted ds cs) {before : List ℕ}
    (hea : emitted = true → DepEa ∈ before) :
    Fed before (cs.flatMap Call.uinsts) ↔ Supplied inst before ds := by
  induction h generalizing before with
  | nil => simp [Fed, Supplied]
  | @cons emitted d c ds cs _ hc _ ih =>
    have hemit : (!emitted && d.memory inst) = true → d.memory inst = true := fun h =>
      (Bool.and_eq_true_iff.mp h).2
    have hea' : d.memory inst = true → (!emitted && d.memory inst) = true ∨ DepEa ∈ before := by
      intro hmem
      cases emitted with
      | false => exact .inl hmem
      | true => exact .inr (hea rfl)
    have hsame : ∀ x ∈ internals, x ∈ before ++ c.uinsts.flatMap Uinst.odep ↔
        x ∈ before ++ fetched inst d ++ written inst d := by
      intro x hx
      rw [Call.uinsts, List.flatMap_append, ← List.append_assoc, List.mem_append,
        hc.fetches hemit hea', hc.writes hx, ← List.mem_append]
    rw [List.flatMap_cons, Fed.append, hc.fed_iff hemit hea', Supplied,
      ← ih ?_]
    · exact and_congr_right fun _ => ⟨Fed.congr hsame, Fed.congr fun x hx => (hsame x hx).symm⟩
    · intro hnext
      rw [List.append_assoc, List.mem_append]
      rcases Bool.or_eq_true_iff.mp hnext with hemitted | hmem
      · exact .inl (hea hemitted)
      · rw [fetched, if_pos hmem]
        exact .inr (List.mem_append_left _ (List.mem_append_left _ (.head _)))

/-- The expansion is right exactly without memory operands of 128 bits, and where the internal
dependences that the descriptions name are supplied. -/
theorem faithful_iff {defs : List Decoder.DefInst} {buffer : List UInt8} {eip : ℕ}
    (hdecode : Decoder.decode defs buffer eip = .ok inst) (hone : ∀ d ∈ ds, OneOperand inst d)
    (h : expand inst ds = some s) :
    Faithful inst ds s ↔
      (∀ d ∈ ds, DepMem128 ∉ d.uinst.idep ++ d.uinst.odep) ∧ Supplied inst [] ds := by
  obtain ⟨cs, hcs, heq⟩ := calls_of_run (Decoder.narrow_of_decode hdecode) hone h
  change s.calls = [] ++ cs at heq
  rw [List.nil_append] at heq
  subst heq
  constructor
  · intro hf
    exact ⟨hcs.expanded_iff.mp hf.expanded, (hcs.fed_iff nofun).mp hf.fed⟩
  · rintro ⟨h128, hsupplied⟩
    exact ⟨hcs.expanded_iff.mpr h128, Nat.le_of_add_right_le hcs.effaddr, hcs.regular,
      (hcs.fed_iff nofun).mpr hsupplied⟩

end Run
end Instruction

/-- `add_rm32_r32`, and the bytes of `add [ebx], eax` -/
def addDef : Decoder.DefInst := ⟨0x01, Decoder.SKIP, Decoder.SKIP, Decoder.REG, Decoder.SKIP, 0⟩

def addBytes : List UInt8 := [0x01, 0x03, 0, 0]

def add : Description where
  uinst := { opcode := .Other, idep := [DepRm32, DepR32, 0], odep := [DepRm32, 15, 16, 17] }

theorem faithful_add : ∃ inst s, Decoder.decode [addDef] addBytes 0 = .ok inst ∧
    expand inst [add] = some s ∧ Faithful inst [add] s := by
  refine ⟨_, _, rfl, rfl, ?_⟩
  refine (@faithful_iff _ [add] _ [addDef] addBytes 0 rfl ?_ rfl).mpr ⟨?_, ?_, trivial⟩
  · exact List.forall_mem_singleton.mpr ⟨by decide, by decide⟩
  · decide
  · decide

/-- `movdqa` from memory, with an operand of 128 bits -/
def move128 : Description where
  uinst := { opcode := .Other, idep := [DepMem128, 0, 0], odep := [DepXmm, 0, 0, 0] }

/-- The load has 32 bytes. -/
theorem not_faithful_move128 : ∃ inst s, Decoder.decode [addDef] addBytes 0 = .ok inst ∧
    OneOperand inst move128 ∧ expand inst [move128] = some s ∧ ¬ Faithful inst [move128] s := by
  refine ⟨_, _, rfl, ⟨by decide, by decide⟩, rfl, fun hf => ?_⟩
  obtain ⟨hexp, -⟩ := List.forall₂_cons.mp hf.expanded
  obtain ⟨bytes, hbytes, load, data, hloads, -, hsize, -⟩ := hexp.load DepMem128 (.head _) rfl
  have hall : ∀ p ∈ operandBytes, p.1 = DepMem128 → p.2 = 16 := by decide
  have h16 : bytes = 16 := hall _ hbytes rfl
  have h32 : load.size = 32 := by
    rw [← List.singleton_inj.mp hloads]
    rfl
  omega

end OISA.X86.Expansion
