import OISA.Memory.Memory

/-!
# Flat memory

What a memory is for: a map from addresses to bytes with permissions.
-/

namespace OISA

open OISA.Lib Memory

structure Cell where
  perm : BitVec 32
  value : UInt8

abbrev FlatMemory := BitVec 32 → Option Cell

namespace FlatMemory

variable {flat : FlatMemory} {a b : BitVec 32} {access : AccessType}

def guest (perm : BitVec 32) : BitVec 32 := perm &&& ~~~ AccessType.Modified.bits

/-- The byte is mapped with the required permission. -/
def Allows (flat : FlatMemory) (a : BitVec 32) (access : AccessType) : Prop :=
  ∃ cell, flat a = some cell ∧ cell.perm &&& access.bits = access.bits

/-- The `size` bytes from `a` on are mapped with the required permission. -/
def AllowsRange (flat : FlatMemory) (a : BitVec 32) (size : ℕ) (access : AccessType) : Prop :=
  ∀ i < size, flat.Allows (a + BitVec.ofNat 32 i) access

/-- The byte at an address, zero if it is not mapped. -/
def value (flat : FlatMemory) (a : BitVec 32) : UInt8 := (flat a).elim 0 Cell.value

/-- The `size` bytes from `a` on. -/
def bytes (flat : FlatMemory) (a : BitVec 32) (size : ℕ) : List UInt8 :=
  (List.range size).map fun i => flat.value (a + BitVec.ofNat 32 i)

/-- The page of `a` holds one of the `size` bytes from `address` on. -/
def Touched (address size a : BitVec 32) : Prop :=
  ∃ i < size.toNat, pageTag LogPageSize (address + BitVec.ofNat 32 i) = pageTag LogPageSize a

def addPerm (perm : BitVec 32) : Option Cell → Cell
  | none => ⟨guest perm, 0⟩
  | some cell => { cell with perm := cell.perm ||| guest perm }

open Classical in
noncomputable def onRange (address size : BitVec 32) (change : Option Cell → Option Cell)
    (flat : FlatMemory) : FlatMemory := fun a =>
  if Touched address size a then change (flat a) else flat a

def put (flat : FlatMemory) (a : BitVec 32) (x : UInt8) : FlatMemory :=
  Function.update flat a ((flat a).map fun cell => { cell with value := x })

open Classical in
/-- Store bytes up to the first one that the permissions forbid. -/
noncomputable def store (access : AccessType) :
    BitVec 32 → List UInt8 → FlatMemory → FlatMemory
  | _, [], flat => flat
  | a, x :: xs, flat =>
    if Allows flat a access then store access (a + 1#32) xs (flat.put a x) else flat

noncomputable def step (flat : FlatMemory) : Memory.Op → FlatMemory
  | .map address size perm => flat.onRange address size fun cell => some (addPerm perm cell)
  | .unmap address size => flat.onRange address size fun _ => none
  | .protect address size perm =>
    flat.onRange address size (Option.map fun cell => { cell with perm := guest perm })
  | .read _ _ => flat
  | .write address buffer => flat.store .Write address buffer
  | .init address buffer => flat.store .Init address buffer

/-- The flat memory after a sequence of operations. -/
noncomputable def run (ops : List Memory.Op) : FlatMemory := ops.foldl step fun _ => none

lemma value_put (h : (flat a).isSome) (x : UInt8) :
    (flat.put a x).value b = if b = a then x else flat.value b := by
  obtain ⟨cell, hcell⟩ := Option.isSome_iff_exists.mp h
  unfold value put
  by_cases hb : b = a
  · rw [if_pos hb, hb, Function.update_self, hcell]
    rfl
  · rw [if_neg hb, Function.update_of_ne hb]

lemma allows_put (x : UInt8) : (flat.put a x).Allows b access ↔ flat.Allows b access := by
  unfold Allows put
  by_cases h : b = a
  · rw [h, Function.update_self]
    constructor
    · rintro ⟨cell, hcell, hperm⟩
      obtain ⟨old, hold, rfl⟩ := Option.map_eq_some_iff.mp hcell
      exact ⟨old, hold, hperm⟩
    · rintro ⟨cell, hcell, hperm⟩
      rw [hcell]
      exact ⟨_, rfl, hperm⟩
  · rw [Function.update_of_ne h]

lemma ofNat_succ (a : BitVec 32) (i : ℕ) :
    a + BitVec.ofNat 32 (i + 1) = a + 1#32 + BitVec.ofNat 32 i := by
  rw [BitVec.add_assoc, Nat.add_comm, BitVec.ofNat_add]

lemma allowsRange_succ {n : ℕ} : flat.AllowsRange a (n + 1) access ↔
    flat.Allows a access ∧ flat.AllowsRange (a + 1#32) n access := by
  constructor
  · intro h
    constructor
    · have hzero := h 0 (Nat.succ_pos n)
      rwa [BitVec.add_zero] at hzero
    · intro i hi
      rw [← ofNat_succ]
      exact h (i + 1) (Nat.succ_lt_succ hi)
  · rintro ⟨hzero, hrest⟩ i hi
    cases i with
    | zero => rwa [BitVec.add_zero]
    | succ i =>
      rw [ofNat_succ]
      exact hrest i (Nat.lt_of_succ_lt_succ hi)

lemma bytes_succ {n : ℕ} : flat.bytes a (n + 1) = flat.value a :: flat.bytes (a + 1#32) n := by
  unfold bytes
  rw [List.range_succ_eq_map, List.map_cons, List.map_map, BitVec.add_zero]
  congr 1
  apply List.map_congr_left
  intro i _
  rw [Function.comp_apply, Nat.succ_eq_add_one, ofNat_succ a i]

lemma allowsRange_put {n : ℕ} (x : UInt8) :
    (flat.put b x).AllowsRange a n access ↔ flat.AllowsRange a n access := by
  unfold AllowsRange
  simp only [allows_put]

end FlatMemory

end OISA
