import OISA.Memory.Messages
import OISA.Proofs.DirectorySharers

/-!
# Owners that a message clears

The loop of `message_action` looks for the sub-block at the address of the message in steps of the
number of sub-blocks, and in a range of the size of the directory.
-/

namespace OISA.Memory.MessageState

open Directory

variable {s s' : MessageState} {module target_module : Module} {frame : MessageFrame}
  {d d' : Directory} {x y z : ℕ} {e : Entry} {zs : List ℕ}

/-- The owner of a sub-block, if the directory has the sub-block. -/
def ownerOf (d : Directory) (x y z : ℕ) : Option (Option ℕ) := (d.getEntry x y z).map Entry.owner

/-- The block of the sender covers the sub-block: the test of the handlers of `evict`. -/
def Covers (module target_module : Module) (frame : MessageFrame) (z : ℕ) : Prop :=
  frame.address.toNat ≤ frame.tag.toNat + z * target_module.sub_block_size ∧
    frame.tag.toNat + z * target_module.sub_block_size < frame.address.toNat + module.block_size

/-- The sub-blocks that the test of the loop finds. -/
def Found (target_module : Module) (frame : MessageFrame) (z : ℕ) : Prop :=
  z < target_module.directory_size ∧ matched target_module frame z

instance (z : ℕ) : Decidable (Covers module target_module frame z) :=
  inferInstanceAs (Decidable (_ ∧ _))

instance (z : ℕ) : Decidable (Found target_module frame z) := inferInstanceAs (Decidable (_ ∧ _))

def OwnersCleared (d d' : Directory) (set way : ℕ) (P : ℕ → Prop) : Prop :=
  ∀ x y z, (x = set ∧ y = way ∧ P z → ownerOf d' x y z = (ownerOf d x y z).map fun _ => none) ∧
    (¬ (x = set ∧ y = way ∧ P z) → ownerOf d' x y z = ownerOf d x y z)

/-- The handler returns, and it clears the owners of the sub-blocks that the sender covers. -/
def ClearsCovered (module : Module) (s : MessageState) : Prop :=
  ∃ s', message_action s = some s' ∧
    OwnersCleared s.target_module.directory s'.target_module.directory s.frame.set s.frame.way
      (Covers module s.target_module s.frame)

/-- The directory and its locks have the sizes of the module, and the frame has the lock of its
entry. -/
structure Locked (s : MessageState) : Prop where
  num_sub_blocks : s.target_module.directory.num_sub_blocks = s.target_module.num_sub_blocks
  num_sets : s.locks.num_sets = s.target_module.directory.num_sets
  num_ways : s.locks.num_ways = s.target_module.directory.num_ways
  unlock : (s.locks.UnlockEntry s.frame.set s.frame.way s.frame.id).isSome

lemma getEntry_setEntry (hrange : d.inRange x y z) (e : Entry) (x' y' z' : ℕ) :
    (d.setEntry x y z e).getEntry x' y' z' =
      if x' = x ∧ y' = y ∧ z' = z then some e else d.getEntry x' y' z' := by
  have hwritten : Written d (d.setEntry x y z e) x y z e (d.row x y z) :=
    written_of_eq hrange e (fun _ _ => rfl) fun _ _ => rfl
  split_ifs with heq
  · obtain ⟨rfl, rfl, rfl⟩ := heq
    exact hwritten.entry
  · apply hwritten.getEntry
    simpa [Prod.ext_iff] using heq

/-- The directory `d'` is `d` without the owners of some sub-blocks of an entry. -/
structure Cleared (d d' : Directory) (set way : ℕ) (P : ℕ → Prop) : Prop where
  inRange : ∀ x y z, d'.inRange x y z = d.inRange x y z
  cleared : ∀ z, P z → d'.getEntry set way z = (d.getEntry set way z).map (·.setOwner none)
  others : ∀ x y z, ¬ (x = set ∧ y = way ∧ P z) → d'.getEntry x y z = d.getEntry x y z

lemma cleared_refl (d : Directory) (set way : ℕ) {P : ℕ → Prop} (hP : ∀ z, ¬ P z) :
    Cleared d d set way P where
  inRange _ _ _ := rfl
  cleared z hz := absurd hz (hP z)
  others _ _ _ _ := rfl

lemma Cleared.trans {d₁ d₂ : Directory} {set way : ℕ} {P Q : ℕ → Prop}
    (h : Cleared d d₁ set way P) (h' : Cleared d₁ d₂ set way Q) :
    Cleared d d₂ set way fun z => P z ∨ Q z where
  inRange x y z := (h'.inRange x y z).trans (h.inRange x y z)
  cleared z hz := by
    by_cases hP : P z
    · by_cases hQ : Q z
      · rw [h'.cleared z hQ, h.cleared z hP, Option.map_map]
        rfl
      · rw [h'.others set way z (by simp [hQ]), h.cleared z hP]
    · rw [h'.cleared z (hz.resolve_left hP), h.others set way z (by simp [hP])]
  others x y z hz := by
    have hP : ¬ (x = set ∧ y = way ∧ P z) := fun hP => hz ⟨hP.1, hP.2.1, .inl hP.2.2⟩
    have hQ : ¬ (x = set ∧ y = way ∧ Q z) := fun hQ => hz ⟨hQ.1, hQ.2.1, .inr hQ.2.2⟩
    rw [h'.others x y z hQ, h.others x y z hP]

lemma Cleared.congr {set way : ℕ} {P Q : ℕ → Prop} (h : Cleared d d' set way P)
    (heq : ∀ z, P z ↔ Q z) : Cleared d d' set way Q where
  inRange := h.inRange
  cleared z hz := h.cleared z ((heq z).mpr hz)
  others x y z hz := h.others x y z fun hP => hz ⟨hP.1, hP.2.1, (heq z).mp hP.2.2⟩

lemma clearOwner_some (h : clearOwner target_module frame d z = some d') :
    (matched target_module frame z → d.inRange frame.set frame.way z) ∧
      Cleared d d' frame.set frame.way fun k => k = z ∧ matched target_module frame k := by
  unfold clearOwner at h
  split_ifs at h with hmatch
  · obtain ⟨e, he, rfl⟩ := Option.map_eq_some_iff.mp h
    obtain ⟨hrange, rfl⟩ := getEntry_eq_some.mp he
    refine ⟨fun _ => hrange, fun _ _ _ => rfl, ?_, ?_⟩
    · rintro k ⟨rfl, -⟩
      rw [getEntry_setEntry hrange, if_pos ⟨rfl, rfl, rfl⟩, he, Option.map_some]
    · intro x y k hk
      rw [getEntry_setEntry hrange, if_neg]
      rintro ⟨rfl, rfl, rfl⟩
      exact hk ⟨rfl, rfl, rfl, hmatch⟩
  · cases h
    refine ⟨fun hcontra => absurd hcontra hmatch, cleared_refl d _ _ ?_⟩
    rintro k ⟨rfl, hk⟩
    exact hmatch hk

lemma clearOwner_isSome (hrange : matched target_module frame z → d.inRange frame.set frame.way z) :
    ∃ d', clearOwner target_module frame d z = some d' := by
  unfold clearOwner
  by_cases hmatch : matched target_module frame z
  · rw [if_pos hmatch, getEntry_eq_some.mpr ⟨hrange hmatch, rfl⟩]
    exact ⟨_, rfl⟩
  · rw [if_neg hmatch]
    exact ⟨d, rfl⟩

lemma loop_some (h : zs.foldlM (clearOwner target_module frame) d = some d') :
    (∀ z ∈ zs, matched target_module frame z → d.inRange frame.set frame.way z) ∧
      Cleared d d' frame.set frame.way fun z => z ∈ zs ∧ matched target_module frame z := by
  induction zs generalizing d with
  | nil =>
    obtain rfl := Option.some.inj h
    refine ⟨fun z hz => absurd hz List.not_mem_nil, cleared_refl d _ _ ?_⟩
    rintro z ⟨hz, -⟩
    cases hz
  | cons z zs ih =>
    rw [List.foldlM_cons] at h
    obtain ⟨d₁, hd₁, h⟩ := Option.bind_eq_some_iff.mp h
    obtain ⟨hrange, hfirst⟩ := clearOwner_some hd₁
    obtain ⟨hranges, hrest⟩ := ih h
    constructor
    · intro k hk hmatch
      obtain rfl | hk := List.mem_cons.mp hk
      · exact hrange hmatch
      · rw [← hfirst.inRange]
        exact hranges k hk hmatch
    · apply (hfirst.trans hrest).congr
      intro k
      rw [List.mem_cons]
      tauto

lemma loop_isSome
    (hrange : ∀ z ∈ zs, matched target_module frame z → d.inRange frame.set frame.way z) :
    ∃ d', zs.foldlM (clearOwner target_module frame) d = some d' := by
  induction zs generalizing d with
  | nil => exact ⟨d, rfl⟩
  | cons z zs ih =>
    obtain ⟨d₁, hd₁⟩ := clearOwner_isSome (hrange z List.mem_cons_self)
    have hrest : ∀ k ∈ zs, matched target_module frame k →
        d₁.inRange frame.set frame.way k := by
      intro k hk hmatch
      rw [(clearOwner_some hd₁).2.inRange]
      exact hrange k (List.mem_cons_of_mem z hk) hmatch
    obtain ⟨d', hd'⟩ := ih hrest
    refine ⟨d', ?_⟩
    rw [List.foldlM_cons, hd₁]
    exact hd'

lemma message_action_eq_some (herror : s.frame.error = false)
    (htype : s.frame.message_type = .MessageClearOwner) :
    message_action s = some s' ↔
      ∃ d' locks, (List.range s.target_module.directory_size).foldlM
          (clearOwner s.target_module s.frame) s.target_module.directory = some d' ∧
        s.locks.UnlockEntry s.frame.set s.frame.way s.frame.id = some locks ∧
        { s with target_module := { s.target_module with directory := d' }, locks := locks } = s' := by
  unfold message_action
  simp only [herror, htype, Bool.false_eq_true, if_false, Option.bind_eq_bind,
    Option.bind_eq_some_iff, Option.some.injEq, exists_and_left]

lemma Locked.inRange (h : Locked s) (z : ℕ) :
    s.target_module.directory.inRange s.frame.set s.frame.way z ↔
      z < s.target_module.num_sub_blocks := by
  obtain ⟨locks, hlocks⟩ := Option.isSome_iff_exists.mp h.unlock
  have hentry : s.locks.inRange s.frame.set s.frame.way = true := by
    by_contra hentry
    unfold DirectoryLocks.UnlockEntry at hlocks
    rw [if_pos (.inl (Bool.not_eq_true _ ▸ hentry))] at hlocks
    cases hlocks
  rw [DirectoryLocks.inRange, Bool.and_eq_true, decide_eq_true_eq, decide_eq_true_eq, h.num_sets,
    h.num_ways] at hentry
  rw [inRange_iff, h.num_sub_blocks]
  exact ⟨fun hz => hz.2.2, fun hz => ⟨hentry.1, hentry.2, hz⟩⟩

lemma Cleared.owners {set way : ℕ} {P : ℕ → Prop} (h : Cleared d d' set way P) :
    OwnersCleared d d' set way P := by
  unfold OwnersCleared ownerOf
  intro x y z
  constructor
  · rintro ⟨rfl, rfl, hz⟩
    rw [h.cleared z hz, Option.map_map, Option.map_map]
    rfl
  · intro hz
    rw [h.others x y z hz]

lemma ownerOf_eq_none (hrange : ¬ d.inRange x y z) : ownerOf d x y z = none := by
  unfold ownerOf getEntry
  rw [if_neg hrange, Option.map_none]

lemma map_none_eq_self {owner : Option (Option ℕ)} :
    owner.map (fun _ => none) = owner ↔ owner = none ∨ owner = some none := by
  cases owner with
  | none => simp
  | some owner => simp [eq_comm]

lemma OwnersCleared.iff {set way : ℕ} {P Q : ℕ → Prop} (h : OwnersCleared d d' set way P) :
    OwnersCleared d d' set way Q ↔
      ∀ z, (P z ↔ Q z) ∨ ownerOf d set way z = none ∨ ownerOf d set way z = some none := by
  constructor
  · intro h' z
    rw [← map_none_eq_self]
    by_cases hP : P z
    · by_cases hQ : Q z
      · exact .inl (iff_of_true hP hQ)
      · rw [← (h set way z).1 ⟨rfl, rfl, hP⟩]
        exact .inr ((h' set way z).2 fun hand => hQ hand.2.2)
    · by_cases hQ : Q z
      · rw [← (h' set way z).1 ⟨rfl, rfl, hQ⟩]
        exact .inr ((h set way z).2 fun hand => hP hand.2.2)
      · exact .inl (iff_of_false hP hQ)
  · intro hagree x y z
    constructor
    · rintro ⟨rfl, rfl, hQ⟩
      obtain hiff | howner := hagree z
      · exact (h x y z).1 ⟨rfl, rfl, hiff.mpr hQ⟩
      · rw [map_none_eq_self.mpr howner]
        by_cases hP : P z
        · rw [(h x y z).1 ⟨rfl, rfl, hP⟩, map_none_eq_self.mpr howner]
        · exact (h x y z).2 fun hand => hP hand.2.2
    · intro hnot
      by_cases hclear : x = set ∧ y = way ∧ P z
      · obtain ⟨rfl, rfl, hP⟩ := hclear
        obtain hiff | howner := hagree z
        · exact absurd ⟨rfl, rfl, hiff.mp hP⟩ hnot
        · rw [(h x y z).1 ⟨rfl, rfl, hP⟩, map_none_eq_self.mpr howner]
      · exact (h x y z).2 hclear

lemma Locked.cleared (h : Locked s) (herror : s.frame.error = false)
    (htype : s.frame.message_type = .MessageClearOwner) :
    (∃ s', message_action s = some s') ↔
      ∀ z, Found s.target_module s.frame z → z < s.target_module.num_sub_blocks := by
  constructor
  · rintro ⟨s', haction⟩ z ⟨hz, hmatch⟩
    obtain ⟨d', locks, hloop, -, -⟩ := (message_action_eq_some herror htype).mp haction
    exact (h.inRange z).mp ((loop_some hloop).1 z (List.mem_range.mpr hz) hmatch)
  · intro hfound
    obtain ⟨locks, hlocks⟩ := Option.isSome_iff_exists.mp h.unlock
    have hall : ∀ z ∈ List.range s.target_module.directory_size,
        matched s.target_module s.frame z →
          s.target_module.directory.inRange s.frame.set s.frame.way z := by
      intro z hz hmatch
      exact (h.inRange z).mpr (hfound z ⟨List.mem_range.mp hz, hmatch⟩)
    obtain ⟨d', hloop⟩ := loop_isSome hall
    exact ⟨_, (message_action_eq_some herror htype).mpr ⟨d', locks, hloop, hlocks, rfl⟩⟩

lemma owners_of_message_action (herror : s.frame.error = false)
    (htype : s.frame.message_type = .MessageClearOwner) (haction : message_action s = some s') :
    OwnersCleared s.target_module.directory s'.target_module.directory s.frame.set s.frame.way
      (Found s.target_module s.frame) := by
  obtain ⟨d', locks, hloop, -, rfl⟩ := (message_action_eq_some herror htype).mp haction
  apply ((loop_some hloop).2.congr _).owners
  intro z
  rw [List.mem_range]
  rfl

lemma Locked.agree_iff (h : Locked s) {P Q : ℕ → Prop} :
    (∀ z, (P z ↔ Q z) ∨
        ownerOf s.target_module.directory s.frame.set s.frame.way z = none ∨
        ownerOf s.target_module.directory s.frame.set s.frame.way z = some none) ↔
      ∀ z < s.target_module.num_sub_blocks, (P z ↔ Q z) ∨
        ownerOf s.target_module.directory s.frame.set s.frame.way z = some none := by
  constructor
  · intro hagree z hz
    obtain hiff | hnone | howner := hagree z
    · exact .inl hiff
    · unfold ownerOf at hnone
      rw [getEntry_eq_some.mpr ⟨(h.inRange z).mpr hz, rfl⟩] at hnone
      cases hnone
    · exact .inr howner
  · intro hagree z
    by_cases hz : z < s.target_module.num_sub_blocks
    · exact (hagree z hz).imp_right .inr
    · exact .inr (.inl (ownerOf_eq_none (mt (h.inRange z).mp hz)))

lemma Locked.clearsCovered (h : Locked s) (herror : s.frame.error = false)
    (htype : s.frame.message_type = .MessageClearOwner)
    (hsize : s.target_module.block_size = module.block_size)
    (hsub : s.target_module.sub_block_size = module.block_size) (hpos : 0 < module.block_size)
    (haddress : s.frame.address = s.frame.tag)
    (hdirectory : s.target_module.directory_size ≤ 2 ^ 32) : ClearsCovered module s := by
  have hone : s.target_module.num_sub_blocks = 1 := by
    unfold Module.num_sub_blocks
    rw [hsize, hsub, Nat.div_self hpos]
  have hfound : ∀ z, Found s.target_module s.frame z ↔ z = 0 := by
    intro z
    unfold Found matched
    rw [decide_eq_true_eq, haddress, hone, mul_one]
    constructor
    · rintro ⟨hz, hmatch⟩
      have hzero : BitVec.ofNat 32 z = 0#32 := by
        rw [← BitVec.add_right_eq_self, ← hmatch]
      have hmod := congrArg BitVec.toNat hzero
      rw [BitVec.toNat_ofNat, Nat.mod_eq_of_lt (hz.trans_le hdirectory)] at hmod
      exact hmod
    · rintro rfl
      obtain ⟨hset, hway, -⟩ := inRange_iff.mp ((h.inRange 0).mpr (by omega))
      refine ⟨Nat.mul_pos (Nat.zero_lt_of_lt hset) (Nat.zero_lt_of_lt hway), ?_⟩
      simp
  obtain ⟨s', haction⟩ := (h.cleared herror htype).mpr fun z hz => by
    rw [hone, (hfound z).mp hz]
    exact Nat.zero_lt_one
  refine ⟨s', haction, (owners_of_message_action herror htype haction).iff.mpr ?_⟩
  rw [h.agree_iff]
  intro z hz
  obtain rfl : z = 0 := by omega
  left
  rw [hfound]
  refine iff_of_true rfl ⟨?_, ?_⟩
  · rw [haddress, zero_mul, add_zero]
  · rw [haddress, zero_mul, add_zero]
    omega

/-- The handler clears what it should exactly when the test finds sub-blocks of the entry only, and
differs from the range of the sender in sub-blocks that have no owner. -/
theorem clearsCovered_iff (hlocked : Locked s) (herror : s.frame.error = false)
    (htype : s.frame.message_type = .MessageClearOwner) :
    ClearsCovered module s ↔
      (∀ z, Found s.target_module s.frame z → z < s.target_module.num_sub_blocks) ∧
      ∀ z < s.target_module.num_sub_blocks,
        (Found s.target_module s.frame z ↔ Covers module s.target_module s.frame z) ∨
        ownerOf s.target_module.directory s.frame.set s.frame.way z = some none := by
  rw [← hlocked.cleared herror htype, ← hlocked.agree_iff]
  constructor
  · rintro ⟨s', haction, howners⟩
    exact ⟨⟨s', haction⟩, (owners_of_message_action herror htype haction).iff.mp howners⟩
  · rintro ⟨⟨s', haction⟩, hagree⟩
    exact ⟨s', haction, (owners_of_message_action herror htype haction).iff.mpr hagree⟩

section Halves

/-- A module with blocks of 128 bytes below one with blocks of 64 bytes, which owns both halves of
block 0. -/
def halves : Module :=
  { block_size := 128
    sub_block_size := 64
    directory := { Directory.new 1 2 2 1 with entries := fun _ => { owner := some 0 } }
    high_nodes := fun _ => 0 }

def upperModule : Module :=
  { block_size := 64, sub_block_size := 64, directory := Directory.new 1 1 1 1
    high_nodes := fun _ => 0 }

/-- The upper module is to be removed as the owner of the sub-block at the address. -/
def clearHalf (address : BitVec 32) : MessageState :=
  { frame := { id := 1, address := address, tag := 0, set := 0, way := 0
               message_type := .MessageClearOwner }
    target_module := halves
    locks := { num_sets := 1, num_ways := 2, access_id := fun _ => 1 } }

theorem clearsCovered_firstHalf : ClearsCovered upperModule (clearHalf 0) := by
  have hlocked : Locked (clearHalf 0) := ⟨rfl, rfl, rfl, rfl⟩
  refine (clearsCovered_iff hlocked rfl rfl).mpr ⟨?_, ?_⟩
  · rintro z ⟨hz, -⟩
    exact hz
  · intro z hz
    left
    revert z
    decide

/-- The owner of the second half stays. -/
theorem not_clearsCovered_secondHalf : ¬ ClearsCovered upperModule (clearHalf 64) := by
  rintro ⟨s', haction, howners⟩
  have hstays : (message_action (clearHalf 64)).map
      (fun s' => ownerOf s'.target_module.directory 0 0 1) = some (some (some 0)) := by rfl
  rw [haction, Option.map_some, Option.some.injEq] at hstays
  have hcovers : Covers upperModule (clearHalf 64).target_module (clearHalf 64).frame 1 := by
    decide
  rw [(howners 0 0 1).1 ⟨rfl, rfl, hcovers⟩] at hstays
  cases hstays

end Halves

end OISA.Memory.MessageState
