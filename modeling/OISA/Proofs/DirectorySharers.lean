import OISA.Lib.Bits
import OISA.Lib.Runs
import OISA.Memory.Directory

/-!
# Sharers of a directory

The bitmap of sharers and the counters of the entries stay in step, and an operation on one
sub-block concerns no other one.
-/

namespace OISA.Memory.Directory

open OISA.Lib

variable {d d' : Directory} {set_id way_id sub_block_id node_id x y z : ℕ} {e : Entry}
  {bits : ℕ → Bool} {op : Op}

section Positions

lemma inRange_iff :
    d.inRange x y z = true ↔ x < d.num_sets ∧ y < d.num_ways ∧ z < d.num_sub_blocks := by
  rw [inRange, Bool.and_eq_true, Bool.and_eq_true, decide_eq_true_iff, decide_eq_true_iff,
    decide_eq_true_iff, and_assoc]

lemma entryIndex_eq : d.entryIndex x y z = (x * d.num_ways + y) * d.num_sub_blocks + z := by
  rw [entryIndex]
  ring

lemma bitIndex_eq (node_id : ℕ) :
    d.bitIndex x y z node_id = d.entryIndex x y z * d.num_nodes + node_id := by
  rw [bitIndex, entryIndex]
  ring

lemma entryIndex_inj {x' y' z' : ℕ} (h : d.inRange x y z) (h' : d.inRange x' y' z')
    (heq : d.entryIndex x y z = d.entryIndex x' y' z') : x = x' ∧ y = y' ∧ z = z' := by
  obtain ⟨-, hy, hz⟩ := inRange_iff.mp h
  obtain ⟨-, hy', hz'⟩ := inRange_iff.mp h'
  rw [entryIndex_eq, entryIndex_eq] at heq
  obtain ⟨hxy, hz⟩ := digits_inj hz hz' heq
  obtain ⟨hx, hy⟩ := digits_inj hy hy' hxy
  exact ⟨hx, hy, hz⟩

end Positions

section Written

lemma getEntry_eq_some : d.getEntry x y z = some e ↔
    d.inRange x y z ∧ d.entries (d.entryIndex x y z) = e := by
  unfold getEntry
  by_cases h : d.inRange x y z <;> simp [h]

lemma isSharer_eq_some {b : Bool} : d.isSharer x y z node_id = some b ↔
    (d.inRange x y z ∧ node_id < d.num_nodes) ∧ d.sharers (d.bitIndex x y z node_id) = b := by
  unfold isSharer
  by_cases h : d.inRange x y z <;> by_cases hn : node_id < d.num_nodes <;> simp [h, hn]

/-- The directory `d'` is `d` with the given entry and bits of one sub-block. -/
structure Written (d d' : Directory) (set_id way_id sub_block_id : ℕ) (entry : Entry)
    (bits : ℕ → Bool) : Prop where
  num_sets : d'.num_sets = d.num_sets
  num_ways : d'.num_ways = d.num_ways
  num_sub_blocks : d'.num_sub_blocks = d.num_sub_blocks
  num_nodes : d'.num_nodes = d.num_nodes
  inRange : d.inRange set_id way_id sub_block_id
  entry : d'.getEntry set_id way_id sub_block_id = some entry
  bits : ∀ n < d.num_nodes, d'.isSharer set_id way_id sub_block_id n = some (bits n)
  getEntry : ∀ x y z, (x, y, z) ≠ (set_id, way_id, sub_block_id) →
    d'.getEntry x y z = d.getEntry x y z
  isSharer : ∀ x y z n, (x, y, z) ≠ (set_id, way_id, sub_block_id) →
    d'.isSharer x y z n = d.isSharer x y z n

/-- The bits of a sub-block. -/
def row (d : Directory) (set_id way_id sub_block_id n : ℕ) : Bool :=
  d.sharers (d.bitIndex set_id way_id sub_block_id n)

lemma written_self (h : d.getEntry set_id way_id sub_block_id = some e) :
    Written d d set_id way_id sub_block_id e (d.row set_id way_id sub_block_id) where
  num_sets := rfl
  num_ways := rfl
  num_sub_blocks := rfl
  num_nodes := rfl
  inRange := (getEntry_eq_some.mp h).1
  entry := h
  bits _ hn := isSharer_eq_some.mpr ⟨⟨(getEntry_eq_some.mp h).1, hn⟩, rfl⟩
  getEntry _ _ _ _ := rfl
  isSharer _ _ _ _ _ := rfl

lemma written_of_eq (hrange : d.inRange set_id way_id sub_block_id) (e : Entry)
    {sharers : ℕ → Bool}
    (hbits : ∀ n < d.num_nodes, sharers (d.bitIndex set_id way_id sub_block_id n) = bits n)
    (hothers : ∀ i, (∀ n < d.num_nodes, i ≠ d.bitIndex set_id way_id sub_block_id n) →
      sharers i = d.sharers i) :
    Written d { d.setEntry set_id way_id sub_block_id e with sharers := sharers }
      set_id way_id sub_block_id e bits where
  num_sets := rfl
  num_ways := rfl
  num_sub_blocks := rfl
  num_nodes := rfl
  inRange := hrange
  entry := getEntry_eq_some.mpr ⟨hrange, Function.update_self _ _ _⟩
  bits n hn := isSharer_eq_some.mpr ⟨⟨hrange, hn⟩, hbits n hn⟩
  getEntry x y z hne := by
    by_cases h : d.inRange x y z
    · have hindex : d.entryIndex x y z ≠ d.entryIndex set_id way_id sub_block_id := by
        intro hcontra
        obtain ⟨rfl, rfl, rfl⟩ := entryIndex_inj h hrange hcontra
        exact hne rfl
      have hentry : Function.update d.entries (d.entryIndex set_id way_id sub_block_id) e
          (d.entryIndex x y z) = d.entries (d.entryIndex x y z) :=
        Function.update_of_ne hindex _ _
      rw [getEntry_eq_some.mpr ⟨h, rfl⟩]
      exact getEntry_eq_some.mpr ⟨h, hentry⟩
    · unfold Directory.getEntry
      rw [if_neg h]
      exact if_neg h
  isSharer x y z n hne := by
    by_cases h : d.inRange x y z ∧ n < d.num_nodes
    · have hbit : sharers (d.bitIndex x y z n) = d.sharers (d.bitIndex x y z n) := by
        apply hothers
        intro k hk hcontra
        rw [bitIndex_eq, bitIndex_eq] at hcontra
        obtain ⟨hindex, -⟩ := digits_inj h.2 hk hcontra
        obtain ⟨rfl, rfl, rfl⟩ := entryIndex_inj h.1 hrange hindex
        exact hne rfl
      rw [isSharer_eq_some.mpr ⟨h, rfl⟩]
      exact isSharer_eq_some.mpr ⟨h, hbit⟩
    · have hnot : ¬ ((d.inRange x y z && decide (n < d.num_nodes)) = true) := by
        rw [Bool.and_eq_true, decide_eq_true_iff]
        exact h
      unfold Directory.isSharer
      rw [if_neg hnot]
      exact if_neg hnot

end Written

section Operations

lemma bitIndex_inj {n k : ℕ} (h : d.bitIndex x y z n = d.bitIndex x y z k) : n = k := by
  rw [bitIndex_eq, bitIndex_eq] at h
  exact Nat.add_left_cancel h

lemma written_bit (hrange : d.inRange set_id way_id sub_block_id) (hnode : node_id < d.num_nodes)
    (e : Entry) (b : Bool) :
    Written d
      { d.setEntry set_id way_id sub_block_id e with
        sharers := Function.update d.sharers (d.bitIndex set_id way_id sub_block_id node_id) b }
      set_id way_id sub_block_id e
      (Function.update (d.row set_id way_id sub_block_id) node_id b) := by
  apply written_of_eq hrange e
  · intro n hn
    by_cases h : n = node_id
    · subst h
      rw [Function.update_self, Function.update_self]
    · rw [Function.update_of_ne h, Function.update_of_ne fun hcontra => h (bitIndex_inj hcontra)]
      rfl
  · intro i hi
    exact Function.update_of_ne (hi node_id hnode) _ _

lemma foldl_clear (n base : ℕ) (sharers : ℕ → Bool) (i : ℕ) :
    (List.range n).foldl (fun sharers i => Function.update sharers (base + i) false) sharers i =
      if base ≤ i ∧ i < base + n then false else sharers i := by
  induction n with
  | zero =>
    rw [if_neg (by omega)]
    rfl
  | succ n ih =>
    rw [List.range_succ, List.foldl_append, List.foldl_cons, List.foldl_nil]
    by_cases h : i = base + n
    · rw [h, Function.update_self, if_pos (by omega)]
    · rw [Function.update_of_ne h, ih]
      by_cases hi : base ≤ i ∧ i < base + n
      · rw [if_pos hi, if_pos (by omega)]
      · rw [if_neg hi, if_neg (by omega)]

/-- What an operation does to the entry and the bits of its sub-block. -/
lemma written_of_step (hstep : step op d = some d') :
    match op with
    | .setOwner s w b owner => ∃ e, d.getEntry s w b = some e ∧
        Written d d' s w b { e with owner := owner } (d.row s w b)
    | .setSharer s w b n => ∃ e, d.getEntry s w b = some e ∧ n < d.num_nodes ∧
        Written d d' s w b
          { e with num_sharers := if d.row s w b n then e.num_sharers else e.num_sharers + 1 }
          (Function.update (d.row s w b) n true)
    | .clearSharer s w b n => ∃ e, d.getEntry s w b = some e ∧ n < d.num_nodes ∧
        Written d d' s w b
          { e with num_sharers := if d.row s w b n then e.num_sharers - 1 else e.num_sharers }
          (Function.update (d.row s w b) n false)
    | .clearAllSharers s w b => ∃ e, d.getEntry s w b = some e ∧
        Written d d' s w b { e with num_sharers := 0 }
          (fun n => if e.num_sharers = 0 then d.row s w b n else false) := by
  cases op with
  | setOwner s w b owner =>
    rw [step, setOwner] at hstep
    split_ifs at hstep with hall
    obtain ⟨e, he, rfl⟩ := Option.map_eq_some_iff.mp hstep
    exact ⟨e, he, written_of_eq (getEntry_eq_some.mp he).1 _ (fun _ _ => rfl) (fun _ _ => rfl)⟩
  | setSharer s w b n =>
    rw [step, setSharer] at hstep
    obtain ⟨is_sharer, hsharer, hstep⟩ := Option.bind_eq_some_iff.mp hstep
    obtain ⟨⟨hrange, hn⟩, rfl⟩ := isSharer_eq_some.mp hsharer
    have hrow : d.sharers (d.bitIndex s w b n) = d.row s w b n := rfl
    rw [hrow] at hstep
    have he := getEntry_eq_some.mpr ⟨hrange, rfl⟩
    refine ⟨_, he, hn, ?_⟩
    split_ifs at hstep with hset
    · obtain rfl := Option.some.inj hstep
      have hself : Function.update (d.row s w b) n true = d.row s w b := by
        rw [← hset, Function.update_eq_self]
      rw [if_pos hset, hself]
      exact written_self he
    · rw [he, Option.bind_some] at hstep
      split_ifs at hstep with hfull
      obtain rfl := Option.some.inj hstep
      rw [if_neg hset]
      exact written_bit hrange hn _ true
  | clearSharer s w b n =>
    rw [step, clearSharer] at hstep
    obtain ⟨is_sharer, hsharer, hstep⟩ := Option.bind_eq_some_iff.mp hstep
    obtain ⟨⟨hrange, hn⟩, rfl⟩ := isSharer_eq_some.mp hsharer
    have hrow : d.sharers (d.bitIndex s w b n) = d.row s w b n := rfl
    rw [hrow] at hstep
    have he := getEntry_eq_some.mpr ⟨hrange, rfl⟩
    refine ⟨_, he, hn, ?_⟩
    split_ifs at hstep with hset
    · obtain rfl := Option.some.inj hstep
      rw [Bool.not_eq_true'] at hset
      have hself : Function.update (d.row s w b) n false = d.row s w b := by
        rw [← hset, Function.update_eq_self]
      rw [hself, hset]
      exact written_self he
    · rw [he, Option.bind_some] at hstep
      split_ifs at hstep with hzero
      obtain rfl := Option.some.inj hstep
      rw [Bool.not_eq_true', Bool.not_eq_false] at hset
      rw [if_pos hset]
      exact written_bit hrange hn _ false
  | clearAllSharers s w b =>
    rw [step, clearAllSharers] at hstep
    obtain ⟨e, he, rfl⟩ := Option.map_eq_some_iff.mp hstep
    refine ⟨e, he, ?_⟩
    by_cases hzero : e.num_sharers = 0
    · rw [if_pos hzero, ← hzero]
      simp only [hzero, if_true]
      rw [← hzero]
      exact written_self he
    · rw [if_neg hzero]
      simp only [hzero, if_false]
      apply written_of_eq (getEntry_eq_some.mp he).1
      · intro n hn
        rw [foldl_clear, if_pos]
        rw [bitIndex_eq, bitIndex_eq]
        omega
      · intro i hi
        rw [foldl_clear, if_neg]
        rintro ⟨hle, hlt⟩
        apply hi (i - d.bitIndex s w b 0) (by omega)
        rw [bitIndex_eq] at hle hlt ⊢
        rw [bitIndex_eq]
        omega

/-- The sub-block that an operation is on. -/
def Op.subBlock : Op → ℕ × ℕ × ℕ
  | .setOwner s w b _ => (s, w, b)
  | .setSharer s w b _ => (s, w, b)
  | .clearSharer s w b _ => (s, w, b)
  | .clearAllSharers s w b => (s, w, b)

/-- Whether an operation is on the given sharer. -/
def Op.onSharer (op : Op) (set_id way_id sub_block_id node_id : ℕ) : Prop :=
  match op with
  | .setOwner _ _ _ _ => False
  | .setSharer s w b n => (set_id, way_id, sub_block_id, node_id) = (s, w, b, n)
  | .clearSharer s w b n => (set_id, way_id, sub_block_id, node_id) = (s, w, b, n)
  | .clearAllSharers s w b => (set_id, way_id, sub_block_id) = (s, w, b)

lemma exists_written (hstep : step op d = some d') :
    ∃ e bits, Written d d' op.subBlock.1 op.subBlock.2.1 op.subBlock.2.2 e bits := by
  have hwritten := written_of_step hstep
  cases op with
  | setOwner s w b owner =>
    obtain ⟨e, -, h⟩ := hwritten
    exact ⟨_, _, h⟩
  | setSharer s w b n =>
    obtain ⟨e, -, -, h⟩ := hwritten
    exact ⟨_, _, h⟩
  | clearSharer s w b n =>
    obtain ⟨e, -, -, h⟩ := hwritten
    exact ⟨_, _, h⟩
  | clearAllSharers s w b =>
    obtain ⟨e, -, h⟩ := hwritten
    exact ⟨_, _, h⟩

lemma isSharer_of_step (hstep : step op d = some d')
    (hother : ¬ op.onSharer x y z node_id) :
    d'.isSharer x y z node_id = d.isSharer x y z node_id := by
  obtain ⟨e, bits, hwritten⟩ := exists_written hstep
  by_cases hne : (x, y, z) = (op.subBlock.1, op.subBlock.2.1, op.subBlock.2.2)
  · by_cases hn : node_id < d.num_nodes
    · have hcases := written_of_step hstep
      cases op with
      | setOwner s w b owner =>
        obtain ⟨rfl, rfl, rfl⟩ : x = s ∧ y = w ∧ z = b := by simpa [Op.subBlock] using hne
        obtain ⟨e, -, h⟩ := hcases
        rw [h.bits node_id hn]
        exact (isSharer_eq_some.mpr ⟨⟨h.inRange, hn⟩, rfl⟩).symm
      | setSharer s w b n =>
        obtain ⟨rfl, rfl, rfl⟩ : x = s ∧ y = w ∧ z = b := by simpa [Op.subBlock] using hne
        obtain ⟨e, -, -, h⟩ := hcases
        have hnode : node_id ≠ n := fun hcontra => hother (by rw [hcontra]; rfl)
        rw [h.bits node_id hn, Function.update_of_ne hnode]
        exact (isSharer_eq_some.mpr ⟨⟨h.inRange, hn⟩, rfl⟩).symm
      | clearSharer s w b n =>
        obtain ⟨rfl, rfl, rfl⟩ : x = s ∧ y = w ∧ z = b := by simpa [Op.subBlock] using hne
        obtain ⟨e, -, -, h⟩ := hcases
        have hnode : node_id ≠ n := fun hcontra => hother (by rw [hcontra]; rfl)
        rw [h.bits node_id hn, Function.update_of_ne hnode]
        exact (isSharer_eq_some.mpr ⟨⟨h.inRange, hn⟩, rfl⟩).symm
      | clearAllSharers s w b => exact absurd hne hother
    · unfold isSharer
      rw [if_neg, if_neg]
      · rw [Bool.and_eq_true, decide_eq_true_iff]
        exact fun hand => hn hand.2
      · rw [Bool.and_eq_true, decide_eq_true_iff, hwritten.num_nodes]
        exact fun hand => hn hand.2
  · exact hwritten.isSharer x y z node_id hne

lemma getEntry_of_step (hstep : step op d = some d') (he : d.getEntry x y z = some e) :
    ∃ e', d'.getEntry x y z = some e' ∧
      ((∀ owner, op ≠ .setOwner x y z owner) → e'.owner = e.owner) ∧
      ((∀ n, ¬ op.onSharer x y z n) → e'.num_sharers = e.num_sharers) := by
  obtain ⟨e₁, bits, hwritten⟩ := exists_written hstep
  by_cases hne : (x, y, z) = (op.subBlock.1, op.subBlock.2.1, op.subBlock.2.2)
  · have hcases := written_of_step hstep
    cases op with
    | setOwner s w b owner =>
      obtain ⟨rfl, rfl, rfl⟩ : x = s ∧ y = w ∧ z = b := by simpa [Op.subBlock] using hne
      obtain ⟨e₂, he₂, h⟩ := hcases
      obtain rfl := Option.some.inj (he.symm.trans he₂)
      exact ⟨_, h.entry, fun hcontra => absurd rfl (hcontra owner), fun _ => rfl⟩
    | setSharer s w b n =>
      obtain ⟨rfl, rfl, rfl⟩ : x = s ∧ y = w ∧ z = b := by simpa [Op.subBlock] using hne
      obtain ⟨e₂, he₂, -, h⟩ := hcases
      obtain rfl := Option.some.inj (he.symm.trans he₂)
      exact ⟨_, h.entry, fun _ => rfl, fun hcontra => absurd rfl (hcontra n)⟩
    | clearSharer s w b n =>
      obtain ⟨rfl, rfl, rfl⟩ : x = s ∧ y = w ∧ z = b := by simpa [Op.subBlock] using hne
      obtain ⟨e₂, he₂, -, h⟩ := hcases
      obtain rfl := Option.some.inj (he.symm.trans he₂)
      exact ⟨_, h.entry, fun _ => rfl, fun hcontra => absurd rfl (hcontra n)⟩
    | clearAllSharers s w b =>
      obtain ⟨rfl, rfl, rfl⟩ : x = s ∧ y = w ∧ z = b := by simpa [Op.subBlock] using hne
      obtain ⟨e₂, he₂, h⟩ := hcases
      obtain rfl := Option.some.inj (he.symm.trans he₂)
      exact ⟨_, h.entry, fun _ => rfl, fun hcontra => absurd rfl (hcontra 0)⟩
  · exact ⟨e, (hwritten.getEntry x y z hne).trans he, fun _ => rfl, fun _ => rfl⟩

end Operations

section Counters

/-- The nodes whose sharer bit is set. -/
def sharerNodes (d : Directory) (set_id way_id sub_block_id : ℕ) : Finset ℕ :=
  (Finset.range d.num_nodes).filter fun n => d.isSharer set_id way_id sub_block_id n = some true

def Counted (d : Directory) : Prop :=
  ∀ s w b e, d.getEntry s w b = some e → e.num_sharers = (d.sharerNodes s w b).card

lemma mem_sharerNodes (h : d.inRange x y z) (hn : node_id < d.num_nodes) :
    node_id ∈ d.sharerNodes x y z ↔ d.row x y z node_id = true := by
  rw [sharerNodes, Finset.mem_filter, Finset.mem_range, isSharer_eq_some]
  exact ⟨fun hmem => hmem.2.2, fun hrow => ⟨hn, ⟨h, hn⟩, hrow⟩⟩

lemma lt_of_mem_sharerNodes (h : node_id ∈ d.sharerNodes x y z) : node_id < d.num_nodes :=
  Finset.mem_range.mp (Finset.mem_filter.mp h).1

lemma Written.sharerNodes (h : Written d d' set_id way_id sub_block_id e bits) :
    d'.sharerNodes set_id way_id sub_block_id =
      (Finset.range d.num_nodes).filter fun n => bits n = true := by
  unfold Directory.sharerNodes
  rw [h.num_nodes]
  apply Finset.filter_congr
  intro n hn
  rw [h.bits n (Finset.mem_range.mp hn), Option.some.injEq]

lemma Written.sharerNodes_of_ne (h : Written d d' set_id way_id sub_block_id e bits)
    (hne : (x, y, z) ≠ (set_id, way_id, sub_block_id)) :
    d'.sharerNodes x y z = d.sharerNodes x y z := by
  unfold Directory.sharerNodes
  rw [h.num_nodes]
  apply Finset.filter_congr
  intro n _
  rw [h.isSharer x y z n hne]

lemma Written.counted (h : Written d d' set_id way_id sub_block_id e bits) (hcounted : Counted d)
    (hcard : e.num_sharers = ((Finset.range d.num_nodes).filter fun n => bits n = true).card) :
    Counted d' := by
  intro s w b e' he'
  by_cases hne : (s, w, b) = (set_id, way_id, sub_block_id)
  · obtain ⟨rfl, rfl, rfl⟩ : s = set_id ∧ w = way_id ∧ b = sub_block_id := by simpa using hne
    rw [h.entry] at he'
    obtain rfl := Option.some.inj he'
    rw [hcard, h.sharerNodes]
  · rw [h.getEntry s w b hne] at he'
    rw [h.sharerNodes_of_ne hne]
    exact hcounted s w b e' he'

lemma filter_row (h : d.inRange x y z) :
    ((Finset.range d.num_nodes).filter fun n => d.row x y z n = true) = d.sharerNodes x y z := by
  apply Finset.ext
  intro n
  rw [Finset.mem_filter, Finset.mem_range]
  constructor
  · rintro ⟨hn, hrow⟩
    exact (mem_sharerNodes h hn).mpr hrow
  · intro hmem
    have hn := lt_of_mem_sharerNodes hmem
    exact ⟨hn, (mem_sharerNodes h hn).mp hmem⟩

lemma filter_set (h : d.inRange x y z) (hn : node_id < d.num_nodes) :
    ((Finset.range d.num_nodes).filter fun n =>
      Function.update (d.row x y z) node_id true n = true) =
        insert node_id (d.sharerNodes x y z) := by
  rw [← filter_row h]
  apply Finset.ext
  intro n
  by_cases heq : n = node_id
  · subst heq
    simp [hn]
  · simp [heq]

lemma filter_clear (h : d.inRange x y z) :
    ((Finset.range d.num_nodes).filter fun n =>
      Function.update (d.row x y z) node_id false n = true) =
        (d.sharerNodes x y z).erase node_id := by
  rw [← filter_row h]
  apply Finset.ext
  intro n
  by_cases heq : n = node_id
  · subst heq
    simp
  · simp [heq]

lemma counted_new (num_sets num_ways num_sub_blocks num_nodes : ℕ) :
    Counted (new num_sets num_ways num_sub_blocks num_nodes) := by
  intro s w b e he
  obtain ⟨hrange, rfl⟩ := getEntry_eq_some.mp he
  have hempty : (new num_sets num_ways num_sub_blocks num_nodes).sharerNodes s w b = ∅ := by
    rw [← filter_row hrange]
    exact Finset.filter_false_of_mem fun _ _ => Bool.false_ne_true
  rw [hempty]
  rfl

lemma Counted.step (h : Counted d) (hstep : step op d = some d') : Counted d' := by
  have hwritten := written_of_step hstep
  cases op with
  | setOwner s w b owner =>
    obtain ⟨e, he, hwritten⟩ := hwritten
    apply hwritten.counted h
    rw [filter_row hwritten.inRange]
    exact h s w b e he
  | setSharer s w b n =>
    obtain ⟨e, he, hn, hwritten⟩ := hwritten
    apply hwritten.counted h
    have hcount := h s w b e he
    have hmem := mem_sharerNodes hwritten.inRange hn
    rw [filter_set hwritten.inRange hn]
    cases hrow : d.row s w b n with
    | true =>
      rw [Finset.insert_eq_of_mem (hmem.mpr hrow)]
      exact hcount
    | false =>
      have hnot : n ∉ d.sharerNodes s w b := by
        rw [hmem, hrow]
        exact Bool.false_ne_true
      rw [Finset.card_insert_of_notMem hnot, ← hcount]
      rfl
  | clearSharer s w b n =>
    obtain ⟨e, he, hn, hwritten⟩ := hwritten
    apply hwritten.counted h
    have hcount := h s w b e he
    have hmem := mem_sharerNodes hwritten.inRange hn
    rw [filter_clear hwritten.inRange]
    cases hrow : d.row s w b n with
    | true =>
      rw [Finset.card_erase_of_mem (hmem.mpr hrow), ← hcount]
      rfl
    | false =>
      have hnot : n ∉ d.sharerNodes s w b := by
        rw [hmem, hrow]
        exact Bool.false_ne_true
      rw [Finset.erase_eq_of_notMem hnot]
      exact hcount
  | clearAllSharers s w b =>
    obtain ⟨e, he, hwritten⟩ := hwritten
    apply hwritten.counted h
    by_cases hzero : e.num_sharers = 0
    · simp only [hzero, if_true]
      rw [filter_row hwritten.inRange, ← h s w b e he, hzero]
    · simp [hzero]

lemma exists_getEntry (h : d.inRange x y z) : ∃ e, d.getEntry x y z = some e :=
  ⟨_, getEntry_eq_some.mpr ⟨h, rfl⟩⟩

/-- Whether the position and the node of an operation exist in the directory. -/
def Op.inRange (d : Directory) : Op → Prop
  | .setOwner s w b owner => d.inRange s w b ∧ ∀ n ∈ owner, n < d.num_nodes
  | .setSharer s w b n => d.inRange s w b ∧ n < d.num_nodes
  | .clearSharer s w b n => d.inRange s w b ∧ n < d.num_nodes
  | .clearAllSharers s w b => d.inRange s w b

/-- No assertion fails on positions of the directory. -/
lemma Counted.step_isSome (h : Counted d) (hop : op.inRange d) : (Directory.step op d).isSome := by
  cases op with
  | setOwner s w b owner =>
    obtain ⟨hrange, hnode⟩ := hop
    obtain ⟨e, he⟩ := exists_getEntry hrange
    have hall : owner.all (· < d.num_nodes) = true := by
      rw [Option.all_eq_true]
      intro n hn
      exact decide_eq_true (hnode n hn)
    rw [Directory.step, setOwner, if_pos hall, Option.isSome_map]
    exact Option.isSome_of_eq_some he
  | setSharer s w b n =>
    obtain ⟨hrange, hnode⟩ := hop
    obtain ⟨e, he⟩ := exists_getEntry hrange
    have hsharer : d.isSharer s w b n = some (d.row s w b n) :=
      isSharer_eq_some.mpr ⟨⟨hrange, hnode⟩, rfl⟩
    rw [Directory.step, setSharer, hsharer, Option.bind_some]
    cases hrow : d.row s w b n with
    | true => rfl
    | false =>
      have hlt : e.num_sharers < d.num_nodes := by
        rw [h s w b e he]
        have hnot : n ∉ d.sharerNodes s w b := by
          rw [mem_sharerNodes hrange hnode, hrow]
          exact Bool.false_ne_true
        have hsub : d.sharerNodes s w b ⊂ Finset.range d.num_nodes := by
          apply (Finset.ssubset_iff_of_subset (Finset.filter_subset _ _)).mpr
          exact ⟨n, Finset.mem_range.mpr hnode, hnot⟩
        simpa using Finset.card_lt_card hsub
      change ((d.getEntry s w b).bind _).isSome
      rw [he, Option.bind_some, if_neg hlt.not_ge]
      rfl
  | clearSharer s w b n =>
    obtain ⟨hrange, hnode⟩ := hop
    obtain ⟨e, he⟩ := exists_getEntry hrange
    have hsharer : d.isSharer s w b n = some (d.row s w b n) :=
      isSharer_eq_some.mpr ⟨⟨hrange, hnode⟩, rfl⟩
    rw [Directory.step, clearSharer, hsharer, Option.bind_some]
    cases hrow : d.row s w b n with
    | false => rfl
    | true =>
      have hpos : e.num_sharers ≠ 0 := by
        rw [h s w b e he]
        exact Finset.card_ne_zero_of_mem ((mem_sharerNodes hrange hnode).mpr hrow)
      change ((d.getEntry s w b).bind _).isSome
      rw [he, Option.bind_some, if_neg hpos]
      rfl
  | clearAllSharers s w b =>
    obtain ⟨e, he⟩ := exists_getEntry hop
    rw [Directory.step, clearAllSharers, Option.isSome_map]
    exact Option.isSome_of_eq_some he

end Counters

section Blocks

lemma foldlM_any {g : ℕ → Option Bool} {p : ℕ → Bool} {ids : List ℕ} {found : Bool}
    (h : ∀ i ∈ ids, g i = some (p i)) :
    ids.foldlM (fun found i => if found then some true else g i) found =
      some (found || ids.any p) := by
  induction ids generalizing found with
  | nil =>
    rw [List.any_nil, Bool.or_false]
    rfl
  | cons i ids ih =>
    have hids : ∀ j ∈ ids, g j = some (p j) := fun j hj => h j (List.mem_cons_of_mem i hj)
    rw [List.foldlM_cons, List.any_cons]
    cases found with
    | true => exact ih hids
    | false =>
      rw [if_neg Bool.false_ne_true, h i List.mem_cons_self, Option.bind_eq_bind, Option.bind_some,
        ih hids, Bool.false_or]

lemma Counted.pos_iff (h : Counted d) (he : d.getEntry x y z = some e) :
    0 < e.num_sharers ↔ ∃ n, d.isSharer x y z n = some true := by
  rw [h x y z e he, Finset.card_pos]
  constructor
  · rintro ⟨n, hn⟩
    exact ⟨n, (Finset.mem_filter.mp hn).2⟩
  · rintro ⟨n, hn⟩
    have hlt := (isSharer_eq_some.mp hn).1.2
    exact ⟨n, Finset.mem_filter.mpr ⟨Finset.mem_range.mpr hlt, hn⟩⟩

lemma Counted.isBlockSharedOrOwned (h : Counted d) (hx : x < d.num_sets) (hy : y < d.num_ways) :
    ∃ r, d.isBlockSharedOrOwned x y = some r ∧ (r = true ↔ ∃ z < d.num_sub_blocks,
      (∃ n, d.isSharer x y z n = some true) ∨
        ∃ e, d.getEntry x y z = some e ∧ e.owner ≠ none) := by
  have hany : d.isBlockSharedOrOwned x y = some (false || (List.range d.num_sub_blocks).any
      fun z => 0 < (d.entries (d.entryIndex x y z)).num_sharers ||
        (d.entries (d.entryIndex x y z)).owner.isSome) := by
    apply foldlM_any
    intro z hz
    have hrange : d.inRange x y z := inRange_iff.mpr ⟨hx, hy, List.mem_range.mp hz⟩
    rw [getEntry_eq_some.mpr ⟨hrange, rfl⟩]
    rfl
  have hentry : ∀ z < d.num_sub_blocks,
      d.getEntry x y z = some (d.entries (d.entryIndex x y z)) := by
    intro z hz
    exact getEntry_eq_some.mpr ⟨inRange_iff.mpr ⟨hx, hy, hz⟩, rfl⟩
  refine ⟨_, hany, ?_⟩
  rw [Bool.false_or, List.any_eq_true]
  constructor
  · rintro ⟨z, hz, hp⟩
    have hlt := List.mem_range.mp hz
    refine ⟨z, hlt, ?_⟩
    rw [Bool.or_eq_true, decide_eq_true_iff, h.pos_iff (hentry z hlt),
      Option.isSome_iff_ne_none] at hp
    exact hp.imp_right fun howner => ⟨_, hentry z hlt, howner⟩
  · rintro ⟨z, hlt, hor⟩
    refine ⟨z, List.mem_range.mpr hlt, ?_⟩
    rw [Bool.or_eq_true, decide_eq_true_iff, h.pos_iff (hentry z hlt), Option.isSome_iff_ne_none]
    apply hor.imp_right
    rintro ⟨e, he, howner⟩
    rw [Option.some.inj ((hentry z hlt).symm.trans he)]
    exact howner

lemma isBlockSharedOrOwned_of_step (hstep : step op d = some d')
    (hne : (x, y) ≠ (op.subBlock.1, op.subBlock.2.1)) :
    d'.isBlockSharedOrOwned x y = d.isBlockSharedOrOwned x y := by
  obtain ⟨e, bits, hwritten⟩ := exists_written hstep
  have hentry : ∀ z, d'.getEntry x y z = d.getEntry x y z := by
    intro z
    apply hwritten.getEntry
    intro hcontra
    apply hne
    simpa using ⟨congrArg Prod.fst hcontra, congrArg (fun t => t.2.1) hcontra⟩
  unfold Directory.isBlockSharedOrOwned
  rw [hwritten.num_sub_blocks]
  simp only [hentry]

end Blocks

/-- After any operations the counters count the sharer bits, `isBlockSharedOrOwned` agrees with the
bits and owners, an operation changes no other answer, and no assertion fails. -/
theorem run_sharers {num_sets num_ways num_sub_blocks num_nodes : ℕ} {ops : List Op}
    (hrun : run step ops (new num_sets num_ways num_sub_blocks num_nodes) = some d) :
    (∀ s w b, s < num_sets → w < num_ways → b < num_sub_blocks →
      ∃ e, d.getEntry s w b = some e ∧ e.num_sharers = (d.sharerNodes s w b).card) ∧
    (∀ s w, s < num_sets → w < num_ways →
      ∃ r, d.isBlockSharedOrOwned s w = some r ∧ (r = true ↔ ∃ b < num_sub_blocks,
        (∃ n, d.isSharer s w b n = some true) ∨
          ∃ e, d.getEntry s w b = some e ∧ e.owner ≠ none)) ∧
    (∀ op d', step op d = some d' →
      (∀ s w b n, ¬ op.onSharer s w b n → d'.isSharer s w b n = d.isSharer s w b n) ∧
      (∀ s w b, (s, w, b) ≠ op.subBlock → d'.getEntry s w b = d.getEntry s w b) ∧
      (∀ s w b e, d.getEntry s w b = some e → ∃ e', d'.getEntry s w b = some e' ∧
        ((∀ owner, op ≠ .setOwner s w b owner) → e'.owner = e.owner) ∧
        ((∀ n, ¬ op.onSharer s w b n) → e'.num_sharers = e.num_sharers)) ∧
      (∀ s w, (s, w) ≠ (op.subBlock.1, op.subBlock.2.1) →
        d'.isBlockSharedOrOwned s w = d.isBlockSharedOrOwned s w)) ∧
    (∀ op : Op, op.inRange d → (step op d).isSome) := by
  let d₀ := new num_sets num_ways num_sub_blocks num_nodes
  have hinv : Counted d ∧ d.num_sets = num_sets ∧ d.num_ways = num_ways ∧
      d.num_sub_blocks = num_sub_blocks := by
    apply run_invariant (P := fun _ _ => True) (Q := fun d => Counted d ∧ d.num_sets = num_sets ∧
      d.num_ways = num_ways ∧ d.num_sub_blocks = num_sub_blocks) _ _
      (along_of_forall (fun _ _ => trivial) ops d₀) hrun
    · rintro op d d' ⟨hcounted, hsets, hways, hsubs⟩ - hstep
      obtain ⟨e, bits, h⟩ := exists_written hstep
      exact ⟨hcounted.step hstep, h.num_sets.trans hsets, h.num_ways.trans hways,
        h.num_sub_blocks.trans hsubs⟩
    · exact ⟨counted_new _ _ _ _, rfl, rfl, rfl⟩
  obtain ⟨hcounted, rfl, rfl, rfl⟩ := hinv
  refine ⟨?_, ?_, ?_, ?_⟩
  · intro s w b hs hw hb
    obtain ⟨e, he⟩ := exists_getEntry (inRange_iff.mpr ⟨hs, hw, hb⟩)
    exact ⟨e, he, hcounted s w b e he⟩
  · intro s w hs hw
    exact hcounted.isBlockSharedOrOwned hs hw
  · intro op d' hstep
    obtain ⟨e, bits, hwritten⟩ := exists_written hstep
    refine ⟨?_, ?_, ?_, ?_⟩
    · intro s w b n hother
      exact isSharer_of_step hstep hother
    · intro s w b hne
      exact hwritten.getEntry s w b hne
    · intro s w b e he
      exact getEntry_of_step hstep he
    · intro s w hne
      exact isBlockSharedOrOwned_of_step hstep hne
  · intro op hop
    exact hcounted.step_isSome hop

theorem run_sharers_twoNodes :
    ∃ d, run step [.setSharer 1 0 0 1, .setSharer 1 0 0 1, .clearSharer 0 0 0 1] (new 2 1 1 2) =
        some d ∧
      ∃ e, d.getEntry 1 0 0 = some e ∧ e.num_sharers = (d.sharerNodes 1 0 0).card := by
  obtain ⟨d, hd⟩ : ∃ d, run step [.setSharer 1 0 0 1, .setSharer 1 0 0 1, .clearSharer 0 0 0 1]
      (new 2 1 1 2) = some d := Option.isSome_iff_exists.mp (by decide +kernel)
  exact ⟨d, hd, (run_sharers hd).1 1 0 0 (by decide) (by decide) (by decide)⟩

end OISA.Memory.Directory
