import OISA.Proofs.ListSequence
import OISA.Memory.Cache
import OISA.Lib.Lru
import OISA.Lib.Runs

/-!
# Recency lists of a cache
-/

/-!
## Nodes that move to the front

`Erase` leaves the pointers of the node as they are, so a node that is pushed to the front again
may keep a pointer to the node that was before it.
-/

namespace OISA.Cpp.NodeList

open OISA.Lib

variable {s s' : NodeList} {xs : List ℕ} {node : ℕ}

lemma Fronted.forward (h : Fronted s xs) : s.forward = some xs := by
  unfold NodeList.forward NodeList.begin
  rw [h.size, h.head]
  exact h.linked.walk_head

/-- A node that was taken out is pushed to the front, whatever its pointer back is. -/
lemma Fronted.pushFront (h : Fronted s xs) (hnode : node ∉ xs)
    (hnext : xs = [] → (s.nodes node).next = none) :
    ∃ s', s.PushFront node = some (s', some node) ∧ Fronted s' (node :: xs) := by
  have hlist : (s.nodes node).list = false := by
    rw [← Bool.not_eq_true, h.listed]
    exact hnode
  have hne : ∀ x ∈ xs, x ≠ node := fun x hx heq => hnode (heq ▸ hx)
  have hlinks : ∃ s', s.insertLinks s.begin node = some s' ∧ Relinked s s' (node :: xs) := by
    unfold NodeList.insertLinks
    by_cases hsize : s.size = 0
    · rw [if_pos hsize]
      have hxs : xs = [] := List.eq_nil_of_length_eq_zero (h.size ▸ hsize)
      subst hxs
      refine ⟨_, rfl, ?_, rfl, rfl, rfl, fun _ => rfl⟩
      refine h.linked.insertIdx (le_refl 0) hnode (fun x hx => by cases hx)
        (fun x hx => by cases hx) (hnext rfl) ?_
      unfold prevBehind
      rw [if_pos rfl]
      rfl
    · rw [if_neg hsize, if_pos rfl]
      have hlen : 0 < xs.length := by
        rw [← h.size]
        exact Nat.pos_of_ne_zero hsize
      obtain ⟨first, rest, rfl⟩ := List.exists_cons_of_length_pos hlen
      have hhead : s.head = some first := h.head
      have hfirst : node ≠ first := (hne first List.mem_cons_self).symm
      simp only [setNext_head, hhead, Option.bind_eq_bind, Option.bind_some, Option.some.injEq,
        exists_eq_left']
      refine ⟨?_, rfl, ?_, rfl, fun _ => by simp⟩
      · apply h.linked.insertIdx (Nat.zero_le _) hnode
        · intro x hx
          rw [before_zero, if_neg (by simp)]
          simp [hne x hx]
        · intro x hx
          unfold prevBehind
          rw [hhead, if_neg fun heq : some node = some x => hne x hx (Option.some.inj heq).symm,
            setPrev_prev]
          by_cases hxf : x = first
          · subst hxf
            rw [if_pos rfl, if_pos List.getElem?_cons_zero]
          · rw [if_neg hxf, List.getElem?_cons_zero,
              if_neg fun heq : some first = some x => hxf (Option.some.inj heq).symm,
              if_neg fun heq : some first = some x => hxf (Option.some.inj heq).symm, setNext_prev]
        · simp
        · rw [before_zero]
          exact if_pos rfl
      · exact h.tail.trans (by simp [List.getLast?_cons])
  obtain ⟨s', hs', hlinks⟩ := hlinks
  refine ⟨{ s' with size := s'.size + 1 }.setList node true, ?_, ?_⟩
  · rw [NodeList.PushFront, NodeList.Insert, hlist, hs']
    rfl
  · refine ⟨hlinks.linked.congr (fun _ _ => by simp) ?_, hlinks.head, hlinks.tail, ?_, ?_⟩
    · intro x _
      unfold prevBehind
      rw [setList_prev]
      rfl
    · rw [List.length_cons, ← h.size, ← hlinks.size]
      rfl
    · intro n
      rw [List.mem_cons, ← h.listed, ← hlinks.list, setList_list]
      by_cases hn : n = node <;> simp [hn]

lemma Fronted.moveToFront (h : Fronted s xs) (hnode : node ∈ xs) :
    ∃ s₁ after s', s.Erase (some node) = some (s₁, after) ∧
      s₁.PushFront node = some (s', some node) ∧ Fronted s' (node :: xs.erase node) := by
  have hlist : (s.nodes node).list = true := (h.listed node).mpr hnode
  have hlen : 0 < s.size := by
    rw [h.size]
    exact List.length_pos_of_mem hnode
  obtain ⟨s₁, hs₁, hlinks, hnext, -⟩ := h.eraseLinks hnode
  have herased : Fronted { s₁.setList node false with size := s₁.size - 1 } (xs.erase node) := by
    refine ⟨hlinks.linked.congr (fun _ _ => by simp) ?_, hlinks.head, hlinks.tail, ?_, ?_⟩
    · intro x _
      unfold prevBehind
      rw [setList_prev]
      rfl
    · rw [List.length_erase_of_mem hnode, ← h.size, ← hlinks.size]
    · intro n
      rw [h.linked.nodup.mem_erase_iff, ← h.listed, ← hlinks.list, setList_list]
      by_cases hn : n = node <;> simp [hn]
  have hout : node ∉ xs.erase node := h.linked.nodup.not_mem_erase
  have hlast : xs.erase node = [] →
      (({ s₁.setList node false with size := s₁.size - 1 } : NodeList).nodes node).next = none := by
    intro hnil
    have hone : xs.length ≤ 1 := by
      have hlength := List.length_erase_of_mem hnode
      rw [hnil, List.length_nil] at hlength
      omega
    have hend := h.linked.next (xs.idxOf node) node (List.getElem?_idxOf hnode)
    rw [List.getElem?_eq_none (by omega)] at hend
    rw [setList_next, hnext]
    exact hend
  obtain ⟨s', hs', h'⟩ := herased.pushFront hout hlast
  refine ⟨{ s₁.setList node false with size := s₁.size - 1 }, (s.nodes node).next, s', ?_, hs', h'⟩
  unfold NodeList.Erase
  simp only [Option.bind_eq_bind, Option.bind_some, if_pos (And.intro hlen hlist), hs₁,
    setList_next, hnext]
  rfl

end OISA.Cpp.NodeList

/-!
## The order of replacement

The list of a set holds each way once, in every run.
-/

namespace OISA.Memory.Cache

open OISA.Cpp OISA.Lib OISA.Lib.Recency

/-- The uses of the blocks in a run, as (set, way), the last one first. -/
def history (uses : Cache → Op → Option (ℕ × ℕ)) : List Op → Cache → List (ℕ × ℕ)
  | [], _ => []
  | op :: ops, c => (step op c).elim [] (history uses ops) ++ (uses c op).toList

def chosen (c : Cache) : Op → Option (ℕ × ℕ)
  | .replaceBlock set_id random => (c.ReplaceBlock set_id random).map fun r => (set_id, r.2)
  | _ => none

def touched (_ : Cache) : Op → Option (ℕ × ℕ)
  | .accessBlock set_id way_id => some (set_id, way_id)
  | _ => none

/-- The block that is filled: a new tag is set, or an invalid block is accessed first. -/
def filled (c : Cache) : Op → Option (ℕ × ℕ)
  | .setBlock set_id way_id tag _ =>
    if (c.blocks (c.blockIndex set_id way_id)).tag ≠ tag then some (set_id, way_id) else none
  | .accessBlock set_id way_id =>
    if (c.blocks (c.blockIndex set_id way_id)).state = .BlockInvalid then some (set_id, way_id)
    else none
  | .replaceBlock _ _ => none

def accessedOrChosen (c : Cache) (op : Op) : Option (ℕ × ℕ) := c.touched op <|> c.chosen op

def filledOrChosen (c : Cache) (op : Op) : Option (ℕ × ℕ) := c.filled op <|> c.chosen op

/-- The way whose last use in its set is the oldest; of the ways that were never used, the last. -/
def Oldest (log : List (ℕ × ℕ)) (num_ways set_id victim : ℕ) : Prop :=
  victim < num_ways ∧ ∀ way < num_ways, way ≠ victim →
    Older (· < ·) (fun w => lastUse log (set_id, w)) way victim

/-- What an operation asserts: the block is in the cache, and a victim can be chosen. -/
def Op.Asserted (num_sets num_ways : ℕ) (policy : ReplacementPolicy) : Op → Prop
  | .setBlock set_id way_id _ _ | .accessBlock set_id way_id =>
    set_id < num_sets ∧ way_id < num_ways
  | .replaceBlock set_id _ => set_id < num_sets ∧ 0 < num_ways ∧ policy ≠ .ReplacementInvalid

def moved (c : Cache) (op : Op) : Option (ℕ × ℕ) :=
  match c.replacement_policy with
  | .ReplacementLRU => c.accessedOrChosen op
  | .ReplacementFIFO => c.filledOrChosen op
  | _ => none

variable {num_sets num_ways block_size set_id way_id : ℕ} {policy : ReplacementPolicy}
  {c c' c₀ : Cache} {log : List (ℕ × ℕ)} {op : Op} {ops : List Op}

lemma pushBack_fresh {s s' : NodeList} {it : Option ℕ} {xs : List ℕ} {node n : ℕ}
    (h : s.Holds xs) (hpush : s.PushBack node = some (s', it)) (hnode : n ≠ node) (hn : n ∉ xs) :
    s'.nodes n = s.nodes n := by
  unfold NodeList.PushBack NodeList.Insert NodeList.insertLinks at hpush
  split_ifs at hpush with hlist hsize hbegin
  · cases hpush
    exact Function.update_of_ne hnode _ _
  · have hnil : xs = [] := by
      rw [← List.head?_eq_none_iff, ← h.head]
      exact hbegin.symm
    rw [h.size, hnil] at hsize
    exact absurd rfl hsize
  · have htail : (s.setPrev node s.tail).tail = xs.getLast? := h.tail
    simp only [htail] at hpush
    cases hlast : xs.getLast? with
    | none =>
      rw [hlast] at hpush
      cases hpush
    | some last =>
      rw [hlast] at hpush
      cases hpush
      have hne : n ≠ last := fun heq => hn (heq ▸ List.mem_of_getLast? hlast)
      simp [NodeList.setList, NodeList.setNext, NodeList.setPrev, hnode, hne]
  · exact absurd rfl ‹¬_›

lemma holds_initialList (n : ℕ) :
    ∃ s, initialList n = some s ∧ s.Holds (List.range n) ∧ ∀ k, n ≤ k → s.nodes k = {} := by
  induction n with
  | zero => exact ⟨{}, rfl, NodeList.holds_new, fun _ _ => rfl⟩
  | succ n ih =>
    obtain ⟨s, hs, hholds, hfresh⟩ := ih
    have hnode := hfresh n le_rfl
    have hclean : NodeList.CleanAt s s.end n := by
      unfold NodeList.CleanAt
      rw [hnode]
      split_ifs
      · exact ⟨rfl, rfl⟩
      · rfl
      · exact ⟨fun _ => rfl, fun p hp => by cases hp⟩
    obtain ⟨s', hs', hholds'⟩ := hholds.Insert (by rw [hnode]) hclean
    rw [show NodeList.place s.end (List.range n) = (List.range n).length from rfl,
      List.insertIdx_length_self, ← List.range_succ] at hholds'
    refine ⟨s', ?_, hholds', ?_⟩
    · unfold initialList at hs ⊢
      rw [List.range_succ, List.foldlM_append, hs]
      simp [NodeList.PushBack, hs']
    · intro k hk
      rw [pushBack_fresh hholds hs' (by omega) (by simp; omega)]
      exact hfresh k (by omega)

def Ordered (c : Cache) (log : List (ℕ × ℕ)) : Prop :=
  ∀ set_id, ∃ ways, (c.lru_list set_id).Fronted ways ∧ ways.Perm (List.range c.num_ways) ∧
    Recent (· < ·) (fun w => lastUse log (set_id, w)) ways

/-- The geometry does not change, and the lists are in order for the uses with this step. -/
structure Kept (c c' : Cache) (log : List (ℕ × ℕ)) : Prop where
  num_sets : c'.num_sets = c.num_sets
  num_ways : c'.num_ways = c.num_ways
  replacement_policy : c'.replacement_policy = c.replacement_policy
  ordered : Ordered c' log

lemma new_ordered (hnew : Cache.new num_sets num_ways block_size policy = some c) :
    c.num_sets = num_sets ∧ c.num_ways = num_ways ∧ c.replacement_policy = policy ∧
      Ordered c [] := by
  unfold Cache.new at hnew
  split_ifs at hnew
  obtain ⟨list, hlist, rfl⟩ := Option.map_eq_some_iff.mp hnew
  obtain ⟨s, hs, hholds, -⟩ := holds_initialList num_ways
  obtain rfl : s = list := Option.some.inj (hs.symm.trans hlist)
  refine ⟨rfl, rfl, rfl, fun set_id => ⟨_, hholds.fronted, List.Perm.refl _, ?_⟩⟩
  exact recent_of_unused List.pairwise_lt_range fun _ => rfl

lemma Ordered.moveToHead (h : Ordered c log) (set_id : ℕ) (hway : way_id < c.num_ways) :
    ∃ c', c.moveToHead set_id way_id = some c' ∧ Kept c c' ((set_id, way_id) :: log) := by
  obtain ⟨ways, hlist, hperm, hrecent⟩ := h set_id
  have hmem : way_id ∈ ways := hperm.mem_iff.mpr (List.mem_range.mpr hway)
  obtain ⟨s₁, after, s', herase, hpush, hfront⟩ := hlist.moveToFront hmem
  refine ⟨{ c with lru_list := Function.update c.lru_list set_id s' }, ?_, rfl, rfl, rfl, ?_⟩
  · simp [Cache.moveToHead, herase, hpush]
  · intro other
    by_cases hother : other = set_id
    · subst hother
      refine ⟨way_id :: ways.erase way_id, ?_, ?_, ?_⟩
      · rw [← Function.update_self other s' c.lru_list] at hfront
        exact hfront
      · exact (List.perm_cons_erase hmem).symm.trans hperm
      · apply hrecent.touch hlist.linked.nodup
        · intro w _ hw
          exact lastUse_cons_of_ne log fun heq => hw (Prod.mk.inj heq).2
        · intro w _ _
          rw [lastUse_cons_self]
          exact Nat.lt_succ_of_le (lastUse_le log _)
    · obtain ⟨ways', hlist', hperm', hrecent'⟩ := h other
      refine ⟨ways', ?_, hperm', ?_⟩
      · rw [← Function.update_of_ne hother s' c.lru_list] at hlist'
        exact hlist'
      · apply hrecent'.congr
        intro w _
        exact lastUse_cons_of_ne log fun heq => hother (Prod.mk.inj heq).1

lemma Ordered.tail (h : Ordered c log) (htail : (c.lru_list set_id).tail = some way_id) :
    Oldest log c.num_ways set_id way_id := by
  obtain ⟨ways, hlist, hperm, hrecent⟩ := h set_id
  rw [hlist.tail] at htail
  refine ⟨?_, ?_⟩
  · rw [← List.mem_range, ← hperm.mem_iff]
    exact List.mem_of_getLast? htail
  · intro way hway hne
    exact hrecent.older_getLast htail (hperm.mem_iff.mpr (List.mem_range.mpr hway)) hne

lemma Kept.withBlocks (h : Kept c c' log) (blocks : ℕ → Block) :
    Kept c { c' with blocks := blocks } log :=
  ⟨h.num_sets, h.num_ways, h.replacement_policy, h.ordered⟩

lemma Ordered.kept (h : Ordered c log) : Kept c c log := ⟨rfl, rfl, rfl, h⟩

lemma getBlock_eq_some {block : Block} :
    c.getBlock set_id way_id = some block ↔
      (set_id < c.num_sets ∧ way_id < c.num_ways) ∧
        c.blocks (c.blockIndex set_id way_id) = block := by
  unfold Cache.getBlock inRange
  rw [Option.ite_none_right_eq_some, Bool.and_eq_true, decide_eq_true_eq, decide_eq_true_eq,
    Option.some.injEq]

lemma Ordered.setBlock {tag : BitVec 32} {state : BlockState} (h : Ordered c log)
    (hset : set_id < c.num_sets) (hway : way_id < c.num_ways) :
    ∃ c', c.setBlock set_id way_id tag state = some c' ∧
      Kept c c' ((c.moved (.setBlock set_id way_id tag state)).toList ++ log) := by
  have hblock := getBlock_eq_some.mpr ⟨⟨hset, hway⟩, rfl⟩
  unfold Cache.setBlock
  rw [hblock, Option.bind_eq_bind, Option.bind_some]
  by_cases hfifo : c.replacement_policy = .ReplacementFIFO
  · by_cases htag : (c.blocks (c.blockIndex set_id way_id)).tag ≠ tag
    · obtain ⟨c₁, hmove, hkept⟩ := h.moveToHead set_id hway
      rw [if_pos ⟨hfifo, htag⟩, hmove]
      refine ⟨_, rfl, Kept.withBlocks ?_ _⟩
      simpa [moved, hfifo, filledOrChosen, filled, htag] using hkept
    · rw [if_neg fun hand => htag hand.2]
      refine ⟨_, rfl, Kept.withBlocks ?_ _⟩
      simpa [moved, hfifo, filledOrChosen, filled, htag, chosen] using h.kept
  · rw [if_neg fun hand => hfifo hand.1]
    refine ⟨_, rfl, Kept.withBlocks ?_ _⟩
    have hnone : c.moved (.setBlock set_id way_id tag state) = none := by
      unfold moved
      cases hpolicy : c.replacement_policy <;> first | rfl | exact absurd hpolicy hfifo
    rw [hnone]
    exact h.kept

lemma Ordered.accessBlock (h : Ordered c log) (hset : set_id < c.num_sets)
    (hway : way_id < c.num_ways) :
    ∃ c', c.AccessBlock set_id way_id = some c' ∧
      Kept c c' ((c.moved (.accessBlock set_id way_id)).toList ++ log) := by
  have hblock := getBlock_eq_some.mpr ⟨⟨hset, hway⟩, rfl⟩
  obtain ⟨c₁, hmove, hkept⟩ := h.moveToHead set_id hway
  unfold Cache.AccessBlock moved
  rw [hblock, Option.bind_eq_bind, Option.bind_some]
  cases hpolicy : c.replacement_policy with
  | ReplacementLRU => exact ⟨c₁, hmove, hkept⟩
  | ReplacementFIFO =>
    by_cases hstate : (c.blocks (c.blockIndex set_id way_id)).state = .BlockInvalid
    · rw [if_pos (.inr ⟨rfl, hstate⟩)]
      refine ⟨c₁, hmove, ?_⟩
      simpa [filledOrChosen, filled, hstate] using hkept
    · rw [if_neg (by simp [hstate])]
      refine ⟨c, rfl, ?_⟩
      simpa [filledOrChosen, filled, hstate, chosen] using h.kept
  | ReplacementRandom => exact ⟨c, rfl, h.kept⟩
  | ReplacementInvalid => exact ⟨c, rfl, h.kept⟩

lemma Ordered.exists_tail (h : Ordered c log) (set_id : ℕ) (hways : 0 < c.num_ways) :
    ∃ victim, (c.lru_list set_id).tail = some victim := by
  obtain ⟨ways, hlist, hperm, -⟩ := h set_id
  have hnil : ways ≠ [] := by
    rintro rfl
    have hlength := hperm.length_eq
    rw [List.length_range, List.length_nil] at hlength
    omega
  rw [hlist.tail, List.getLast?_eq_some_getLast hnil]
  exact ⟨_, rfl⟩

lemma replaceBlock_eq {random : ℕ} (hset : set_id < c.num_sets)
    (hpolicy : c.replacement_policy = .ReplacementLRU ∨ c.replacement_policy = .ReplacementFIFO) :
    c.ReplaceBlock set_id random = (c.lru_list set_id).tail.bind fun victim =>
      (c.moveToHead set_id victim).map fun c' => (c', victim) := by
  unfold Cache.ReplaceBlock
  rw [if_pos hset]
  obtain hpolicy | hpolicy := hpolicy <;> simp [hpolicy, Option.map_eq_bind]

lemma Ordered.replaceBlock {random : ℕ} (h : Ordered c log) (hset : set_id < c.num_sets)
    (hways : 0 < c.num_ways) (hpolicy : c.replacement_policy ≠ .ReplacementInvalid) :
    ∃ c' victim, c.ReplaceBlock set_id random = some (c', victim) ∧
      Kept c c' ((c.moved (.replaceBlock set_id random)).toList ++ log) := by
  by_cases horder : c.replacement_policy = .ReplacementLRU ∨ c.replacement_policy = .ReplacementFIFO
  · obtain ⟨victim, htail⟩ := h.exists_tail set_id hways
    obtain ⟨c', hmove, hkept⟩ := h.moveToHead set_id (h.tail htail).1
    have hreplace : c.ReplaceBlock set_id random = some (c', victim) := by
      rw [replaceBlock_eq hset horder, htail, Option.bind_some, hmove, Option.map_some]
    refine ⟨c', victim, hreplace, ?_⟩
    have hmoved : c.moved (.replaceBlock set_id random) = some (set_id, victim) := by
      unfold moved
      obtain hpolicy | hpolicy := horder <;>
        simp [hpolicy, accessedOrChosen, filledOrChosen, touched, filled, chosen, hreplace]
    rw [hmoved]
    exact hkept
  · obtain ⟨hlru, hfifo⟩ := not_or.mp horder
    have hrandom : c.replacement_policy = .ReplacementRandom := by
      cases hcase : c.replacement_policy with
      | ReplacementRandom => rfl
      | ReplacementInvalid => exact absurd hcase hpolicy
      | ReplacementLRU => exact absurd hcase hlru
      | ReplacementFIFO => exact absurd hcase hfifo
    refine ⟨c, random % c.num_ways, ?_, ?_⟩
    · unfold Cache.ReplaceBlock
      rw [if_pos hset, hrandom]
      exact if_neg hways.ne'
    · unfold moved
      rw [hrandom]
      exact h.kept

lemma Ordered.step (h : Ordered c log)
    (hassert : op.Asserted c.num_sets c.num_ways c.replacement_policy) :
    ∃ c', Cache.step op c = some c' ∧ Kept c c' ((c.moved op).toList ++ log) := by
  cases op with
  | setBlock set_id way_id tag state => exact h.setBlock hassert.1 hassert.2
  | accessBlock set_id way_id => exact h.accessBlock hassert.1 hassert.2
  | replaceBlock set_id random =>
    obtain ⟨c', victim, hreplace, hkept⟩ := h.replaceBlock hassert.1 hassert.2.1 hassert.2.2
    exact ⟨c', congrArg (Option.map Prod.fst) hreplace, hkept⟩

lemma Ordered.asserted (h : Ordered c log) (hstep : Cache.step op c = some c') :
    op.Asserted c.num_sets c.num_ways c.replacement_policy := by
  cases op with
  | setBlock set_id way_id tag state =>
    obtain ⟨block, hblock, -⟩ := Option.bind_eq_some_iff.mp hstep
    exact (getBlock_eq_some.mp hblock).1
  | accessBlock set_id way_id =>
    obtain ⟨block, hblock, -⟩ := Option.bind_eq_some_iff.mp hstep
    exact (getBlock_eq_some.mp hblock).1
  | replaceBlock set_id random =>
    obtain ⟨⟨c₁, victim⟩, hreplace, -⟩ := Option.map_eq_some_iff.mp hstep
    have hset : set_id < c.num_sets := by
      by_contra hset
      unfold Cache.ReplaceBlock at hreplace
      rw [if_neg hset] at hreplace
      cases hreplace
    by_cases horder :
        c.replacement_policy = .ReplacementLRU ∨ c.replacement_policy = .ReplacementFIFO
    · rw [replaceBlock_eq hset horder] at hreplace
      obtain ⟨last, htail, -⟩ := Option.bind_eq_some_iff.mp hreplace
      refine ⟨hset, (Nat.zero_le last).trans_lt (h.tail htail).1, ?_⟩
      obtain hpolicy | hpolicy := horder <;> simp [hpolicy]
    · unfold Cache.ReplaceBlock at hreplace
      rw [if_pos hset] at hreplace
      cases hpolicy : c.replacement_policy with
      | ReplacementRandom =>
        rw [hpolicy] at hreplace
        dsimp only at hreplace
        rw [Option.ite_none_left_eq_some] at hreplace
        exact ⟨hset, Nat.pos_of_ne_zero hreplace.1, by simp⟩
      | ReplacementInvalid =>
        rw [hpolicy] at hreplace
        cases hreplace
      | ReplacementLRU => exact absurd (.inl hpolicy) horder
      | ReplacementFIFO => exact absurd (.inr hpolicy) horder

lemma Kept.trans {c₁ c₂ : Cache} {log₁ log₂ : List (ℕ × ℕ)} (h : Kept c c₁ log₁)
    (h' : Kept c₁ c₂ log₂) : Kept c c₂ log₂ :=
  ⟨h'.num_sets.trans h.num_sets, h'.num_ways.trans h.num_ways,
    h'.replacement_policy.trans h.replacement_policy, h'.ordered⟩

lemma Ordered.run (h : Ordered c log) (hrun : Lib.run Cache.step ops c = some c') :
    Kept c c' (history moved ops c ++ log) := by
  induction ops generalizing c log with
  | nil =>
    rw [run_nil, Option.some.injEq] at hrun
    subst hrun
    exact h.kept
  | cons op ops ih =>
    rw [run_cons, Option.bind_eq_some_iff] at hrun
    obtain ⟨c₁, hstep, hrun⟩ := hrun
    obtain ⟨c₂, hstep', hkept⟩ := h.step (h.asserted hstep)
    obtain rfl : c₁ = c₂ := Option.some.inj (hstep.symm.trans hstep')
    rw [history, hstep, Option.elim_some, List.append_assoc]
    exact hkept.trans (ih hkept.ordered hrun)

lemma Ordered.history_moved {uses : Cache → Op → Option (ℕ × ℕ)} (h : Ordered c log)
    (hpolicy : c.replacement_policy = policy)
    (huses : ∀ c op, c.replacement_policy = policy → moved c op = uses c op) (ops : List Op) :
    history moved ops c = history uses ops c := by
  induction ops generalizing c log with
  | nil => rfl
  | cons op ops ih =>
    unfold history
    rw [huses c op hpolicy]
    cases hstep : Cache.step op c with
    | none => rfl
    | some c₁ =>
      obtain ⟨c₂, hstep', hkept⟩ := h.step (h.asserted hstep)
      obtain rfl : c₁ = c₂ := Option.some.inj (hstep.symm.trans hstep')
      rw [Option.elim_some, Option.elim_some,
        ih hkept.ordered (hkept.replacement_policy.trans hpolicy)]

/-- In every run each set has all its ways in the list once, the operations abort by their
assertions only, and the victim is the way whose last use is the oldest. -/
theorem run_replaceBlock
    (hnew : Cache.new num_sets num_ways block_size policy = some c₀)
    (hrun : run step ops c₀ = some c) :
    (∀ set_id, ∃ ways, (c.lru_list set_id).forward = some ways ∧
      ways.Perm (List.range num_ways)) ∧
    (∀ op, (step op c).isSome ↔ op.Asserted num_sets num_ways policy) ∧
    ∀ set_id random c' victim, c.ReplaceBlock set_id random = some (c', victim) →
      (policy = .ReplacementLRU →
        Oldest (history accessedOrChosen ops c₀) num_ways set_id victim) ∧
      (policy = .ReplacementFIFO →
        Oldest (history filledOrChosen ops c₀) num_ways set_id victim) := by
  obtain ⟨hsets₀, hways₀, hpolicy₀, hordered₀⟩ := new_ordered hnew
  obtain ⟨hsets, hways, hpolicy, hordered⟩ := hordered₀.run hrun
  rw [hsets₀] at hsets
  rw [hways₀] at hways
  rw [hpolicy₀] at hpolicy
  rw [List.append_nil] at hordered
  refine ⟨?_, ?_, ?_⟩
  · intro set_id
    obtain ⟨ways, hlist, hperm, -⟩ := hordered set_id
    rw [hways] at hperm
    exact ⟨ways, hlist.forward, hperm⟩
  · intro op
    rw [← hsets, ← hways, ← hpolicy, Option.isSome_iff_exists]
    constructor
    · rintro ⟨c', hstep⟩
      exact hordered.asserted hstep
    · intro hassert
      obtain ⟨c', hstep, -⟩ := hordered.step hassert
      exact ⟨c', hstep⟩
  · intro set_id random c' victim hreplace
    have hstep : step (.replaceBlock set_id random) c = some c' :=
      congrArg (Option.map Prod.fst) hreplace
    have hset : set_id < c.num_sets := (hordered.asserted hstep).1
    -- both policies choose the last block of the list
    have holdest : policy = .ReplacementLRU ∨ policy = .ReplacementFIFO →
        Oldest (history moved ops c₀) num_ways set_id victim := by
      intro horder
      rw [← hpolicy] at horder
      rw [replaceBlock_eq hset horder] at hreplace
      obtain ⟨last, htail, hmap⟩ := Option.bind_eq_some_iff.mp hreplace
      obtain ⟨c₁, -, heq⟩ := Option.map_eq_some_iff.mp hmap
      obtain ⟨-, rfl⟩ := Prod.mk.inj heq
      rw [← hways]
      exact hordered.tail htail
    constructor
    · intro hlru
      rw [← hordered₀.history_moved (hpolicy₀.trans hlru)
        (fun c op hpol => by unfold moved; rw [hpol]) ops]
      exact holdest (.inl hlru)
    · intro hfifo
      rw [← hordered₀.history_moved (hpolicy₀.trans hfifo)
        (fun c op hpol => by unfold moved; rw [hpol]) ops]
      exact holdest (.inr hfifo)

/-- Two blocks are filled, and the first one is chosen for replacement. -/
def fillTwo : List Op :=
  [.setBlock 0 0 64 .BlockExclusive, .setBlock 0 1 128 .BlockExclusive, .replaceBlock 0 0]

theorem run_replaceBlock_fillTwo :
    ∃ c₀ c, Cache.new 1 2 64 .ReplacementFIFO = some c₀ ∧ run step fillTwo c₀ = some c ∧
      ∀ set_id random c' victim, c.ReplaceBlock set_id random = some (c', victim) →
        Oldest (history filledOrChosen fillTwo c₀) 2 set_id victim := by
  have hrun : ((Cache.new 1 2 64 .ReplacementFIFO).bind (run step fillTwo)).isSome := by rfl
  obtain ⟨c, hrun⟩ := Option.isSome_iff_exists.mp hrun
  obtain ⟨c₀, hnew, hrun⟩ := Option.bind_eq_some_iff.mp hrun
  refine ⟨c₀, c, hnew, hrun, ?_⟩
  intro set_id random c' victim hreplace
  exact ((run_replaceBlock hnew hrun).2.2 set_id random c' victim hreplace).2 rfl

/-- The block that was chosen is no candidate, though it was filled before the other one. -/
theorem fillTwo_not_oldest :
    ∃ c₀ c c' victim, Cache.new 1 2 64 .ReplacementFIFO = some c₀ ∧
      run step fillTwo c₀ = some c ∧ c.ReplaceBlock 0 0 = some (c', victim) ∧
      ¬ Oldest (history filled fillTwo c₀) 2 0 victim := by
  have hreplace : ((Cache.new 1 2 64 .ReplacementFIFO).bind fun c₀ =>
      (run step fillTwo c₀).bind fun c => (c.ReplaceBlock 0 0).map fun r =>
        (r.2, history filled fillTwo c₀)) = some (1, [(0, 1), (0, 0)]) := by rfl
  obtain ⟨c₀, hnew, hreplace⟩ := Option.bind_eq_some_iff.mp hreplace
  obtain ⟨c, hrun, hreplace⟩ := Option.bind_eq_some_iff.mp hreplace
  obtain ⟨⟨c', victim⟩, hreplace, heq⟩ := Option.map_eq_some_iff.mp hreplace
  obtain ⟨rfl, hlog⟩ := Prod.mk.inj heq
  refine ⟨c₀, c, c', 1, hnew, hrun, hreplace, ?_⟩
  rw [hlog]
  intro holdest
  obtain hlt | hunused := holdest.2 0 (by decide) (by decide)
  · exact absurd hlt (by decide)
  · exact absurd hunused.1 (by decide)

end OISA.Memory.Cache
