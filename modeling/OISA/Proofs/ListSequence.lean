import OISA.Cpp.List
import OISA.Lib.Linked
import OISA.Lib.Runs

/-!
# Intrusive lists hold sequences

While every inserted node has null pointers where its place needs them, the links describe a
sequence in both directions.
-/

namespace OISA.Cpp.NodeList

open OISA.Lib

variable {s s' : NodeList} {xs : List ℕ} {node : ℕ} {position : Option ℕ}

section Sequences

def place (position : Option ℕ) (xs : List ℕ) : ℕ :=
  match position with
  | none => xs.length
  | some p => xs.idxOf p

def onSequence : Op → List ℕ → List ℕ
  | .insert position node, xs => xs.insertIdx (place position xs) node
  | .pushBack node, xs => xs ++ [node]
  | .pushFront node, xs => node :: xs
  | .erase node, xs => xs.erase node

def sequence (ops : List Op) : List ℕ := ops.foldl (fun xs op => onSequence op xs) []

/-- The nodes from `begin()` on -/
def forward (s : NodeList) : Option (List ℕ) := walk (fun n => (s.nodes n).next) s.size s.begin

/-- The nodes from the last one back -/
def backward (s : NodeList) : Option (List ℕ) := walk (fun n => (s.nodes n).prev) s.size s.tail

@[reducible] def CleanAt (s : NodeList) (position : Option ℕ) (node : ℕ) : Prop :=
  if s.size = 0 then (s.nodes node).prev = none ∧ (s.nodes node).next = none
  else if position = s.begin then (s.nodes node).prev = none
  else (position = s.end → (s.nodes node).next = none) ∧ ∀ p ∈ position, (s.nodes p).list = true

def Clean : Op → NodeList → Prop
  | .insert position node, s => CleanAt s position node
  | .pushBack node, s => CleanAt s s.end node
  | .pushFront node, s => CleanAt s s.begin node
  | .erase _, _ => True

/-- What the operations assert about the node -/
def Asserted : Op → NodeList → Prop
  | .insert _ node, s | .pushBack node, s | .pushFront node, s => (s.nodes node).list = false
  | .erase node, s => (s.nodes node).list = true

instance : (op : Op) → (s : NodeList) → Decidable (Clean op s)
  | .insert position node, s => inferInstanceAs (Decidable (CleanAt s position node))
  | .pushBack node, s => inferInstanceAs (Decidable (CleanAt s s.end node))
  | .pushFront node, s => inferInstanceAs (Decidable (CleanAt s s.begin node))
  | .erase _, _ => inferInstanceAs (Decidable True)

structure Holds (s : NodeList) (xs : List ℕ) : Prop where
  linked : Linked (fun n => (s.nodes n).next) (fun n => (s.nodes n).prev) xs
  head : s.head = xs.head?
  tail : s.tail = xs.getLast?
  size : s.size = xs.length
  listed : ∀ n, (s.nodes n).list = true ↔ n ∈ xs

end Sequences

section Fields

variable (s : NodeList) (n x : ℕ) (v : Option ℕ) (b : Bool)

@[simp] lemma setNext_next :
    ((s.setNext n v).nodes x).next = if x = n then v else (s.nodes x).next := by
  unfold setNext
  by_cases h : x = n
  · subst h
    simp
  · simp [h]

@[simp] lemma setNext_prev : ((s.setNext n v).nodes x).prev = (s.nodes x).prev := by
  unfold setNext
  by_cases h : x = n
  · subst h
    simp
  · simp [h]

@[simp] lemma setNext_list : ((s.setNext n v).nodes x).list = (s.nodes x).list := by
  unfold setNext
  by_cases h : x = n
  · subst h
    simp
  · simp [h]

@[simp] lemma setPrev_prev :
    ((s.setPrev n v).nodes x).prev = if x = n then v else (s.nodes x).prev := by
  unfold setPrev
  by_cases h : x = n
  · subst h
    simp
  · simp [h]

@[simp] lemma setPrev_next : ((s.setPrev n v).nodes x).next = (s.nodes x).next := by
  unfold setPrev
  by_cases h : x = n
  · subst h
    simp
  · simp [h]

@[simp] lemma setPrev_list : ((s.setPrev n v).nodes x).list = (s.nodes x).list := by
  unfold setPrev
  by_cases h : x = n
  · subst h
    simp
  · simp [h]

@[simp] lemma setList_list :
    ((s.setList n b).nodes x).list = if x = n then b else (s.nodes x).list := by
  unfold setList
  by_cases h : x = n
  · subst h
    simp
  · simp [h]

@[simp] lemma setList_next : ((s.setList n b).nodes x).next = (s.nodes x).next := by
  unfold setList
  by_cases h : x = n
  · subst h
    simp
  · simp [h]

@[simp] lemma setList_prev : ((s.setList n b).nodes x).prev = (s.nodes x).prev := by
  unfold setList
  by_cases h : x = n
  · subst h
    simp
  · simp [h]

@[simp] lemma setNext_head : (s.setNext n v).head = s.head := rfl
@[simp] lemma setNext_tail : (s.setNext n v).tail = s.tail := rfl
@[simp] lemma setNext_size : (s.setNext n v).size = s.size := rfl
@[simp] lemma setPrev_head : (s.setPrev n v).head = s.head := rfl
@[simp] lemma setPrev_tail : (s.setPrev n v).tail = s.tail := rfl
@[simp] lemma setPrev_size : (s.setPrev n v).size = s.size := rfl

end Fields

section Insertion

structure Linking (s s' : NodeList) (xs : List ℕ) : Prop where
  linked : Linked (fun n => (s'.nodes n).next) (fun n => (s'.nodes n).prev) xs
  head : s'.head = xs.head?
  tail : s'.tail = xs.getLast?
  size : s'.size = s.size
  list : ∀ n, (s'.nodes n).list = (s.nodes n).list

lemma Holds.insertLinks (h : Holds s xs) (hnode : node ∉ xs) (hclean : CleanAt s position node) :
    ∃ s', s.insertLinks position node = some s' ∧
      Linking s s' (xs.insertIdx (place position xs) node) := by
  have hne : ∀ x ∈ xs, x ≠ node := fun x hx heq => hnode (heq ▸ hx)
  unfold NodeList.insertLinks
  unfold CleanAt at hclean
  by_cases hsize : s.size = 0
  · rw [if_pos hsize] at hclean ⊢
    have hxs : xs = [] := List.eq_nil_of_length_eq_zero (h.size ▸ hsize)
    subst hxs
    have hplace : place position [] = 0 := by cases position <;> rfl
    rw [hplace]
    refine ⟨_, rfl, ?_, rfl, rfl, rfl, fun _ => rfl⟩
    exact h.linked.insertIdx (le_refl 0) hnode (fun x hx => by cases hx) (fun x hx => by cases hx)
      hclean.2 hclean.1
  · rw [if_neg hsize] at hclean ⊢
    have hlen : 0 < xs.length := by
      rw [← h.size]
      exact Nat.pos_of_ne_zero hsize
    by_cases hbegin : position = s.begin
    · rw [if_pos hbegin] at hclean ⊢
      obtain ⟨first, rest, rfl⟩ := List.exists_cons_of_length_pos hlen
      have hhead : s.head = some first := h.head
      have hplace : place position (first :: rest) = 0 := by
        rw [hbegin, begin, hhead]
        exact List.idxOf_cons_self
      have hfirst : node ≠ first := (hne first List.mem_cons_self).symm
      rw [hplace]
      simp only [setNext_head, hhead, Option.bind_eq_bind, Option.bind_some, Option.some.injEq,
        exists_eq_left']
      refine ⟨?_, rfl, ?_, rfl, fun _ => by simp⟩
      · apply h.linked.insertIdx (Nat.zero_le _) hnode
        · intro x hx
          rw [before_zero, if_neg (by simp)]
          simp [hne x hx]
        · intro x hx
          simp [eq_comm]
        · simp
        · rw [before_zero]
          simpa [hfirst] using hclean
      · exact h.tail.trans (by simp [List.getLast?_cons])
    · rw [if_neg hbegin] at hclean ⊢
      cases position with
      | none =>
        obtain ⟨last, hlast⟩ : ∃ last, xs.getLast? = some last :=
          Option.isSome_iff_exists.mp (by simpa using List.ne_nil_of_length_pos hlen)
        have htail : s.tail = some last := h.tail.trans hlast
        have hmem : last ∈ xs := List.mem_of_getLast? hlast
        have hbefore : before xs xs.length = some last := by
          rw [← hlast, List.getLast?_eq_getElem?]
          exact if_neg (by omega)
        rw [if_pos (show none = s.end from rfl)]
        simp only [setPrev_tail, htail, Option.bind_eq_bind, Option.bind_some, Option.some.injEq,
          exists_eq_left']
        refine ⟨?_, ?_, ?_, rfl, fun _ => by simp⟩
        · apply h.linked.insertIdx (le_refl _) hnode
          · intro x hx
            rw [hbefore]
            simp [eq_comm]
          · intro x hx
            rw [List.getElem?_eq_none (le_refl _), if_neg (by simp)]
            simp [hne x hx]
          · rw [List.getElem?_eq_none (le_refl _)]
            simpa [(hne last hmem).symm] using hclean.1 rfl
          · rw [hbefore]
            simp
        · exact h.head.trans (head?_insertIdx hlen (le_refl _) node).symm
        · rw [place, List.insertIdx_length_self, List.getLast?_concat]
      | some p =>
        have hp : p ∈ xs := (h.listed p).mp (hclean.2 p rfl)
        have hlt : xs.idxOf p < xs.length := List.idxOf_lt_length_of_mem hp
        have hat : xs[xs.idxOf p]? = some p := List.getElem?_idxOf hp
        have hpos : 0 < xs.idxOf p := index_pos hat fun heq => hbegin (heq.trans h.head.symm)
        have hprev : (s.nodes p).prev = xs[xs.idxOf p - 1]? :=
          (h.linked.prev _ p hat).trans (if_neg (by omega))
        obtain ⟨q, hq⟩ : ∃ q, xs[xs.idxOf p - 1]? = some q :=
          ⟨_, List.getElem?_eq_getElem (by omega)⟩
        rw [hq] at hprev
        have hbefore : before xs (xs.idxOf p) = some q := (if_neg (by omega)).trans hq
        have hpn : p ≠ node := hne p hp
        rw [if_neg (show some p ≠ s.end from nofun)]
        simp only [hprev, setPrev_prev, setNext_prev, if_neg hpn.symm, if_true, Option.bind_eq_bind,
          Option.bind_some, Option.some.injEq, exists_eq_left']
        refine ⟨?_, ?_, ?_, rfl, fun _ => by simp⟩
        · apply h.linked.insertIdx hlt.le hnode
          · intro x hx
            rw [hbefore]
            simp [hne x hx, eq_comm]
          · intro x hx
            rw [hat]
            simp [hne x hx, eq_comm]
          · rw [hat]
            simp [(hne q (List.mem_of_getElem? hq)).symm]
          · rw [hbefore]
            simp [hpn.symm]
        · exact h.head.trans (head?_insertIdx hpos hlt.le node).symm
        · exact h.tail.trans (getLast?_insertIdx hlt node).symm

end Insertion

section Removal

def prevBehind (s : NodeList) (n : ℕ) : Option ℕ :=
  if s.head = some n then none else (s.nodes n).prev

/-- The list is this sequence, but for the pointer back of the first node. -/
structure Fronted (s : NodeList) (xs : List ℕ) : Prop where
  linked : Linked (fun n => (s.nodes n).next) s.prevBehind xs
  head : s.head = xs.head?
  tail : s.tail = xs.getLast?
  size : s.size = xs.length
  listed : ∀ n, (s.nodes n).list = true ↔ n ∈ xs

lemma Holds.fronted (h : Holds s xs) : Fronted s xs := by
  refine ⟨h.linked.congr (fun _ _ => rfl) ?_, h.head, h.tail, h.size, h.listed⟩
  intro x hx
  unfold prevBehind
  split_ifs with hhead
  · rw [h.head, List.head?_eq_getElem?] at hhead
    exact (h.linked.prev 0 x hhead).symm
  · rfl

def FirstClean (s : NodeList) : Prop := ∀ x, s.head = some x → (s.nodes x).prev = none

lemma Fronted.prev_of_ne (h : Fronted s xs) {i x : ℕ} (hx : xs[i]? = some x) (hi : 0 < i) :
    (s.nodes x).prev = xs[i - 1]? := by
  have hprev := h.linked.prev i x hx
  have hbefore : before xs i = xs[i - 1]? := if_neg (by omega)
  unfold prevBehind at hprev
  rw [hbefore] at hprev
  split_ifs at hprev with hhead
  · exact absurd (index_eq_zero h.linked.nodup hx (hhead.symm.trans h.head)) hi.ne'
  · exact hprev

/-- What taking a node out, or pushing it to the front, does to the links. -/
structure Relinked (s s' : NodeList) (xs : List ℕ) : Prop where
  linked : Linked (fun n => (s'.nodes n).next) s'.prevBehind xs
  head : s'.head = xs.head?
  tail : s'.tail = xs.getLast?
  size : s'.size = s.size
  list : ∀ n, (s'.nodes n).list = (s.nodes n).list

lemma Fronted.eraseLinks (h : Fronted s xs) (hnode : node ∈ xs) :
    ∃ s', s.eraseLinks node = some s' ∧ Relinked s s' (xs.erase node) ∧
      (s'.nodes node).next = (s.nodes node).next ∧ (s.FirstClean → s'.FirstClean) := by
  rw [List.erase_eq_eraseIdx_of_idxOf rfl]
  have hlt : xs.idxOf node < xs.length := List.idxOf_lt_length_of_mem hnode
  have hat : xs[xs.idxOf node]? = some node := List.getElem?_idxOf hnode
  have hnext : (s.nodes node).next = xs[xs.idxOf node + 1]? := h.linked.next _ _ hat
  generalize xs.idxOf node = i at hlt hat hnext
  unfold NodeList.eraseLinks
  by_cases hsize : s.size = 1
  · rw [if_pos hsize]
    obtain ⟨x, rfl⟩ := List.length_eq_one_iff.mp (h.size.symm.trans hsize)
    obtain rfl : node = x := List.mem_singleton.mp hnode
    obtain rfl : i = 0 := by
      rw [List.length_singleton] at hlt
      omega
    rw [if_pos ⟨h.head, h.tail⟩]
    exact ⟨_, rfl, ⟨linked_nil _ _, rfl, rfl, rfl, fun _ => rfl⟩, rfl, fun _ _ hx => by cases hx⟩
  rw [if_neg hsize]
  have hlen : 1 < xs.length := by
    have hpos := h.size
    omega
  by_cases hhead : some node = s.head
  · -- the second node becomes the first one
    rw [if_pos hhead]
    obtain rfl : i = 0 := index_eq_zero h.linked.nodup hat (hhead.trans h.head)
    obtain ⟨second, hsecond⟩ : ∃ second, xs[0 + 1]? = some second :=
      ⟨_, List.getElem?_eq_getElem hlen⟩
    rw [hsecond] at hnext
    simp only [hnext, setPrev_next, Option.bind_eq_bind, Option.bind_some, Option.some.injEq,
      exists_eq_left']
    refine ⟨⟨?_, ?_, ?_, rfl, fun _ => by simp⟩, by simp, fun _ x hx => ?_⟩
    · apply h.linked.eraseIdx hat
      · intro x hx hne
        rw [before_zero]
        simp
      · intro x hx hne
        rw [before_zero, hsecond]
        unfold prevBehind
        rw [← hhead, if_neg fun heq : some node = some x => hne (Option.some.inj heq).symm]
        by_cases hxs : x = second
        · subst hxs
          rw [if_pos rfl, if_pos rfl]
        · rw [if_neg fun heq : some second = some x => hxs (Option.some.inj heq).symm,
            if_neg fun heq : some second = some x => hxs (Option.some.inj heq).symm, setPrev_prev,
            if_neg hxs]
    · rw [head?_eraseIdx, if_pos rfl, ← hsecond]
    · rw [getLast?_eraseIdx hlt, if_neg (by omega)]
      exact h.tail
    · rw [setPrev_prev, if_pos (Option.some.inj hx).symm]
  rw [if_neg hhead]
  have hpos : 0 < i := index_pos hat fun heq => hhead (heq.trans h.head.symm)
  have hprev := h.prev_of_ne hat hpos
  have hbefore : before xs i = xs[i - 1]? := if_neg (by omega)
  obtain ⟨q, hq⟩ : ∃ q, xs[i - 1]? = some q := ⟨_, List.getElem?_eq_getElem (by omega)⟩
  rw [hq] at hbefore hprev
  have hnq : node ≠ q := by
    rintro rfl
    have hsame := index_unique h.linked.nodup hat hq
    omega
  have hfirst : (xs.eraseIdx i).head? = xs.head? := by
    rw [head?_eraseIdx, if_neg hpos.ne']
  by_cases htail : some node = s.tail
  · rw [if_pos htail]
    have hi := index_succ_eq_length h.linked.nodup hat (htail.trans h.tail)
    simp only [hprev, setNext_prev, Option.bind_eq_bind, Option.bind_some, Option.some.injEq,
      exists_eq_left']
    refine ⟨⟨?_, ?_, ?_, rfl, fun _ => by simp⟩, by simp [hnext, hnq], fun hfirst x hx => ?_⟩
    · apply h.linked.eraseIdx hat
      · intro x hx hne
        rw [hbefore, List.getElem?_eq_none (by omega)]
        simp [eq_comm]
      · intro x hx hne
        rw [List.getElem?_eq_none (by omega), if_neg (by simp)]
        unfold prevBehind
        simp
    · exact h.head.trans hfirst.symm
    · rw [getLast?_eraseIdx hlt, if_pos hi, hbefore]
    · rw [setNext_prev]
      exact hfirst x hx
  · rw [if_neg htail]
    have hi := index_succ_lt_length hat fun heq => htail (heq.trans h.tail.symm)
    obtain ⟨r, hr⟩ : ∃ r, xs[i + 1]? = some r := ⟨_, List.getElem?_eq_getElem hi⟩
    have hrhead : s.head ≠ some r := fun heq =>
      Nat.succ_ne_zero i (index_eq_zero h.linked.nodup hr (heq.symm.trans h.head))
    rw [hr] at hnext
    simp only [hprev, hnext, setNext_next, setNext_prev, if_neg hnq, Option.bind_eq_bind,
      Option.bind_some, Option.some.injEq, exists_eq_left']
    refine ⟨⟨?_, ?_, ?_, rfl, fun _ => by simp⟩, by simp [hnext, hnq], fun hfirst x hx => ?_⟩
    · apply h.linked.eraseIdx hat
      · intro x hx hne
        rw [hbefore, hr]
        simp [eq_comm]
      · intro x hx hne
        rw [hbefore, hr]
        unfold prevBehind
        simp only [setPrev_head, setNext_head, setPrev_prev, setNext_prev]
        by_cases hxr : x = r
        · subst hxr
          rw [if_neg hrhead, if_pos rfl, if_pos rfl]
        · rw [if_neg hxr, if_neg fun heq : some r = some x => hxr (Option.some.inj heq).symm]
    · exact h.head.trans hfirst.symm
    · rw [getLast?_eraseIdx hlt, if_neg (by omega)]
      exact h.tail
    · have hxr : x ≠ r := fun heq => hrhead (heq ▸ hx)
      rw [setPrev_prev, if_neg hxr, setNext_prev]
      exact hfirst x hx

lemma Holds.eraseLinks (h : Holds s xs) (hnode : node ∈ xs) :
    ∃ s', s.eraseLinks node = some s' ∧ Linking s s' (xs.erase node) ∧
      (s'.nodes node).next = (s.nodes node).next := by
  have hclean : s.FirstClean := by
    intro x hx
    rw [h.head, List.head?_eq_getElem?] at hx
    exact h.linked.prev 0 x hx
  obtain ⟨s', hs', hlinks, hnext, hfirst⟩ := h.fronted.eraseLinks hnode
  refine ⟨s', hs', ⟨hlinks.linked.congr (fun _ _ => rfl) ?_, hlinks.head, hlinks.tail,
    hlinks.size, hlinks.list⟩, hnext⟩
  intro x _
  unfold prevBehind
  split_ifs with hhead
  · exact hfirst hclean x hhead
  · rfl

end Removal

section Runs

lemma Holds.Insert (h : Holds s xs) (hnode : (s.nodes node).list = false)
    (hclean : CleanAt s position node) :
    ∃ s', s.Insert position node = some (s', some node) ∧
      Holds s' (xs.insertIdx (place position xs) node) := by
  have hmem : node ∉ xs := by
    rw [← h.listed, hnode]
    decide
  have hplace : place position xs ≤ xs.length := by
    cases position with
    | none => exact le_refl _
    | some p => exact List.idxOf_le_length
  obtain ⟨s', hs', hlinks⟩ := h.insertLinks hmem hclean
  refine ⟨{ s' with size := s'.size + 1 }.setList node true, ?_, ?_⟩
  · rw [NodeList.Insert, hnode, hs']
    rfl
  · refine ⟨by simpa using hlinks.linked, hlinks.head, hlinks.tail, ?_, ?_⟩
    · rw [List.length_insertIdx_of_le_length hplace, ← h.size, ← hlinks.size]
      rfl
    · intro n
      rw [(List.perm_insertIdx node xs hplace).mem_iff, List.mem_cons, ← h.listed, ← hlinks.list,
        setList_list]
      by_cases hn : n = node <;> simp [hn]

lemma Holds.Erase (h : Holds s xs) (hnode : (s.nodes node).list = true) :
    ∃ s', s.Erase (some node) = some (s', (xs.erase node)[xs.idxOf node]?) ∧
      Holds s' (xs.erase node) := by
  have hmem : node ∈ xs := (h.listed node).mp hnode
  have hlen : 0 < s.size := by
    rw [h.size]
    exact List.length_pos_of_mem hmem
  obtain ⟨s', hs', hlinks, hnext⟩ := h.eraseLinks hmem
  have hafter : (s.nodes node).next = (xs.erase node)[xs.idxOf node]? := by
    rw [← List.eraseIdx_idxOf_eq_erase, List.getElem?_eraseIdx, if_neg (lt_irrefl _)]
    exact h.linked.next _ _ (List.getElem?_idxOf hmem)
  refine ⟨{ s'.setList node false with size := s'.size - 1 }, ?_, ?_⟩
  · unfold NodeList.Erase
    simp only [Option.bind_eq_bind, Option.bind_some, if_pos (And.intro hlen hnode), hs',
      setList_next, hnext, hafter]
    rfl
  · refine ⟨by simpa using hlinks.linked, hlinks.head, hlinks.tail, ?_, ?_⟩
    · rw [List.length_erase_of_mem hmem, ← h.size, ← hlinks.size]
    · intro n
      rw [h.linked.nodup.mem_erase_iff, ← h.listed, ← hlinks.list, setList_list]
      by_cases hn : n = node <;> simp [hn]

lemma Holds.perform {op : Op} (h : Holds s xs) (hassert : Asserted op s) (hclean : Clean op s) :
    ∃ s', perform op s = some s' ∧ Holds s' (onSequence op xs) := by
  cases op with
  | insert position node =>
    obtain ⟨s', hs', h'⟩ := h.Insert hassert hclean
    exact ⟨s', by rw [NodeList.perform, hs']; rfl, h'⟩
  | pushBack node =>
    obtain ⟨s', hs', h'⟩ := h.Insert hassert hclean
    rw [show place s.end xs = xs.length from rfl, List.insertIdx_length_self] at h'
    exact ⟨s', by rw [NodeList.perform, PushBack, hs']; rfl, h'⟩
  | pushFront node =>
    obtain ⟨s', hs', h'⟩ := h.Insert hassert hclean
    have hplace : place s.begin xs = 0 := by
      rw [begin, h.head]
      cases xs with
      | nil => rfl
      | cons x xs => exact List.idxOf_cons_self
    rw [hplace, List.insertIdx_zero] at h'
    exact ⟨s', by rw [NodeList.perform, PushFront, hs']; rfl, h'⟩
  | erase node =>
    obtain ⟨s', hs', h'⟩ := h.Erase hassert
    exact ⟨s', by rw [NodeList.perform, hs']; rfl, h'⟩

lemma asserted_of_perform {op : Op} (hstep : perform op s = some s') : Asserted op s := by
  have hinsert : ∀ {position node}, ((s.Insert position node).map (·.1)).isSome →
      (s.nodes node).list = false := by
    intro position node hsome
    rw [NodeList.Insert] at hsome
    by_contra hlist
    rw [if_pos (Bool.not_eq_false _ ▸ hlist)] at hsome
    cases hsome
  cases op with
  | insert position node => exact hinsert (Option.isSome_of_eq_some hstep)
  | pushBack node => exact hinsert (Option.isSome_of_eq_some hstep)
  | pushFront node => exact hinsert (Option.isSome_of_eq_some hstep)
  | erase node =>
    by_contra hlist
    rw [NodeList.perform, NodeList.Erase, Option.bind_eq_bind, Option.bind_some,
      if_neg (fun h => hlist h.2)] at hstep
    cases hstep

lemma holds_new : Holds {} [] := ⟨linked_nil _ _, rfl, rfl, rfl, fun _ => by simp⟩

lemma Holds.of_run {ops : List Op} (h : Holds s xs) (hclean : Along NodeList.perform Clean ops s)
    (hrun : run NodeList.perform ops s = some s') :
    Holds s' (ops.foldl (fun xs op => onSequence op xs) xs) := by
  induction ops generalizing s xs with
  | nil =>
    rw [run_nil, Option.some.injEq] at hrun
    subst hrun
    exact h
  | cons op ops ih =>
    obtain ⟨hop, hrest⟩ := hclean
    rw [run_cons, Option.bind_eq_some_iff] at hrun
    obtain ⟨s₁, hs₁, hrun⟩ := hrun
    obtain ⟨s₂, hs₂, h₂⟩ := h.perform (asserted_of_perform hs₁) hop
    obtain rfl : s₁ = s₂ := Option.some.inj (hs₁.symm.trans hs₂)
    rw [hs₁] at hrest
    exact ih h₂ hrest hrun

/-- In a run that inserts nodes with null pointers where their place needs them, the list holds the
sequence of its operations in both directions, and an operation is aborted by its assertion only. -/
theorem run_nodeList {ops : List Op} (hclean : Along perform Clean ops {})
    (hrun : run perform ops {} = some s) :
    s.forward = some (sequence ops) ∧ s.backward = some (sequence ops).reverse ∧
      s.size = (sequence ops).length ∧
      ∀ op, Asserted op s → Clean op s → (perform op s).isSome := by
  have h : Holds s (sequence ops) := holds_new.of_run hclean hrun
  refine ⟨?_, ?_, h.size, ?_⟩
  · rw [forward, begin, h.head, h.size]
    exact h.linked.walk_head
  · rw [backward, h.tail, h.size]
    exact h.linked.walk_last
  · intro op hassert hop
    obtain ⟨s', hs', -⟩ := h.perform hassert hop
    exact Option.isSome_of_eq_some hs'

end Runs

section Examples

def middleAgain : List Op :=
  [.pushBack 0, .pushBack 1, .pushFront 2, .erase 0, .insert (some 1) 0]

/-- Node 0 is erased at the head and inserted at the end again. -/
def headAgain : List Op := [.pushBack 0, .pushBack 1, .erase 0, .pushBack 0]

theorem run_nodeList_middleAgain :
    ∃ s, run perform middleAgain {} = some s ∧ s.forward = some [2, 0, 1] := by
  have hsome : (run perform middleAgain {}).isSome = true := by decide +kernel
  have hrun := (Option.some_get hsome).symm
  exact ⟨_, hrun, (run_nodeList (by decide +kernel) hrun).1⟩

/-- Iterating never ends after the pointer of the erased head leads back to the other node. -/
theorem headAgain_endless :
    ∃ s, run perform headAgain {} = some s ∧ sequence headAgain = [1, 0] ∧
      ∀ steps, walk (fun n => (s.nodes n).next) steps s.begin = none := by
  have hlinks : (run perform headAgain {}).map
      (fun s => (s.begin, (s.nodes 0).next, (s.nodes 1).next)) = some (some 1, some 1, some 0) := by
    decide +kernel
  obtain ⟨s, hs, hlinks⟩ := Option.map_eq_some_iff.mp hlinks
  obtain ⟨hbegin, h0, h1⟩ : s.begin = some 1 ∧ (s.nodes 0).next = some 1 ∧
      (s.nodes 1).next = some 0 := by
    simpa using hlinks
  refine ⟨s, hs, by decide, ?_⟩
  have hloop : ∀ steps, walk (fun n => (s.nodes n).next) steps (some 0) = none ∧
      walk (fun n => (s.nodes n).next) steps (some 1) = none := by
    intro steps
    induction steps with
    | zero => exact ⟨rfl, rfl⟩
    | succ steps ih => simp [walk, h0, h1, ih]
  intro steps
  rw [hbegin]
  exact (hloop steps).2

end Examples

end OISA.Cpp.NodeList
