import OISA.Lib.Runs
import OISA.Util.Heap

/-!
# The heap is a queue with priorities

The elements that were inserted and not extracted form a queue, the oldest one first.
-/

namespace OISA.Util.heap_t

open OISA.Lib

/-- The inserted elements, the oldest one first -/
abbrev Queue := List (ℤ × ℕ)

section Queues

def First (policy : heap_time_policy_enum) (l : Queue) (e : ℤ × ℕ) (r : Queue) : Prop :=
  match policy with
  | .heap_time_policy_fifo => (∀ x ∈ l, e.1 < x.1) ∧ ∀ x ∈ r, e.1 ≤ x.1
  | .heap_time_policy_lifo => (∀ x ∈ l, e.1 ≤ x.1) ∧ ∀ x ∈ r, e.1 < x.1

/-- The queue after some operations and what its extracts gave, the last one first -/
inductive Serves (policy : heap_time_policy_enum) :
    List Op → Queue → List (Option (ℤ × ℕ)) → Prop
  | new : Serves policy [] [] []
  | insert {ops q log value data} : Serves policy ops q log →
      Serves policy (ops ++ [.insert value data]) (q ++ [(value, data)]) log
  | extract {ops l e r log} : Serves policy ops (l ++ e :: r) log → First policy l e r →
      Serves policy (ops ++ [.extract]) (l ++ r) (some e :: log)
  | empty {ops log} : Serves policy ops [] log → Serves policy (ops ++ [.extract]) [] (none :: log)

inductive Drains (policy : heap_time_policy_enum) : Queue → Queue → Prop
  | nil : Drains policy [] []
  | cons {l e r out} : First policy l e r → Drains policy (l ++ r) out →
      Drains policy (l ++ e :: r) (e :: out)

/-- The elements of a value in the order the policy asks for -/
def inOrder (policy : heap_time_policy_enum) (q : Queue) (value : ℤ) : Queue :=
  match policy with
  | .heap_time_policy_fifo => q.filter (·.1 = value)
  | .heap_time_policy_lifo => (q.filter (·.1 = value)).reverse

variable {policy : heap_time_policy_enum} {q l r out : Queue} {e : ℤ × ℕ}

lemma First.le (h : First policy l e r) {x : ℤ × ℕ} (hx : x ∈ l ++ r) : e.1 ≤ x.1 := by
  cases policy with
  | heap_time_policy_fifo =>
    cases List.mem_append.mp hx with
    | inl hl => exact (h.1 x hl).le
    | inr hr => exact h.2 x hr
  | heap_time_policy_lifo =>
    cases List.mem_append.mp hx with
    | inl hl => exact h.1 x hl
    | inr hr => exact (h.2 x hr).le

lemma First.inOrder (h : First policy l e r) (value : ℤ) :
    inOrder policy (l ++ e :: r) value =
      if e.1 = value then e :: inOrder policy (l ++ r) value
      else inOrder policy (l ++ r) value := by
  have hnone : ∀ xs : Queue, (∀ x ∈ xs, e.1 < x.1) → e.1 = value →
      xs.filter (·.1 = value) = [] := by
    intro xs hxs heq
    rw [List.filter_eq_nil_iff]
    intro x hx
    have := hxs x hx
    simp only [decide_eq_true_eq]
    omega
  cases policy with
  | heap_time_policy_fifo =>
    by_cases heq : e.1 = value
    · simp [heap_t.inOrder, heq, hnone l h.1 heq]
    · simp [heap_t.inOrder, heq]
  | heap_time_policy_lifo =>
    by_cases heq : e.1 = value
    · simp [heap_t.inOrder, heq, hnone r h.2 heq]
    · simp [heap_t.inOrder, heq]

lemma Drains.sorted (h : Drains policy q out) :
    out.Perm q ∧ out.Pairwise (fun x y => x.1 ≤ y.1) ∧
      ∀ value, out.filter (·.1 = value) = inOrder policy q value := by
  induction h with
  | nil => exact ⟨.refl _, .nil, fun value => by cases policy <;> rfl⟩
  | @cons l e r out hfirst _ ih =>
    obtain ⟨hperm, hsorted, hstable⟩ := ih
    refine ⟨(hperm.cons e).trans List.perm_middle.symm, ?_, ?_⟩
    · refine List.pairwise_cons.mpr ⟨?_, hsorted⟩
      intro x hx
      exact hfirst.le (hperm.mem_iff.mp hx)
    · intro value
      rw [hfirst.inOrder, ← hstable, List.filter_cons]
      simp only [decide_eq_true_eq]

end Queues

section Loops

variable {policy : heap_time_policy_enum} {n i : ℕ}

/-- What the heap compares -/
def key (policy : heap_time_policy_enum) (e : heap_elem_t) : ℤ ×ₗ ℤ :=
  toLex (e.value, match policy with
    | .heap_time_policy_fifo => (e.time : ℤ)
    | .heap_time_policy_lifo => -(e.time : ℤ))

lemma less_than_iff (heap : heap_t) (x y : ℕ) : heap_less_than heap x y = true ↔
    key heap.time_policy (heap.elem x) < key heap.time_policy (heap.elem y) := by
  cases hpolicy : heap.time_policy with
  | heap_time_policy_fifo =>
    simp only [heap_less_than, key, hpolicy, Prod.Lex.toLex_lt_toLex]
    split_ifs <;> simp <;> omega
  | heap_time_policy_lifo =>
    simp only [heap_less_than, key, hpolicy, Prod.Lex.toLex_lt_toLex, reduceCtorEq, if_false]
    split_ifs <;> simp <;> omega

lemma siftUp_spec (steps : ℕ) (heap : heap_t) (i : ℕ) (hsteps : i ≤ steps) (hi : i < n)
    (h : OrderedUp (key heap.time_policy ∘ heap.elem) n i) :
    ∃ elem, siftUp steps heap i = { heap with elem := elem } ∧
      Ordered (key heap.time_policy ∘ elem) n ∧
      ((List.range n).map elem).Perm ((List.range n).map heap.elem) := by
  induction steps generalizing heap i with
  | zero => exact ⟨heap.elem, rfl, h.done (Or.inl (by omega)), .refl _⟩
  | succ steps ih =>
    rw [siftUp]
    by_cases hless : (0 < i && heap_less_than heap i (PARENT i)) = true
    · rw [if_pos hless]
      rw [Bool.and_eq_true, decide_eq_true_eq, less_than_iff] at hless
      have hparent := parent_lt hless.1
      have hswap := h.swap hless.1 hi hless.2
      rw [← comp_swapAt] at hswap
      obtain ⟨elem, heq, hordered, hperm⟩ :=
        ih { heap with elem := swapAt heap.elem i (PARENT i) } (PARENT i)
          (by unfold PARENT; omega) (hparent.trans hi) hswap
      exact ⟨elem, heq, hordered, hperm.trans (perm_swapAt _ hi (hparent.trans hi))⟩
    · rw [if_neg hless]
      refine ⟨heap.elem, rfl, h.done ?_, .refl _⟩
      rw [Bool.and_eq_true, decide_eq_true_eq, less_than_iff, not_and, not_lt] at hless
      by_cases hzero : i = 0
      · exact Or.inl hzero
      · exact Or.inr (hless (Nat.pos_of_ne_zero hzero))

def least (heap : heap_t) (i : ℕ) : ℕ :=
  let k := if LEFT i < heap.count && heap_less_than heap (LEFT i) i then LEFT i else i
  if RIGHT i < heap.count && heap_less_than heap (RIGHT i) k then RIGHT i else k

lemma child_cases {c : ℕ} (hc : 0 < c) (hparent : parent c = i) : c = LEFT i ∨ c = RIGHT i := by
  unfold parent at hparent
  unfold LEFT RIGHT
  omega

lemma parent_left (i : ℕ) : parent (LEFT i) = i := by
  unfold parent LEFT
  omega

lemma parent_right (i : ℕ) : parent (RIGHT i) = i := by
  unfold parent RIGHT
  omega

lemma least_cases (heap : heap_t) (i : ℕ) :
    (∀ c, 0 < c → c < heap.count → parent c = i →
      key heap.time_policy (heap.elem (least heap i)) ≤ key heap.time_policy (heap.elem c)) ∧
    (least heap i = i ∨ 0 < least heap i ∧ least heap i < heap.count ∧ parent (least heap i) = i ∧
      key heap.time_policy (heap.elem (least heap i)) < key heap.time_policy (heap.elem i)) := by
  unfold least
  simp only [Bool.and_eq_true, decide_eq_true_eq, less_than_iff]
  have hleft : 0 < LEFT i := Nat.succ_pos _
  have hright : 0 < RIGHT i := Nat.succ_pos _
  -- Which of the two children exist and are below the node decides.
  by_cases hl : LEFT i < heap.count ∧
      key heap.time_policy (heap.elem (LEFT i)) < key heap.time_policy (heap.elem i)
  · rw [if_pos hl]
    by_cases hr : RIGHT i < heap.count ∧
        key heap.time_policy (heap.elem (RIGHT i)) < key heap.time_policy (heap.elem (LEFT i))
    · rw [if_pos hr]
      refine ⟨?_, Or.inr ⟨hright, hr.1, parent_right i, hr.2.trans hl.2⟩⟩
      intro c hc _ hparent
      cases child_cases hc hparent with
      | inl h => exact h ▸ hr.2.le
      | inr h => exact h ▸ le_refl _
    · rw [if_neg hr]
      refine ⟨?_, Or.inr ⟨hleft, hl.1, parent_left i, hl.2⟩⟩
      intro c hc hcn hparent
      cases child_cases hc hparent with
      | inl h => exact h ▸ le_refl _
      | inr h =>
        subst h
        exact not_lt.mp (fun hlt => hr ⟨hcn, hlt⟩)
  · rw [if_neg hl]
    have hnotleft : LEFT i < heap.count →
        key heap.time_policy (heap.elem i) ≤ key heap.time_policy (heap.elem (LEFT i)) :=
      fun hn => not_lt.mp (fun hlt => hl ⟨hn, hlt⟩)
    by_cases hr : RIGHT i < heap.count ∧
        key heap.time_policy (heap.elem (RIGHT i)) < key heap.time_policy (heap.elem i)
    · rw [if_pos hr]
      refine ⟨?_, Or.inr ⟨hright, hr.1, parent_right i, hr.2⟩⟩
      intro c hc hcn hparent
      cases child_cases hc hparent with
      | inl h =>
        subst h
        exact hr.2.le.trans (hnotleft hcn)
      | inr h => exact h ▸ le_refl _
    · rw [if_neg hr]
      refine ⟨?_, Or.inl rfl⟩
      intro c hc hcn hparent
      cases child_cases hc hparent with
      | inl h =>
        subst h
        exact hnotleft hcn
      | inr h =>
        subst h
        exact not_lt.mp (fun hlt => hr ⟨hcn, hlt⟩)

lemma heapify_succ (steps : ℕ) (heap : heap_t) (i : ℕ) : heapify (steps + 1) heap i =
    if least heap i = i then heap
    else heapify steps { heap with elem := swapAt heap.elem i (least heap i) } (least heap i) := rfl

lemma heapify_spec (steps : ℕ) (heap : heap_t) (i : ℕ) (hsteps : heap.count ≤ i + steps)
    (h : OrderedDown (key heap.time_policy ∘ heap.elem) heap.count i) :
    ∃ elem, heapify steps heap i = { heap with elem := elem } ∧
      Ordered (key heap.time_policy ∘ elem) heap.count ∧
      ((List.range heap.count).map elem).Perm ((List.range heap.count).map heap.elem) := by
  induction steps generalizing heap i with
  | zero =>
    refine ⟨heap.elem, rfl, h.done ?_, .refl _⟩
    intro c hc hcn hparent
    have := parent_lt hc
    omega
  | succ steps ih =>
    rw [heapify_succ]
    obtain ⟨hleast, hcases⟩ := least_cases heap i
    by_cases hi : least heap i = i
    · rw [if_pos hi]
      rw [hi] at hleast
      exact ⟨heap.elem, rfl, h.done hleast, .refl _⟩
    · rw [if_neg hi]
      obtain ⟨hpos, hlt, hparent, hless⟩ := hcases.resolve_left hi
      have hik : i < least heap i := by
        have := parent_lt hpos
        omega
      have hswap := h.swap hpos hlt hparent hless hleast
      rw [← comp_swapAt] at hswap
      obtain ⟨elem, heq, hordered, hperm⟩ :=
        ih { heap with elem := swapAt heap.elem i (least heap i) } (least heap i)
          (by simp only; omega) hswap
      exact ⟨elem, heq, hordered, hperm.trans (perm_swapAt _ (hik.trans hlt) hlt)⟩

end Loops

section Heaps

variable {policy : heap_time_policy_enum} {heap heap' : heap_t} {q : Queue}

structure Holds (policy : heap_time_policy_enum) (heap : heap_t) (q : Queue) : Prop where
  policy : heap.time_policy = policy
  room : heap.count ≤ heap.size
  pos : 0 < heap.size
  ordered : Ordered (key heap.time_policy ∘ heap.elem) heap.count
  queue : ∃ tagged : List heap_elem_t, tagged.map (fun e => (e.value, e.data)) = q ∧
    ((List.range heap.count).map heap.elem).Perm tagged ∧
    tagged.Pairwise (fun x y => x.time < y.time) ∧ ∀ e ∈ tagged, e.time < heap.time

lemma Holds.count (h : Holds policy heap q) : heap.count = q.length := by
  obtain ⟨tagged, rfl, hperm, -⟩ := h.queue
  rw [List.length_map, ← hperm.length_eq, List.length_map, List.length_range]

lemma holds_new (policy : heap_time_policy_enum) (size : ℕ) :
    Holds policy (heap_time_policy (heap_create size) policy) [] where
  policy := rfl
  room := Nat.zero_le _
  pos := by
    unfold heap_time_policy heap_create
    simp only
    split_ifs <;> omega
  ordered j _ hj := absurd hj (Nat.not_lt_zero j)
  queue := ⟨[], rfl, .nil, .nil, fun e he => by cases he⟩

lemma Holds.grow (h : Holds policy heap q) (hgrow : heap_grow heap = some heap') :
    Holds policy heap' q ∧ heap.count < heap'.size ∧ heap'.count = heap.count := by
  have hroom := h.room
  have hpos := h.pos
  unfold heap_grow at hgrow
  dsimp only at hgrow
  split_ifs at hgrow
  obtain rfl := Option.some.inj hgrow
  exact ⟨⟨h.policy, by simp only; omega, by simp only; omega, h.ordered, h.queue⟩,
    by simp only; omega, rfl⟩

/-- An inserted element is the youngest one of the queue. -/
lemma Holds.insertElem (h : Holds policy heap q) (hroom : heap.count < heap.size) {value : ℤ}
    {data : ℕ} (hinsert : insertElem heap value data = some heap') :
    Holds policy heap' (q ++ [(value, data)]) := by
  unfold Util.insertElem at hinsert
  split_ifs at hinsert
  let start : heap_t := { heap with
    elem := Function.update heap.elem heap.count ⟨heap.time, value, data⟩
    time := heap.time + 1 }
  have hlast : start.elem heap.count = ⟨heap.time, value, data⟩ := Function.update_self ..
  have hbefore : ∀ k < heap.count, start.elem k = heap.elem k := fun k hk =>
    Function.update_of_ne hk.ne _ _
  have hup : OrderedUp (key start.time_policy ∘ start.elem) (heap.count + 1) heap.count := by
    constructor
    · intro j hj hjn hne
      have hparent := parent_lt hj
      rw [Function.comp_apply, Function.comp_apply, hbefore j (by omega),
        hbefore (parent j) (by omega)]
      exact h.ordered j hj (by omega)
    · intro _ c hc hcn hparent
      have := parent_lt hc
      omega
  obtain ⟨elem, heq, hordered, hperm⟩ :=
    siftUp_spec heap.count start heap.count (le_refl _) (Nat.lt_succ_self _) hup
  obtain ⟨tagged, rfl, hold, htimes, hbelow⟩ := h.queue
  obtain rfl : { start with
    elem := elem
    count := heap.count + 1
    error := 0 } = heap' := by
      have := Option.some.inj hinsert
      rw [show siftUp heap.count _ heap.count = _ from heq] at this
      exact this
  have hmap : (List.range (heap.count + 1)).map start.elem =
      (List.range heap.count).map heap.elem ++ [⟨heap.time, value, data⟩] := by
    rw [List.range_succ, List.map_append, List.map_singleton, hlast]
    congr 1
    exact List.map_congr_left fun k hk => hbefore k (List.mem_range.mp hk)
  refine ⟨h.policy, hroom, h.pos, hordered, tagged ++ [⟨heap.time, value, data⟩], ?_, ?_, ?_, ?_⟩
  · rw [List.map_append]
    rfl
  · rw [hmap] at hperm
    exact hperm.trans (hold.append_right _)
  · rw [List.pairwise_append]
    refine ⟨htimes, List.pairwise_singleton _ _, ?_⟩
    intro x hx y hy
    rw [List.mem_singleton.mp hy]
    exact hbelow x hx
  · intro e he
    cases List.mem_append.mp he with
    | inl hmem => exact (hbelow e hmem).trans (Nat.lt_succ_self _)
    | inr hmem =>
      rw [List.mem_singleton.mp hmem]
      exact Nat.lt_succ_self _

lemma Holds.insert (h : Holds policy heap q) {value : ℤ} {data : ℕ}
    (hinsert : heap_insert heap value data = some heap') :
    Holds policy heap' (q ++ [(value, data)]) := by
  rw [heap_insert] at hinsert
  by_cases hfull : heap.count = heap.size
  · rw [if_pos hfull, Option.bind_eq_some_iff] at hinsert
    obtain ⟨grown, hgrow, hinsert⟩ := hinsert
    obtain ⟨h', hroom, hcount⟩ := h.grow hgrow
    exact h'.insertElem (hcount ▸ hroom) hinsert
  · rw [if_neg hfull] at hinsert
    exact h.insertElem (lt_of_le_of_ne h.room hfull) hinsert

lemma perm_root (f : ℕ → heap_elem_t) (n : ℕ) : ((List.range (n + 1)).map f).Perm
    (f 0 :: (List.range n).map (Function.update f 0 (f n))) := by
  have hswap := perm_swapAt f (Nat.succ_pos n) (Nat.lt_succ_self n)
  have hmap : (List.range (n + 1)).map (swapAt f 0 n) =
      (List.range n).map (Function.update f 0 (f n)) ++ [f 0] := by
    rw [List.range_succ, List.map_append, List.map_singleton, swapAt_right]
    congr 1
    apply List.map_congr_left
    intro k hk
    exact Function.update_of_ne (List.mem_range.mp hk).ne _ _
  rw [hmap] at hswap
  exact hswap.symm.trans (List.perm_append_singleton _ _)

lemma first_of_le {l r : List heap_elem_t} {e : heap_elem_t}
    (htimes : (l ++ e :: r).Pairwise (fun x y => x.time < y.time))
    (hle : ∀ x ∈ l ++ r, key policy e ≤ key policy x) :
    First policy (l.map fun e => (e.value, e.data)) (e.value, e.data)
      (r.map fun e => (e.value, e.data)) := by
  rw [List.pairwise_append] at htimes
  obtain ⟨-, hr, hl⟩ := htimes
  have hl : ∀ x ∈ l, x.time < e.time := fun x hx => hl x hx e List.mem_cons_self
  have hr : ∀ x ∈ r, e.time < x.time := (List.pairwise_cons.mp hr).1
  have hforall : ∀ {xs : List heap_elem_t} {P : ℤ × ℕ → Prop}, (∀ x ∈ xs, P (x.value, x.data)) →
      ∀ x ∈ xs.map (fun e => (e.value, e.data)), P x := by
    intro xs P h x hx
    obtain ⟨y, hy, rfl⟩ := List.mem_map.mp hx
    exact h y hy
  have hkey := fun x hx => Prod.Lex.toLex_le_toLex.mp (hle x hx)
  cases policy with
  | heap_time_policy_fifo =>
    refine ⟨hforall fun x hx => ?_, hforall fun x hx => ?_⟩
    · have := hkey x (List.mem_append_left _ hx)
      have := hl x hx
      simp only at *
      omega
    · have := hkey x (List.mem_append_right _ hx)
      simp only at *
      omega
  | heap_time_policy_lifo =>
    refine ⟨hforall fun x hx => ?_, hforall fun x hx => ?_⟩
    · have := hkey x (List.mem_append_left _ hx)
      simp only at *
      omega
    · have := hkey x (List.mem_append_right _ hx)
      have := hr x hx
      simp only at *
      omega

lemma Holds.extract (h : Holds policy heap q) (hcount : heap.count ≠ 0) :
    ∃ l e r heap', q = l ++ e :: r ∧ First policy l e r ∧ heap_extract heap = (heap', e) ∧
      heap'.error = 0 ∧ Holds policy heap' (l ++ r) := by
  obtain ⟨n, hn⟩ := Nat.exists_eq_succ_of_ne_zero hcount
  obtain ⟨tagged, rfl, hperm, htimes, hbelow⟩ := h.queue
  have hroot : heap.elem 0 ∈ tagged := by
    rw [← hperm.mem_iff, hn]
    exact List.mem_map_of_mem (List.mem_range.mpr (Nat.succ_pos n))
  have hleast : ∀ x ∈ tagged, key policy (heap.elem 0) ≤ key policy x := by
    intro x hx
    rw [← hperm.mem_iff] at hx
    obtain ⟨i, hi, rfl⟩ := List.mem_map.mp hx
    have := h.ordered.root_le (List.mem_range.mp hi)
    rwa [h.policy] at this
  obtain ⟨l, r, rfl⟩ := List.append_of_mem hroot
  let start : heap_t := { heap with
    error := 0
    count := n
    elem := Function.update heap.elem 0 (heap.elem n) }
  have hdown : OrderedDown (key start.time_policy ∘ start.elem) n 0 := by
    constructor
    · intro j hj hjn hne
      rw [Function.comp_apply, Function.comp_apply, show start.elem j = heap.elem j from
        Function.update_of_ne hj.ne' _ _, show start.elem (parent j) = heap.elem (parent j) from
        Function.update_of_ne hne _ _]
      exact h.ordered j hj (by omega)
    · intro hzero
      omega
  obtain ⟨elem, heq, hordered, hperm'⟩ := heapify_spec n start 0 (by simp [start]) hdown
  have hrest : ((List.range n).map start.elem).Perm (l ++ r) := by
    rw [hn] at hperm
    have := (perm_root heap.elem n).symm.trans (hperm.trans List.perm_middle)
    exact this.cons_inv
  have hsublist : (l ++ r).Sublist (l ++ heap.elem 0 :: r) :=
    (List.sublist_cons_self _ r).append_left l
  refine ⟨l.map _, _, r.map _, { start with elem := elem }, by rw [List.map_append, List.map_cons],
    first_of_le htimes fun x hx => hleast x (hsublist.mem hx), ?_, rfl, h.policy, ?_, h.pos,
    hordered, l ++ r, List.map_append, hperm'.trans hrest, htimes.sublist hsublist,
    fun e he => hbelow e (hsublist.mem he)⟩
  · rw [heap_extract, heap_peek, if_neg hcount]
    simp only [ne_eq, not_true_eq_false, if_false, hn, Nat.succ_eq_add_one, Nat.add_sub_cancel]
    exact congrArg (·, (heap.elem 0).value, (heap.elem 0).data) heq
  · have := h.room
    simp only [start]
    omega

lemma Holds.extract_empty (h : Holds policy heap []) :
    ∃ heap', heap_extract heap = (heap', 0, 0) ∧ heap'.error ≠ 0 ∧ Holds policy heap' [] := by
  have hcount : heap.count = 0 := h.count
  refine ⟨{ heap with error := HEAP_EEMPTY }, ?_, show HEAP_EEMPTY ≠ 0 by decide, h.policy,
    h.room, h.pos, h.ordered, h.queue⟩
  rw [heap_extract, heap_peek, if_pos hcount]
  exact if_pos (show HEAP_EEMPTY ≠ 0 by decide)

end Heaps

section Runs

variable {policy : heap_time_policy_enum} {q : Queue} {ops : List Op} {size : ℕ} {s : Log}

/-- A new heap, with its policy -/
def new (size : ℕ) (policy : heap_time_policy_enum) : Log :=
  ⟨heap_time_policy (heap_create size) policy, []⟩

lemma perform_extract {heap heap' : heap_t} {result : ℤ × ℕ} (log : List (Option (ℤ × ℕ)))
    (h : heap_extract heap = (heap', result)) : perform .extract ⟨heap, log⟩ =
      some ⟨heap', (if heap'.error ≠ 0 then none else some result) :: log⟩ := by
  rw [perform, h]

lemma run_serves (hrun : run perform ops (new size policy) = some s) :
    ∃ q, Serves policy ops q s.extracted ∧ Holds policy s.heap q := by
  induction ops using List.reverseRecOn generalizing s with
  | nil =>
    rw [run_nil, Option.some.injEq] at hrun
    subst hrun
    exact ⟨[], .new, holds_new policy size⟩
  | append_singleton ops op ih =>
    rw [run_append, Option.bind_eq_some_iff] at hrun
    obtain ⟨⟨heap, log⟩, hrun, hstep⟩ := hrun
    obtain ⟨q, hserves, h⟩ := ih hrun
    rw [run_cons, Option.bind_eq_some_iff] at hstep
    obtain ⟨s', hstep, hlast⟩ := hstep
    obtain rfl := Option.some.inj hlast
    cases op with
    | insert value data =>
      obtain ⟨heap', hinsert, rfl⟩ := Option.map_eq_some_iff.mp hstep
      exact ⟨_, .insert hserves, h.insert hinsert⟩
    | extract =>
      by_cases hempty : heap.count = 0
      · obtain rfl : q = [] := List.length_eq_zero_iff.mp (h.count.symm.trans hempty)
        obtain ⟨heap', hextract, herror, h'⟩ := h.extract_empty
        rw [perform_extract log hextract, if_pos herror] at hstep
        obtain rfl := Option.some.inj hstep
        exact ⟨[], .empty hserves, h'⟩
      · obtain ⟨l, e, r, heap', rfl, hfirst, hextract, herror, h'⟩ := h.extract hempty
        rw [perform_extract log hextract, if_neg (not_not.mpr herror)] at hstep
        obtain rfl := Option.some.inj hstep
        exact ⟨l ++ r, .extract hserves hfirst, h'⟩

lemma Holds.drain {heap : heap_t} (h : Holds policy heap q) (log : List (Option (ℤ × ℕ))) :
    ∃ (out : Queue) (heap' : heap_t), run perform (List.replicate q.length .extract) ⟨heap, log⟩ =
        some ⟨heap', (out.map some).reverse ++ log⟩ ∧ Drains policy q out ∧ heap'.count = 0 := by
  generalize hlength : q.length = n
  induction n generalizing heap q log with
  | zero =>
    obtain rfl := List.length_eq_zero_iff.mp hlength
    exact ⟨[], heap, rfl, .nil, h.count⟩
  | succ n ih =>
    have hcount : heap.count ≠ 0 := by
      rw [h.count, hlength]
      exact Nat.succ_ne_zero n
    obtain ⟨l, e, r, heap', rfl, hfirst, hextract, herror, h'⟩ := h.extract hcount
    obtain ⟨out, last, hrun, hdrains, hzero⟩ := ih h' (some e :: log) (by simp at hlength ⊢; omega)
    refine ⟨e :: out, last, ?_, .cons hfirst hdrains, hzero⟩
    rw [List.replicate_succ, run_cons, perform_extract log hextract, if_neg (not_not.mpr herror),
      Option.bind_some, hrun, List.map_cons, List.reverse_cons, List.append_assoc]
    rfl

/-- In every run each extract gives a smallest element that is left, the oldest or the youngest one
as the policy asks for, and extracting all gives a stable or reverse-stable sort. -/
theorem run_heap (hrun : run perform ops (new size policy) = some s) :
    ∃ q, Serves policy ops q s.extracted ∧ s.heap.count = q.length ∧
      ∃ (out : Queue) (heap : heap_t), run perform (List.replicate q.length .extract) s =
          some ⟨heap, (out.map some).reverse ++ s.extracted⟩ ∧ heap.count = 0 ∧ out.Perm q ∧
        out.Pairwise (fun x y => x.1 ≤ y.1) ∧
        ∀ value, out.filter (·.1 = value) = inOrder policy q value := by
  obtain ⟨q, hserves, h⟩ := run_serves hrun
  obtain ⟨out, heap, hdrain, hdrains, hzero⟩ := h.drain s.extracted
  exact ⟨q, hserves, h.count, out, heap, hdrain, hzero, hdrains.sorted⟩

end Runs

section Examples

def twoFives : List Op :=
  [.insert 5 1, .insert 7 2, .insert 5 3, .extract, .insert (-1) 4, .extract, .extract]

example : (run perform twoFives (new 0 .heap_time_policy_fifo)).map (·.extracted) =
    some [some (5, 3), some (-1, 4), some (5, 1)] := by
  decide +kernel

example : (run perform twoFives (new 0 .heap_time_policy_lifo)).map (·.extracted) =
    some [some (5, 1), some (-1, 4), some (5, 3)] := by
  decide +kernel

theorem run_heap_twoFives : ∃ s q, run perform twoFives (new 0 .heap_time_policy_fifo) = some s ∧
    Serves .heap_time_policy_fifo twoFives q s.extracted ∧ s.heap.count = q.length := by
  have hsome : (run perform twoFives (new 0 .heap_time_policy_fifo)).isSome = true := by
    decide +kernel
  have hrun := (Option.some_get hsome).symm
  obtain ⟨q, hserves, hcount, -⟩ := run_heap hrun
  exact ⟨_, q, hrun, hserves, hcount⟩

end Examples

end OISA.Util.heap_t
