import OISA.Lib.Linked
import OISA.Lib.Runs
import OISA.Util.LinkedList

/-!
# The linked list holds a sequence with a position

The links describe the addresses of the elements in both directions, and the current element is
the one at the current index, none past the end.
-/

namespace OISA.Util.linked_list_t

open OISA.Lib

variable {list list' : linked_list_t} {ids : List ℕ} {elem index : ℕ}

section Fields

variable (list : linked_list_t) (n x : ℕ) (v : Option ℕ)

@[simp] lemma setNext_next :
    ((list.setNext n v).elems x).next = if x = n then v else (list.elems x).next := by
  unfold setNext
  by_cases h : x = n
  · subst h
    simp
  · simp [h]

@[simp] lemma setNext_prev : ((list.setNext n v).elems x).prev = (list.elems x).prev := by
  unfold setNext
  by_cases h : x = n
  · subst h
    simp
  · simp [h]

@[simp] lemma setNext_data : ((list.setNext n v).elems x).data = (list.elems x).data := by
  unfold setNext
  by_cases h : x = n
  · subst h
    simp
  · simp [h]

@[simp] lemma setPrev_prev :
    ((list.setPrev n v).elems x).prev = if x = n then v else (list.elems x).prev := by
  unfold setPrev
  by_cases h : x = n
  · subst h
    simp
  · simp [h]

@[simp] lemma setPrev_next : ((list.setPrev n v).elems x).next = (list.elems x).next := by
  unfold setPrev
  by_cases h : x = n
  · subst h
    simp
  · simp [h]

@[simp] lemma setPrev_data : ((list.setPrev n v).elems x).data = (list.elems x).data := by
  unfold setPrev
  by_cases h : x = n
  · subst h
    simp
  · simp [h]

@[simp] lemma setNext_head : (list.setNext n v).head = list.head := rfl
@[simp] lemma setNext_tail : (list.setNext n v).tail = list.tail := rfl
@[simp] lemma setPrev_head : (list.setPrev n v).head = list.head := rfl
@[simp] lemma setPrev_tail : (list.setPrev n v).tail = list.tail := rfl

end Fields

section Lists

/-- The links and the ends describe the elements at some addresses. -/
structure Ends (list : linked_list_t) (ids : List ℕ) : Prop where
  linked : Linked (fun x => (list.elems x).next) (fun x => (list.elems x).prev) ids
  head : list.head = ids.head?
  tail : list.tail = ids.getLast?

structure Chain (list : linked_list_t) (ids : List ℕ) : Prop extends Ends list ids where
  count : list.count = ids.length
  allocated : ∀ x ∈ ids, x < list.allocated

/-- The list holds the elements at some addresses, and the current one is at the current index. -/
structure Holds (list : linked_list_t) (ids : List ℕ) : Prop extends Chain list ids where
  current_index : list.current_index ≤ ids.length
  current : list.current = ids[list.current_index]?

def dataOf (list : linked_list_t) (ids : List ℕ) : List ℕ := ids.map fun x => (list.elems x).data

def moved (list : linked_list_t) (ids : List ℕ) (index : ℕ) : linked_list_t :=
  { list with
    current_index := index
    current := ids[index]? }

lemma Holds.eq_moved (h : Holds list ids) : list = list.moved ids list.current_index := by
  rw [moved, ← h.current]

lemma Chain.moved (h : Chain list ids) (hindex : index ≤ ids.length) :
    Holds (list.moved ids index) ids where
  toChain := ⟨⟨h.linked, h.head, h.tail⟩, h.count, h.allocated⟩
  current_index := hindex
  current := rfl

lemma Chain.error (h : Chain list ids) (error_code : linked_list_error_t) :
    Chain (list.error error_code) ids :=
  ⟨⟨h.linked, h.head, h.tail⟩, h.count, h.allocated⟩

lemma Holds.error (h : Holds list ids) (error_code : linked_list_error_t) :
    Holds (list.error error_code) ids :=
  ⟨h.toChain.error error_code, h.current_index, h.current⟩

lemma length_dataOf (list : linked_list_t) (ids : List ℕ) : (list.dataOf ids).length = ids.length :=
  List.length_map _

end Lists

section Moves

lemma Chain.advance (h : Chain list ids) (hindex : index < ids.length) :
    advance (list.moved ids index) = some (list.moved ids (index + 1)) := by
  have hat : ids[index]? = some ids[index] := List.getElem?_eq_getElem hindex
  have hnext := h.linked.next index _ hat
  simp only [Util.advance, linked_list_t.moved, hat, Option.bind_eq_bind, Option.bind_some, hnext]

lemma Chain.retreat (h : Chain list ids) (hindex : index < ids.length) :
    retreat (list.moved ids (index + 1)) = list.moved ids index := by
  unfold Util.retreat linked_list_t.moved
  by_cases hlast : index + 1 < ids.length
  · have hat : ids[index + 1]? = some ids[index + 1] := List.getElem?_eq_getElem hlast
    have hprev := h.linked.prev (index + 1) _ hat
    rw [before_succ] at hprev
    simp only [hat, hprev, Nat.add_sub_cancel]
  · have hend : ids[index + 1]? = none := List.getElem?_eq_none (by omega)
    have htail : list.tail = ids[index]? := by
      rw [h.tail, List.getLast?_eq_getElem?, show ids.length - 1 = index by omega]
    simp only [hend, htail, Nat.add_sub_cancel]

lemma Chain.gotoUp (h : Chain list ids) (hindex : index ≤ ids.length) (steps k : ℕ)
    (hsteps : index - k < steps) :
    gotoUp index steps (list.moved ids k) = some (list.moved ids (max k index)) := by
  induction steps generalizing k with
  | zero => omega
  | succ steps ih =>
    rw [Util.gotoUp]
    by_cases hlt : k < index
    · have hstep := h.advance (show k < ids.length by omega)
      rw [if_pos (show (list.moved ids k).current_index < index from hlt), hstep, Option.bind_some,
        ih (k + 1) (by omega), max_eq_right hlt, max_eq_right hlt.le]
    · rw [if_neg (show ¬ (list.moved ids k).current_index < index from hlt),
        max_eq_left (not_lt.mp hlt)]

lemma Chain.gotoDown (h : Chain list ids) (steps k : ℕ) (hk : k ≤ ids.length) (hindex : index ≤ k)
    (hsteps : k - index < steps) :
    gotoDown index steps (list.moved ids k) = some (list.moved ids index) := by
  induction steps generalizing k with
  | zero => omega
  | succ steps ih =>
    rw [Util.gotoDown]
    by_cases hlt : index < k
    · obtain ⟨k, rfl⟩ : ∃ l, k = l + 1 := ⟨k - 1, by omega⟩
      rw [if_pos (show index < (list.moved ids (k + 1)).current_index from hlt),
        h.retreat (by omega), ih k (by omega) (by omega) (by omega)]
    · rw [if_neg (show ¬ index < (list.moved ids k).current_index from hlt),
        Nat.le_antisymm hindex (not_lt.mp hlt)]

lemma Chain.findLoop (h : Chain list ids) (data steps k : ℕ) (hsteps : ids.length - k < steps)
    (hk : k ≤ ids.length) : findLoop data steps (list.moved ids k) =
      some (list.moved ids (k + ((list.dataOf ids).drop k).idxOf data)) := by
  induction steps generalizing k with
  | zero => omega
  | succ steps ih =>
    by_cases hlt : k < ids.length
    · have hat : ids[k]? = some ids[k] := List.getElem?_eq_getElem hlt
      have hdata : (list.dataOf ids).drop k =
          (list.elems ids[k]).data :: (list.dataOf ids).drop (k + 1) := by
        rw [List.drop_eq_getElem_cons (by rw [length_dataOf]; exact hlt)]
        simp [dataOf]
      have hstep : Util.findLoop data (steps + 1) (list.moved ids k) =
          if (list.elems ids[k]).data ≠ data then
            (Util.advance (list.moved ids k)).bind (Util.findLoop data steps)
          else some (list.moved ids k) := by
        rw [Util.findLoop]
        simp only [linked_list_t.moved, hat]
      rw [hstep, hdata]
      by_cases heq : (list.elems ids[k]).data = data
      · rw [if_neg (not_not.mpr heq), heq, List.idxOf_cons_self, Nat.add_zero]
      · rw [if_pos heq, h.advance hlt, Option.bind_some, ih (k + 1) (by omega) hlt,
          List.idxOf_cons_ne _ heq]
        congr 2
        omega
    · have hend : ids[k]? = none := List.getElem?_eq_none (by omega)
      have hdata : (list.dataOf ids).drop k = [] :=
        List.drop_eq_nil_of_le (by rw [length_dataOf]; omega)
      have hstop : Util.findLoop data (steps + 1) (list.moved ids k) =
          some (list.moved ids k) := by
        rw [Util.findLoop]
        simp only [linked_list_t.moved, hend]
      rw [hstop, hdata]
      rfl

end Moves

section Insertion

structure Linking (list list' : linked_list_t) : Prop where
  count : list'.count = list.count
  error_code : list'.error_code = list.error_code
  current_index : list'.current_index = list.current_index
  allocated : list'.allocated = list.allocated
  data : ∀ x, (list'.elems x).data = (list.elems x).data

/-- A new element is linked in before the current one. -/
lemma insertLinks_spec (h : Ends list ids) (hcount : list.count = ids.length)
    (hindex : index ≤ ids.length) (hcurrent : list.current = ids[index]?) (helem : elem ∉ ids)
    (hnew : (list.elems elem).prev = none ∧ (list.elems elem).next = none) :
    ∃ list', insertLinks list elem = some list' ∧ Linking list list' ∧
      Ends list' (ids.insertIdx index elem) := by
  have hne : ∀ x ∈ ids, x ≠ elem := fun x hx heq => helem (heq ▸ hx)
  unfold Util.insertLinks
  by_cases hsize : list.count = 0
  · rw [if_pos hsize]
    have hids : ids = [] := List.eq_nil_of_length_eq_zero (hcount ▸ hsize)
    subst hids
    obtain rfl : index = 0 := Nat.le_zero.mp hindex
    refine ⟨_, rfl, ⟨rfl, rfl, rfl, rfl, fun _ => rfl⟩, ?_, rfl, rfl⟩
    exact h.linked.insertIdx (le_refl 0) helem (fun x hx => by cases hx) (fun x hx => by cases hx)
      hnew.2 hnew.1
  · rw [if_neg hsize]
    have hlen : 0 < ids.length := by
      rw [← hcount]
      exact Nat.pos_of_ne_zero hsize
    by_cases hbegin : list.current = list.head
    · rw [if_pos hbegin]
      obtain ⟨first, hfirst⟩ : ∃ first, ids[0]? = some first := ⟨_, List.getElem?_eq_getElem hlen⟩
      have hhead : list.head = some first := by rw [h.head, List.head?_eq_getElem?, hfirst]
      obtain rfl : index = 0 := by
        rw [hcurrent, hhead] at hbegin
        exact index_unique h.linked.nodup hbegin hfirst
      simp only [setNext_head, hhead, Option.bind_eq_bind, Option.bind_some, Option.some.injEq,
        exists_eq_left']
      refine ⟨⟨rfl, rfl, rfl, rfl, fun _ => by simp⟩, ?_, rfl, ?_⟩
      · apply h.linked.insertIdx (Nat.zero_le _) helem
        · intro x hx
          rw [before_zero, if_neg (by simp)]
          simp [hne x hx]
        · intro x hx
          rw [hfirst]
          simp [eq_comm]
        · rw [hfirst]
          simp
        · rw [before_zero]
          simp [(hne first (List.mem_of_getElem? hfirst)).symm, hnew.1]
      · exact h.tail.trans (getLast?_insertIdx hlen elem).symm
    · rw [if_neg hbegin]
      have hpos : 0 < index := by
        apply Nat.pos_of_ne_zero
        rintro rfl
        rw [hcurrent, h.head, List.head?_eq_getElem?] at hbegin
        exact hbegin rfl
      have hfirst : (ids.insertIdx index elem).head? = ids.head? := head?_insertIdx hpos hindex elem
      obtain ⟨q, hq⟩ : ∃ q, ids[index - 1]? = some q := ⟨_, List.getElem?_eq_getElem (by omega)⟩
      have hbefore : before ids index = some q := (if_neg (by omega)).trans hq
      have hqe : elem ≠ q := (hne q (List.mem_of_getElem? hq)).symm
      by_cases hlast : index = ids.length
      · have hnone : ids[index]? = none := List.getElem?_eq_none (by omega)
        have htail : list.tail = some q := by
          rw [h.tail, List.getLast?_eq_getElem?, ← hlast, hq]
        rw [hnone] at hcurrent
        simp only [hcurrent, setPrev_tail, htail, Option.bind_eq_bind, Option.bind_some,
          Option.some.injEq, exists_eq_left']
        refine ⟨⟨rfl, rfl, rfl, rfl, fun _ => by simp⟩, ?_, ?_, ?_⟩
        · apply h.linked.insertIdx hindex helem
          · intro x hx
            rw [hbefore]
            simp [eq_comm]
          · intro x hx
            rw [hnone, if_neg (by simp)]
            simp [hne x hx]
          · rw [hnone]
            simp [hqe, hnew.2]
          · rw [hbefore]
            simp
        · exact h.head.trans hfirst.symm
        · rw [hlast, List.insertIdx_length_self, List.getLast?_concat]
      · obtain ⟨p, hp⟩ : ∃ p, ids[index]? = some p := ⟨_, List.getElem?_eq_getElem (by omega)⟩
        have hprev : (list.elems p).prev = some q := (h.linked.prev _ p hp).trans hbefore
        have hpe : elem ≠ p := (hne p (List.mem_of_getElem? hp)).symm
        rw [hp] at hcurrent
        simp only [hcurrent, hprev, setPrev_prev, setNext_prev, if_neg hpe, if_true,
          Option.bind_eq_bind, Option.bind_some, Option.some.injEq, exists_eq_left']
        refine ⟨⟨rfl, rfl, rfl, rfl, fun _ => by simp⟩, ?_, ?_, ?_⟩
        · apply h.linked.insertIdx hindex helem
          · intro x hx
            rw [hbefore]
            simp [hne x hx, eq_comm]
          · intro x hx
            rw [hp]
            simp [hne x hx, eq_comm]
          · rw [hp]
            simp [hqe]
          · rw [hbefore]
            simp [hpe]
        · exact h.head.trans hfirst.symm
        · exact h.tail.trans (getLast?_insertIdx (by omega) elem).symm

/-- An element is taken out of the links. -/
lemma removeLinks_spec (h : Ends list ids) (hcount : list.count = ids.length)
    (hat : ids[index]? = some elem) :
    ∃ list', removeLinks list elem = some list' ∧ Linking list list' ∧
      Ends list' (ids.eraseIdx index) ∧ (list'.elems elem).next = (list.elems elem).next := by
  have hlt : index < ids.length := (List.getElem?_eq_some_iff.mp hat).1
  have hnext : (list.elems elem).next = ids[index + 1]? := h.linked.next _ _ hat
  have hprev : (list.elems elem).prev = before ids index := h.linked.prev _ _ hat
  unfold Util.removeLinks
  by_cases hsize : list.count = 1
  · rw [if_pos hsize]
    obtain ⟨x, rfl⟩ := List.length_eq_one_iff.mp (hcount.symm.trans hsize)
    obtain rfl : index = 0 := by
      rw [List.length_singleton] at hlt
      omega
    exact ⟨_, rfl, ⟨rfl, rfl, rfl, rfl, fun _ => rfl⟩, ⟨linked_nil _ _, rfl, rfl⟩, rfl⟩
  · rw [if_neg hsize]
    have hlen : 1 < ids.length := by omega
    by_cases hhead : some elem = list.head
    · rw [if_pos hhead]
      obtain rfl : index = 0 := index_eq_zero h.linked.nodup hat (hhead.trans h.head)
      obtain ⟨second, hsecond⟩ : ∃ second, ids[0 + 1]? = some second :=
        ⟨_, List.getElem?_eq_getElem hlen⟩
      rw [hsecond] at hnext
      simp only [hnext, setPrev_next, Option.bind_eq_bind, Option.bind_some, Option.some.injEq,
        exists_eq_left']
      refine ⟨⟨rfl, rfl, rfl, rfl, fun _ => by simp⟩, ⟨?_, ?_, ?_⟩, by simp⟩
      · apply h.linked.eraseIdx hat
        · intro x hx hne
          rw [before_zero]
          simp
        · intro x hx hne
          rw [before_zero, hsecond]
          simp [eq_comm]
      · rw [head?_eraseIdx, if_pos rfl, ← hsecond]
      · rw [getLast?_eraseIdx hlt, if_neg (by omega)]
        exact h.tail
    · rw [if_neg hhead]
      have hpos : 0 < index := index_pos hat fun heq => hhead (heq.trans h.head.symm)
      obtain ⟨q, hq⟩ : ∃ q, ids[index - 1]? = some q := ⟨_, List.getElem?_eq_getElem (by omega)⟩
      have hbefore : before ids index = some q := (if_neg (by omega)).trans hq
      rw [hbefore] at hprev
      have helemq : elem ≠ q := by
        rintro rfl
        have := index_unique h.linked.nodup hat hq
        omega
      have hfirst : (ids.eraseIdx index).head? = ids.head? := by
        rw [head?_eraseIdx, if_neg hpos.ne']
      by_cases htail : some elem = list.tail
      · rw [if_pos htail]
        have hlast := index_succ_eq_length h.linked.nodup hat (htail.trans h.tail)
        simp only [hprev, setNext_prev, Option.bind_eq_bind, Option.bind_some, Option.some.injEq,
          exists_eq_left']
        refine ⟨⟨rfl, rfl, rfl, rfl, fun _ => by simp⟩, ⟨?_, ?_, ?_⟩, by simp [hnext, helemq]⟩
        · apply h.linked.eraseIdx hat
          · intro x hx hne
            rw [hbefore, List.getElem?_eq_none (by omega)]
            simp [eq_comm]
          · intro x hx hne
            rw [List.getElem?_eq_none (by omega)]
            simp
        · exact h.head.trans hfirst.symm
        · rw [getLast?_eraseIdx hlt, if_pos hlast, hbefore]
      · rw [if_neg htail]
        have hlast := index_succ_lt_length hat fun heq => htail (heq.trans h.tail.symm)
        obtain ⟨r, hr⟩ : ∃ r, ids[index + 1]? = some r := ⟨_, List.getElem?_eq_getElem hlast⟩
        rw [hr] at hnext
        simp only [hprev, hnext, setNext_next, setNext_prev, if_neg helemq, Option.bind_eq_bind,
          Option.bind_some, Option.some.injEq, exists_eq_left']
        refine ⟨⟨rfl, rfl, rfl, rfl, fun _ => by simp⟩, ⟨?_, ?_, ?_⟩, by simp [hnext, helemq]⟩
        · apply h.linked.eraseIdx hat
          · intro x hx hne
            rw [hbefore, hr]
            simp [eq_comm]
          · intro x hx hne
            rw [hbefore, hr]
            simp [eq_comm]
        · exact h.head.trans hfirst.symm
        · rw [getLast?_eraseIdx hlt, if_neg (by omega)]
          exact h.tail

end Insertion

section Changes

lemma dataOf_congr (h : ∀ x ∈ ids, (list'.elems x).data = (list.elems x).data) :
    list'.dataOf ids = list.dataOf ids :=
  List.map_congr_left h

/-- An element is inserted before the current one and becomes the current one. -/
lemma Chain.insert (h : Chain list ids) (hindex : index ≤ ids.length) (data : ℕ) :
    ∃ list' ids', linked_list_insert (list.moved ids index) data = some list' ∧ Holds list' ids' ∧
      list'.dataOf ids' = (list.dataOf ids).insertIdx index data ∧ list'.current_index = index ∧
      list'.error_code = .LINKED_LIST_ERR_OK := by
  have hfresh : list.allocated ∉ ids := fun hmem => absurd (h.allocated _ hmem) (lt_irrefl _)
  have hother : ∀ x ∈ ids,
      Function.update list.elems list.allocated { data := data } x = list.elems x := by
    intro x hx
    have hne : x ≠ list.allocated := fun heq => hfresh (heq ▸ hx)
    exact Function.update_of_ne hne _ _
  have hself : Function.update list.elems list.allocated { data := data } list.allocated =
      { data := data } := Function.update_self ..
  have hends : Ends { list.moved ids index with
      elems := Function.update list.elems list.allocated { data := data }
      allocated := list.allocated + 1 } ids := by
    refine ⟨?_, h.head, h.tail⟩
    apply h.linked.congr
    · intro x hx
      simp only [hother x hx]
    · intro x hx
      simp only [hother x hx]
  obtain ⟨linked, hlinks, hlinking, hends'⟩ := insertLinks_spec hends h.count hindex rfl hfresh
    (by simp only [hself, and_self])
  have hlength : (ids.insertIdx index list.allocated).length = ids.length + 1 :=
    List.length_insertIdx_of_le_length hindex _
  refine ⟨{ linked with
    error_code := .LINKED_LIST_ERR_OK
    count := linked.count + 1
    current := some list.allocated
    version := linked.version + 1 }, ids.insertIdx index list.allocated, ?_,
    ⟨⟨⟨hends'.linked, hends'.head, hends'.tail⟩, ?_, ?_⟩, ?_, ?_⟩, ?_, hlinking.current_index, rfl⟩
  · rw [linked_list_insert, Option.bind_eq_bind]
    exact (congrArg (fun l => Option.bind l _) hlinks).trans rfl
  · rw [hlength, ← h.count]
    exact congrArg (· + 1) hlinking.count
  · intro x hx
    show x < linked.allocated
    rw [hlinking.allocated]
    cases (List.mem_insertIdx hindex).mp hx with
    | inl heq => exact heq ▸ Nat.lt_succ_self _
    | inr hmem => exact Nat.lt_succ_of_lt (h.allocated x hmem)
  · rw [hlength]
    exact hlinking.current_index.le.trans (Nat.le_succ_of_le hindex)
  · show some list.allocated = (ids.insertIdx index list.allocated)[linked.current_index]?
    rw [hlinking.current_index, getElem?_insertIdx_ite hindex]
    simp [linked_list_t.moved]
  · have hdata : ∀ x, (linked.elems x).data =
        (Function.update list.elems list.allocated { data := data } x).data := hlinking.data
    show (ids.insertIdx index list.allocated).map (fun x => (linked.elems x).data) = _
    rw [List.map_insertIdx, hdata, hself]
    congr 1
    apply List.map_congr_left
    intro x hx
    rw [hdata, hother x hx]

/-- The current element is removed, and the next one becomes the current one. -/
lemma Chain.remove (h : Chain list ids) (hindex : index < ids.length) :
    ∃ list' ids', linked_list_remove (list.moved ids index) =
        some (list', (list.dataOf ids)[index]?.getD 0) ∧ Holds list' ids' ∧
      list'.dataOf ids' = (list.dataOf ids).eraseIdx index ∧ list'.current_index = index ∧
      list'.error_code = .LINKED_LIST_ERR_OK := by
  have hat : ids[index]? = some ids[index] := List.getElem?_eq_getElem hindex
  have hmoved : Ends (list.moved ids index) ids := ⟨h.linked, h.head, h.tail⟩
  obtain ⟨linked, hlinks, hlinking, hends, hnext⟩ := removeLinks_spec hmoved h.count hat
  have hcount : linked.count = ids.length := hlinking.count.trans h.count
  have hlength : (ids.eraseIdx index).length = ids.length - 1 := List.length_eraseIdx_of_lt hindex
  refine ⟨{ linked with
    error_code := .LINKED_LIST_ERR_OK
    count := linked.count - 1
    current := (linked.elems ids[index]).next
    version := linked.version + 1 }, ids.eraseIdx index, ?_,
    ⟨⟨⟨hends.linked, hends.head, hends.tail⟩, ?_, ?_⟩, ?_, ?_⟩, ?_, hlinking.current_index, rfl⟩
  · have hlt : ¬ (list.moved ids index).current_index = (list.moved ids index).count := by
      have : list.count = ids.length := h.count
      simp only [linked_list_t.moved]
      omega
    have hdata : (list.dataOf ids)[index]?.getD 0 = (list.elems ids[index]).data := by
      rw [dataOf, List.getElem?_map, hat]
      rfl
    rw [linked_list_remove, if_neg hlt, hdata]
    simp only [linked_list_t.moved, hat] at hlinks ⊢
    rw [Option.bind_eq_bind, Option.bind_some, hlinks, Option.bind_eq_bind, Option.bind_some,
      if_pos (show 0 < linked.count by omega)]
  · rw [hlength, ← hcount]
  · intro x hx
    show x < linked.allocated
    rw [hlinking.allocated]
    exact h.allocated x (List.mem_of_mem_eraseIdx hx)
  · rw [hlength]
    show linked.current_index ≤ _
    rw [hlinking.current_index]
    show index ≤ _
    omega
  · show (linked.elems ids[index]).next = (ids.eraseIdx index)[linked.current_index]?
    rw [hnext, hlinking.current_index]
    show _ = (ids.eraseIdx index)[index]?
    rw [List.getElem?_eraseIdx, if_neg (lt_irrefl _)]
    exact h.linked.next index _ hat
  · show (ids.eraseIdx index).map (fun x => (linked.elems x).data) = _
    rw [dataOf, ← List.eraseIdx_map]
    congr 1
    exact List.map_congr_left fun x _ => hlinking.data x

end Changes

section Sorts

variable {array : ℕ → ℕ} {n : ℕ}

lemma Chain.toArray (h : Chain list ids) (steps i : ℕ) (array : ℕ → ℕ)
    (hi : i + steps = ids.length) :
    ∃ array', toArray list.elems steps i ids[i]? array = some array' ∧
      (∀ k < i, array' k = array k) ∧ ∀ k < ids.length, i ≤ k → ids[k]? = some (array' k) := by
  induction steps generalizing i array with
  | zero => exact ⟨array, rfl, fun _ _ => rfl, fun k _ _ => by omega⟩
  | succ steps ih =>
    have hat : ids[i]? = some ids[i] := List.getElem?_eq_getElem (by omega)
    have hnext := h.linked.next i _ hat
    obtain ⟨array', heq, hbelow, habove⟩ := ih (i + 1) (Function.update array i ids[i]) (by omega)
    refine ⟨array', ?_, ?_, ?_⟩
    · rw [Util.toArray, hat, Option.bind_eq_bind, Option.bind_some, hnext, heq]
    · intro k hk
      rw [hbelow k (by omega), Function.update_of_ne (by omega)]
    · intro k hk hik
      by_cases hki : k = i
      · subst hki
        rw [hbelow k (by omega), Function.update_self, hat]
      · exact habove k hk (by omega)

lemma relink_data (elems : ℕ → linked_list_elem_t) (i x : ℕ) :
    (relink n array elems i x).data = (elems x).data := by
  unfold relink
  by_cases hx : x = array i
  · subst hx
    rw [Function.update_self]
  · rw [Function.update_of_ne hx]

lemma foldl_relink (hinj : ∀ k < n, ∀ l < n, array k = array l → k = l)
    (elems : ℕ → linked_list_elem_t) (m : ℕ) (hm : m ≤ n) :
    (∀ x, ((List.range m).foldl (relink n array) elems x).data = (elems x).data) ∧
    ∀ k < m, ((List.range m).foldl (relink n array) elems (array k)).prev =
        (if 0 < k then some (array (k - 1)) else none) ∧
      ((List.range m).foldl (relink n array) elems (array k)).next =
        if k < n - 1 then some (array (k + 1)) else none := by
  induction m with
  | zero => exact ⟨fun _ => rfl, fun k hk => absurd hk (Nat.not_lt_zero k)⟩
  | succ m ih =>
    obtain ⟨hdata, hlinks⟩ := ih (by omega)
    rw [List.range_succ, List.foldl_append]
    simp only [List.foldl_cons, List.foldl_nil]
    refine ⟨fun x => (relink_data _ m x).trans (hdata x), ?_⟩
    intro k hk
    by_cases hkm : k = m
    · subst hkm
      rw [relink, Function.update_self]
      exact ⟨rfl, rfl⟩
    · have hne : array k ≠ array m := fun heq => hkm (hinj k (by omega) m (by omega) heq)
      rw [relink, Function.update_of_ne hne]
      exact hlinks k (by omega)

lemma swaps_swapAt (n : ℕ) :
    Swaps (fun (array : ℕ → ℕ) i => array i) swapAt (fun _ => True) n :=
  fun _ _ _ _ _ _ => ⟨trivial, fun _ _ => rfl⟩

/-- Sorting ends with a sorted permutation at the start. -/
lemma Holds.sort (h : Holds list ids) {comp : ℕ → ℕ → ℤ} (hcomp : TotalPreorder comp)
    (hpos : 0 < ids.length) :
    ∃ list' ids', linked_list_sort list comp = some list' ∧ Holds list' ids' ∧
      (list'.dataOf ids').Perm (list.dataOf ids) ∧
      (list'.dataOf ids').Pairwise (fun x y => comp x y ≤ 0) ∧ list'.current_index = 0 ∧
      list'.error_code = .LINKED_LIST_ERR_OK := by
  have hcount : list.count = ids.length := h.count
  obtain ⟨array, harray, -, hat⟩ := h.toArray ids.length 0 (fun _ => 0) (Nat.zero_add _)
  rw [← List.head?_eq_getElem?, ← h.head, ← hcount] at harray
  have hids : ids = (List.range ids.length).map array := by
    apply List.ext_getElem?
    intro k
    rw [List.getElem?_map]
    by_cases hk : k < ids.length
    · rw [hat k hk (Nat.zero_le k), List.getElem?_range hk, Option.map_some]
    · rw [List.getElem?_eq_none (by omega),
        List.getElem?_eq_none (by rw [List.length_range]; omega), Option.map_none]
  have hcomp' : TotalPreorder fun x y => comp (list.elems x).data (list.elems y).data :=
    ⟨fun a b => hcomp.sign _ _, fun a b c => hcomp.trans _ _ _⟩
  have hpivot : ∀ lo hi : ℕ, lo ≤ hi → lo ≤ (lo + hi) / 2 ∧ (lo + hi) / 2 ≤ hi :=
    fun lo hi hle => by omega
  obtain ⟨sorted, hsort, -, hrearranges, hsorted⟩ :=
    quickSort_spec hcomp' (swaps_swapAt list.count) hpivot list.count (s := array) trivial
      (Nat.zero_le (list.count - 1)) (by omega) (by omega)
  have hperm : ((List.range ids.length).map sorted).Perm ids := by
    rw [hcount] at hrearranges
    have hperm := hrearranges.perm
    rw [← hids] at hperm
    exact hperm
  have hnodup : ((List.range ids.length).map sorted).Nodup :=
    hperm.nodup_iff.mpr h.linked.nodup
  have hinj : ∀ k < list.count, ∀ l < list.count, sorted k = sorted l → k = l := by
    intro k hk l hl heq
    rw [hcount] at hk hl
    exact List.inj_on_of_nodup_map hnodup (List.mem_range.mpr hk) (List.mem_range.mpr hl) heq
  have hget : ∀ k < ids.length, ((List.range ids.length).map sorted)[k]? = some (sorted k) := by
    intro k hk
    rw [List.getElem?_map, List.getElem?_range hk, Option.map_some]
  have hout : ∀ k, ids.length ≤ k → ((List.range ids.length).map sorted)[k]? = none := by
    intro k hk
    exact List.getElem?_eq_none (by rw [List.length_map, List.length_range]; exact hk)
  obtain ⟨hdata, hlinks⟩ := foldl_relink hinj list.elems list.count (le_refl _)
  have hindex : ∀ {k x}, ((List.range ids.length).map sorted)[k]? = some x →
      k < list.count ∧ x = sorted k := by
    intro k x hx
    by_cases hk : k < ids.length
    · rw [hget k hk] at hx
      exact ⟨hcount ▸ hk, (Option.some.inj hx).symm⟩
    · rw [hout k (by omega)] at hx
      cases hx
  refine ⟨{ list with
    error_code := .LINKED_LIST_ERR_OK
    head := some (sorted 0)
    tail := some (sorted (list.count - 1))
    elems := (List.range list.count).foldl (relink list.count sorted) list.elems
    current_index := 0
    current := some (sorted 0)
    version := list.version + 1 }, (List.range ids.length).map sorted, ?_,
    ⟨⟨⟨⟨hnodup, ?_, ?_⟩, ?_, ?_⟩, ?_, ?_⟩, Nat.zero_le _, (hget 0 hpos).symm⟩, ?_, ?_, rfl, rfl⟩
  · rw [linked_list_sort]
    simp only [linked_list_t.error, harray, hsort, Option.bind_eq_bind, Option.bind_some]
    exact if_neg (by omega)
  · intro k x hx
    obtain ⟨hk, rfl⟩ := hindex hx
    refine (hlinks k hk).2.trans ?_
    by_cases hlast : k < list.count - 1
    · rw [if_pos hlast, hget (k + 1) (by omega)]
    · rw [if_neg hlast, hout (k + 1) (by omega)]
  · intro k x hx
    obtain ⟨hk, rfl⟩ := hindex hx
    refine (hlinks k hk).1.trans ?_
    by_cases hfirst : 0 < k
    · rw [if_pos hfirst, before, if_neg (by omega), hget (k - 1) (by omega)]
    · rw [if_neg hfirst, before, if_pos (by omega)]
  · rw [List.head?_eq_getElem?, hget 0 hpos]
  · rw [List.getLast?_eq_getElem?, List.length_map, List.length_range, hget _ (by omega), hcount]
  · rw [List.length_map, List.length_range]
    exact hcount
  · intro x hx
    exact h.allocated x (hperm.mem_iff.mp hx)
  · rw [dataOf_congr fun x _ => hdata x]
    exact hperm.map _
  · show (((List.range ids.length).map sorted).map fun x =>
      ((List.range list.count).foldl (relink list.count sorted) list.elems x).data).Pairwise _
    rw [List.pairwise_map, List.pairwise_map]
    apply List.pairwise_lt_range.imp_of_mem
    intro a b _ hb hlt
    have := List.mem_range.mp hb
    rw [hdata, hdata]
    exact hsorted a b (Nat.zero_le a) hlt (by omega)

end Sorts

section Runs

/-- A sequence with a position and the error code of the last operation -/
structure Cursor where
  xs : List ℕ := []
  pos : ℕ := 0
  error_code : linked_list_error_t := .LINKED_LIST_ERR_OK

namespace Cursor

def fail (t : Cursor) (error_code : linked_list_error_t) : Cursor :=
  { t with error_code := error_code }

def go (t : Cursor) (pos : ℕ) : Cursor :=
  { t with
    pos := pos
    error_code := .LINKED_LIST_ERR_OK }

/-- What the operations do to a sequence with a position, and what they return -/
def Acts (op : Op) (t t' : Cursor) (result : ℕ) : Prop :=
  match op with
  | .current => t' = t.go t.pos ∧ result = t.pos
  | .get =>
    if t.pos = t.xs.length then t' = t.fail .LINKED_LIST_ERR_BOUNDS ∧ result = 0
    else t' = t.go t.pos ∧ result = t.xs[t.pos]?.getD 0
  | .next => result = 0 ∧
    t' = if t.pos = t.xs.length then t.fail .LINKED_LIST_ERR_BOUNDS else t.go (t.pos + 1)
  | .prev => result = 0 ∧
    t' = if t.pos = 0 then t.fail .LINKED_LIST_ERR_BOUNDS else t.go (t.pos - 1)
  | .nextCircular => result = 0 ∧
    t' = if t.xs = [] then t.fail .LINKED_LIST_ERR_EMPTY
      else if t.xs.length ≤ t.pos + 1 then t.go 0 else t.go (t.pos + 1)
  | .prevCircular => result = 0 ∧
    t' = if t.xs = [] then t.fail .LINKED_LIST_ERR_EMPTY
      else if t.pos = 0 then t.go (t.xs.length - 1) else t.go (t.pos - 1)
  | .head => result = 0 ∧
    t' = if t.xs = [] then t.fail .LINKED_LIST_ERR_EMPTY else t.go 0
  | .tail => result = 0 ∧
    t' = if t.xs = [] then t.fail .LINKED_LIST_ERR_EMPTY else t.go (t.xs.length - 1)
  | .out => t' = t.go t.xs.length ∧ result = 0
  | .goto index =>
    if 0 ≤ index ∧ index ≤ t.xs.length then
      t' = t.go index.toNat ∧ result = t.xs[index.toNat]?.getD 0
    else t' = t.fail .LINKED_LIST_ERR_BOUNDS ∧ result = 0
  | .find data =>
    if data ∈ t.xs then t' = t.go (t.xs.idxOf data) ∧ result = data
    else t' = (t.go t.xs.length).fail .LINKED_LIST_ERR_NOT_FOUND ∧ result = 0
  | .count => t' = t.go t.pos ∧ result = t.xs.length
  | .isEnd => t' = t.go t.pos ∧ result = if t.pos = t.xs.length then 1 else 0
  | .insert data => t' = ⟨t.xs.insertIdx t.pos data, t.pos, .LINKED_LIST_ERR_OK⟩ ∧ result = 0
  | .add data => t' = ⟨t.xs ++ [data], t.xs.length + 1, .LINKED_LIST_ERR_OK⟩ ∧ result = 0
  | .remove =>
    if t.pos = t.xs.length then t' = t.fail .LINKED_LIST_ERR_BOUNDS ∧ result = 0
    else t' = ⟨t.xs.eraseIdx t.pos, t.pos, .LINKED_LIST_ERR_OK⟩ ∧ result = t.xs[t.pos]?.getD 0
  | .clear => t' = {} ∧ result = 0
  | .sort comp => t'.xs.Perm t.xs ∧ t'.xs.Pairwise (fun x y => comp x y ≤ 0) ∧ t'.pos = 0 ∧
    t'.error_code = .LINKED_LIST_ERR_OK ∧ result = 0

/-- The sequence after some operations and what they returned, the last one first -/
inductive Serves : List Op → Cursor → List ℕ → Prop
  | new : Serves [] {} []
  | step {ops op t t' results result} : Serves ops t results → Acts op t t' result →
      Serves (ops ++ [op]) t' (result :: results)

end Cursor

/-- A comparison is by a total preorder. -/
def Total : Op → Prop
  | .sort comp => TotalPreorder comp
  | _ => True

/-- The sequence that a list holds, with its position -/
def cursor (list : linked_list_t) (ids : List ℕ) : Cursor :=
  ⟨list.dataOf ids, list.current_index, list.error_code⟩

/-- An operation acts on the sequence. -/
def Refines (list : linked_list_t) (ids : List ℕ) (op : Op) : Prop :=
  ∃ list' ids' result, perform op list = some (list', result) ∧ Holds list' ids' ∧
    Cursor.Acts op (list.cursor ids) (list'.cursor ids') result

variable {op : Op}

lemma Holds.dataOf_eq_nil (h : Holds list ids) : list.dataOf ids = [] ↔ list.count = 0 := by
  rw [← List.length_eq_zero_iff, length_dataOf, h.count]

lemma Holds.data_current (h : Holds list ids) :
    (list.dataOf ids)[list.current_index]? = list.current.map fun x => (list.elems x).data := by
  rw [h.current, dataOf, List.getElem?_map]

lemma Holds.currentData (h : Holds list ids) :
    currentData list = (list.dataOf ids)[list.current_index]?.getD 0 := by
  rw [h.data_current, Util.currentData]
  cases list.current <;> rfl

lemma Holds.current_isSome (h : Holds list ids) (hlt : list.current_index < ids.length) :
    ∃ elem, list.current = some elem :=
  ⟨_, h.current.trans (List.getElem?_eq_getElem hlt)⟩

lemma Holds.refines_go (h : Holds list ids) (hindex : index ≤ ids.length) (result : ℕ)
    (hperform : perform op list =
      some ((list.moved ids index).error .LINKED_LIST_ERR_OK, result))
    (hacts : Cursor.Acts op (list.cursor ids) ((list.cursor ids).go index) result) :
    Refines list ids op :=
  ⟨_, ids, result, hperform, (h.toChain.moved hindex).error _, hacts⟩

lemma Holds.refines_fail (h : Holds list ids) (error_code : linked_list_error_t)
    (hperform : perform op list = some (list.error error_code, 0))
    (hacts : Cursor.Acts op (list.cursor ids) ((list.cursor ids).fail error_code) 0) :
    Refines list ids op :=
  ⟨_, ids, 0, hperform, h.error _, hacts⟩

lemma Holds.refines_get (h : Holds list ids) : Refines list ids .get := by
  have hcount := h.count
  have hlength := length_dataOf list ids
  by_cases hend : list.current_index = list.count
  · apply h.refines_fail .LINKED_LIST_ERR_BOUNDS
    · rw [perform, linked_list_get, if_pos hend]
    · exact (if_pos (by rw [cursor, hlength, ← hcount]; exact hend)).mpr ⟨rfl, rfl⟩
  · have hindex := h.current_index
    obtain ⟨elem, helem⟩ := h.current_isSome (by omega)
    have hdata := h.data_current
    rw [helem, Option.map_some] at hdata
    apply h.refines_go h.current_index (list.elems elem).data
    · rw [perform, linked_list_get, if_neg hend, ← h.eq_moved, helem]
      rfl
    · refine (if_neg (by rw [cursor, hlength, ← hcount]; exact hend)).mpr ⟨rfl, ?_⟩
      rw [cursor, hdata]
      rfl

lemma Holds.refines_next (h : Holds list ids) : Refines list ids .next := by
  have hcount := h.count
  have hlength := length_dataOf list ids
  have hindex := h.current_index
  by_cases hend : list.current_index = list.count
  · apply h.refines_fail .LINKED_LIST_ERR_BOUNDS
    · rw [perform, linked_list_next, if_pos hend]
      rfl
    · exact ⟨rfl, (if_pos (by rw [cursor, hlength, ← hcount]; exact hend)).symm⟩
  · have hnext := (h.toChain.error .LINKED_LIST_ERR_OK).advance
      (show list.current_index < ids.length by omega)
    apply h.refines_go (show list.current_index + 1 ≤ ids.length by omega) 0
    · rw [perform, linked_list_next, if_neg hend, (h.error .LINKED_LIST_ERR_OK).eq_moved]
      exact congrArg (Option.map (·, 0)) hnext
    · exact ⟨rfl, (if_neg (by rw [cursor, hlength, ← hcount]; exact hend)).symm⟩

lemma Holds.refines_prev (h : Holds list ids) : Refines list ids .prev := by
  have hindex := h.current_index
  by_cases hstart : list.current_index = 0
  · apply h.refines_fail .LINKED_LIST_ERR_BOUNDS
    · rw [perform, linked_list_prev, if_pos hstart]
    · exact ⟨rfl, (if_pos hstart).symm⟩
  · have hprev := (h.toChain.error .LINKED_LIST_ERR_OK).retreat
      (show list.current_index - 1 < ids.length by omega)
    rw [Nat.sub_add_cancel (by omega)] at hprev
    apply h.refines_go (show list.current_index - 1 ≤ ids.length by omega) 0
    · rw [perform, linked_list_prev, if_neg hstart, (h.error .LINKED_LIST_ERR_OK).eq_moved]
      exact congrArg (fun l => some (l, 0)) hprev
    · exact ⟨rfl, (if_neg hstart).symm⟩

lemma Holds.refines_nonempty (h : Holds list ids) (index : ℕ) (go : linked_list_t)
    (hindex : list.count ≠ 0 → index ≤ ids.length)
    (hperform : perform op list =
      some (if list.count = 0 then list.error .LINKED_LIST_ERR_EMPTY else go, 0))
    (hgo : list.count ≠ 0 → go = (list.moved ids index).error .LINKED_LIST_ERR_OK)
    (hacts : Cursor.Acts op (list.cursor ids) (if (list.cursor ids).xs = [] then
      (list.cursor ids).fail .LINKED_LIST_ERR_EMPTY else (list.cursor ids).go index) 0) :
    Refines list ids op := by
  have hempty : (list.cursor ids).xs = [] ↔ list.count = 0 := h.dataOf_eq_nil
  by_cases hzero : list.count = 0
  · rw [if_pos hzero] at hperform
    rw [if_pos (hempty.mpr hzero)] at hacts
    exact h.refines_fail _ hperform hacts
  · rw [if_neg hzero, hgo hzero] at hperform
    rw [if_neg (fun hnil => hzero (hempty.mp hnil))] at hacts
    exact h.refines_go (hindex hzero) 0 hperform hacts

lemma Holds.refines_head (h : Holds list ids) : Refines list ids .head := by
  apply h.refines_nonempty 0 _ (fun _ => Nat.zero_le _) rfl
  · intro _
    simp only [linked_list_t.error, moved, h.head, List.head?_eq_getElem?]
  · exact ⟨rfl, rfl⟩

lemma Holds.refines_tail (h : Holds list ids) : Refines list ids .tail := by
  apply h.refines_nonempty (ids.length - 1) _ (fun _ => Nat.sub_le _ _) rfl
  · intro _
    simp only [linked_list_t.error, moved, h.tail, h.count, List.getLast?_eq_getElem?]
  · refine ⟨rfl, ?_⟩
    rw [show ids.length = (list.cursor ids).xs.length from (length_dataOf list ids).symm]

lemma Holds.refines_nextCircular (h : Holds list ids) : Refines list ids .nextCircular := by
  have hcount := h.count
  have hlength := length_dataOf list ids
  by_cases hlast : list.count ≤ list.current_index + 1
  · have hpos : (list.cursor ids).xs.length ≤ (list.cursor ids).pos + 1 := by
      rw [cursor, hlength, ← hcount]
      exact hlast
    apply h.refines_nonempty 0 ((list.moved ids 0).error .LINKED_LIST_ERR_OK)
      (fun _ => Nat.zero_le _) _ (fun _ => rfl)
    · refine ⟨rfl, ?_⟩
      rw [if_pos hpos]
    · rw [perform, linked_list_next_circular, if_pos (show list.count - 1 ≤ _ by omega)]
      simp only [linked_list_t.error, moved, h.head, List.head?_eq_getElem?]
      split_ifs <;> rfl
  · have hpos : ¬ (list.cursor ids).xs.length ≤ (list.cursor ids).pos + 1 := by
      rw [cursor, hlength, ← hcount]
      exact hlast
    apply h.refines_nonempty (list.current_index + 1)
      ((list.moved ids (list.current_index + 1)).error .LINKED_LIST_ERR_OK) (fun _ => by omega) _
      (fun _ => rfl)
    · refine ⟨rfl, ?_⟩
      rw [if_neg hpos]
      rfl
    · have hnext := h.toChain.advance (show list.current_index < ids.length by omega)
      rw [← h.eq_moved] at hnext
      rw [perform, linked_list_next_circular, if_neg (show ¬ list.count - 1 ≤ _ by omega), hnext]
      split_ifs <;> rfl

lemma Holds.refines_prevCircular (h : Holds list ids) : Refines list ids .prevCircular := by
  have hcount := h.count
  have hlength := length_dataOf list ids
  have hindex := h.current_index
  by_cases hstart : list.current_index = 0
  · apply h.refines_nonempty (ids.length - 1)
      ((list.moved ids (ids.length - 1)).error .LINKED_LIST_ERR_OK) (fun _ => Nat.sub_le _ _) _
      (fun _ => rfl)
    · refine ⟨rfl, ?_⟩
      rw [if_pos (show (list.cursor ids).pos = 0 from hstart),
        show ids.length = (list.cursor ids).xs.length from hlength.symm]
    · rw [perform, linked_list_prev_circular, if_pos hstart]
      simp only [linked_list_t.error, moved, h.tail, h.count, List.getLast?_eq_getElem?]
  · apply h.refines_nonempty (list.current_index - 1)
      ((list.moved ids (list.current_index - 1)).error .LINKED_LIST_ERR_OK) (fun _ => by omega) _
      (fun _ => rfl)
    · refine ⟨rfl, ?_⟩
      rw [if_neg (show ¬ (list.cursor ids).pos = 0 from hstart)]
      rfl
    · have hprev := h.toChain.retreat (show list.current_index - 1 < ids.length by omega)
      rw [Nat.sub_add_cancel (by omega), ← h.eq_moved] at hprev
      rw [perform, linked_list_prev_circular, if_neg hstart, hprev]

lemma Holds.out (h : Holds list ids) :
    linked_list_out list = (list.error .LINKED_LIST_ERR_OK).moved ids ids.length := by
  simp only [linked_list_out, linked_list_t.error, moved, h.count,
    List.getElem?_eq_none (le_refl ids.length)]

lemma Holds.refines_out (h : Holds list ids) : Refines list ids .out := by
  apply h.refines_go (le_refl ids.length) 0
  · rw [perform, h.out]
    rfl
  · refine ⟨?_, rfl⟩
    rw [show ids.length = (list.cursor ids).xs.length from (length_dataOf list ids).symm]

lemma Holds.refines_goto (h : Holds list ids) (index : ℤ) : Refines list ids (.goto index) := by
  have hcount := h.count
  have hlength := length_dataOf list ids
  have hcurrent := h.current_index
  by_cases hout : index < 0 ∨ list.count < index
  · apply h.refines_fail .LINKED_LIST_ERR_BOUNDS
    · rw [perform, linked_list_goto, if_pos hout]
    · exact (if_neg (by rw [cursor, hlength, ← hcount]; omega)).mpr ⟨rfl, rfl⟩
  · obtain ⟨k, rfl⟩ : ∃ k : ℕ, index = k := ⟨index.toNat, by omega⟩
    have hk : k ≤ ids.length := by omega
    have hchain := h.toChain.error .LINKED_LIST_ERR_OK
    have hup := hchain.gotoUp hk (list.count + 1) list.current_index (by omega)
    have hdown := hchain.gotoDown (list.count + 1) (max list.current_index k)
      (max_le hcurrent hk) (le_max_right _ _) (by omega)
    apply h.refines_go hk ((list.dataOf ids)[k]?.getD 0)
    · rw [perform, linked_list_goto, if_neg hout, Int.toNat_natCast,
        (h.error .LINKED_LIST_ERR_OK).eq_moved]
      simp only [Option.bind_eq_bind]
      refine (congrArg (fun l => Option.bind l _) hup).trans ?_
      refine (congrArg (fun l => Option.bind l _) hdown).trans ?_
      exact congrArg (fun data => some (_, data)) (hchain.moved hk).currentData
    · refine (if_pos (by rw [cursor, hlength, ← hcount]; omega)).mpr ⟨rfl, ?_⟩
      rw [Int.toNat_natCast]
      rfl

lemma Holds.refines_find (h : Holds list ids) (data : ℕ) : Refines list ids (.find data) := by
  have hcount := h.count
  have hlength := length_dataOf list ids
  have hchain := h.toChain.error .LINKED_LIST_ERR_OK
  have hloop := hchain.findLoop data (list.count + 1) 0 (by omega) (Nat.zero_le _)
  rw [List.drop_zero, Nat.zero_add] at hloop
  have hfirst : { list with
      error_code := .LINKED_LIST_ERR_OK
      current_index := 0
      current := list.head } = (list.error .LINKED_LIST_ERR_OK).moved ids 0 := by
    simp only [linked_list_t.error, moved, h.head, List.head?_eq_getElem?]
  have hle : (list.dataOf ids).idxOf data ≤ ids.length := by
    rw [← hlength]
    exact List.idxOf_le_length
  have hfind : linked_list_find list data =
      (ids[(list.dataOf ids).idxOf data]?).elim
        (some (((list.error .LINKED_LIST_ERR_OK).moved ids
          ((list.dataOf ids).idxOf data)).error .LINKED_LIST_ERR_NOT_FOUND, 0))
        fun _ => some ((list.error .LINKED_LIST_ERR_OK).moved ids
          ((list.dataOf ids).idxOf data), data) := by
    rw [linked_list_find, hfirst, Option.bind_eq_bind]
    refine (congrArg (fun l => Option.bind l _) hloop).trans ?_
    have hcurrent : ((list.error .LINKED_LIST_ERR_OK).moved ids
        (((list.error .LINKED_LIST_ERR_OK).dataOf ids).idxOf data)).current =
          ids[(list.dataOf ids).idxOf data]? := rfl
    rw [Option.bind_some, hcurrent]
    cases ids[(list.dataOf ids).idxOf data]? <;> rfl
  by_cases hmem : data ∈ list.dataOf ids
  · have hlt : (list.dataOf ids).idxOf data < ids.length := by
      rw [← hlength]
      exact List.idxOf_lt_length_of_mem hmem
    apply h.refines_go hle data
    · rw [perform, hfind, List.getElem?_eq_getElem hlt]
      rfl
    · exact (if_pos hmem).mpr ⟨rfl, rfl⟩
  · have hall : (list.dataOf ids).idxOf data = ids.length := by
      rw [← hlength]
      exact List.idxOf_eq_length hmem
    rw [hall, List.getElem?_eq_none (le_refl _)] at hfind
    refine ⟨_, ids, 0, hfind, (hchain.moved (le_refl _)).error _, (if_neg hmem).mpr ⟨?_, rfl⟩⟩
    rw [show (list.cursor ids).xs.length = ids.length from hlength]
    rfl

lemma Holds.refines_insert (h : Holds list ids) (data : ℕ) : Refines list ids (.insert data) := by
  obtain ⟨list', ids', hinsert, h', hdata, hindex, herror⟩ :=
    h.toChain.insert h.current_index data
  rw [← h.eq_moved] at hinsert
  refine ⟨list', ids', 0, by rw [perform, hinsert]; rfl, h', ?_, rfl⟩
  rw [cursor, hdata, hindex, herror]
  rfl

lemma Holds.refines_add (h : Holds list ids) (data : ℕ) : Refines list ids (.add data) := by
  have hlength := length_dataOf list ids
  obtain ⟨list', ids', hinsert, h', hdata, hindex, herror⟩ :=
    (h.toChain.error .LINKED_LIST_ERR_OK).insert (le_refl ids.length) data
  rw [← h.out] at hinsert
  refine ⟨linked_list_out list', ids', 0, ?_, ?_, ?_, rfl⟩
  · rw [perform, linked_list_add, hinsert]
    rfl
  · refine ⟨⟨⟨h'.linked, h'.head, h'.tail⟩, h'.count, h'.allocated⟩, h'.count.le, ?_⟩
    exact (List.getElem?_eq_none h'.count.ge).symm
  · have hcount : list'.count = (list.dataOf ids).length + 1 := by
      rw [h'.count, ← length_dataOf list', hdata]
      exact List.length_insertIdx_of_le_length (by rw [dataOf, List.length_map]) _
    have hat : (list.dataOf ids).insertIdx ids.length data = list.dataOf ids ++ [data] := by
      rw [← hlength, List.insertIdx_length_self]
    show (⟨list'.dataOf ids', list'.count, _⟩ : Cursor) = _
    rw [hdata, hcount]
    exact congrArg (fun xs => (⟨xs, _, _⟩ : Cursor)) hat

lemma Holds.refines_remove (h : Holds list ids) : Refines list ids .remove := by
  have hcount := h.count
  have hlength := length_dataOf list ids
  have hcurrent := h.current_index
  by_cases hend : list.current_index = list.count
  · apply h.refines_fail .LINKED_LIST_ERR_BOUNDS
    · rw [perform, linked_list_remove, if_pos hend]
    · exact (if_pos (by rw [cursor, hlength, ← hcount]; exact hend)).mpr ⟨rfl, rfl⟩
  · obtain ⟨list', ids', hremove, h', hdata, hindex, herror⟩ :=
      h.toChain.remove (show list.current_index < ids.length by omega)
    rw [← h.eq_moved] at hremove
    refine ⟨list', ids', _, hremove, h',
      (if_neg (by rw [cursor, hlength, ← hcount]; exact hend)).mpr ⟨?_, rfl⟩⟩
    rw [cursor, hdata, hindex, herror]
    rfl

lemma Holds.refines_sort (h : Holds list ids) {comp : ℕ → ℕ → ℤ} (hcomp : TotalPreorder comp) :
    Refines list ids (.sort comp) := by
  cases ids with
  | nil =>
    have hzero : list.count = 0 := h.count
    have hindex : list.current_index = 0 := Nat.le_zero.mp h.current_index
    refine ⟨list.error .LINKED_LIST_ERR_OK, [], 0, ?_, h.error _, .refl _, .nil, hindex, rfl, rfl⟩
    rw [perform, linked_list_sort]
    exact congrArg (Option.map (·, 0)) (if_pos hzero)
  | cons first rest =>
    obtain ⟨list', ids', hsort, h', hperm, hsorted, hindex, herror⟩ :=
      h.sort hcomp (Nat.succ_pos _)
    exact ⟨list', ids', 0, by rw [perform, hsort]; rfl, h', hperm, hsorted, hindex, herror, rfl⟩

lemma Holds.perform (h : Holds list ids) (htotal : Total op) : Refines list ids op := by
  have hlength := length_dataOf list ids
  have hsame : list.error .LINKED_LIST_ERR_OK =
      (list.moved ids list.current_index).error .LINKED_LIST_ERR_OK := by rw [← h.eq_moved]
  cases op with
  | current =>
    exact h.refines_go h.current_index _ (congrArg (fun l => some (l, list.current_index)) hsame)
      ⟨rfl, rfl⟩
  | get => exact h.refines_get
  | next => exact h.refines_next
  | prev => exact h.refines_prev
  | nextCircular => exact h.refines_nextCircular
  | prevCircular => exact h.refines_prevCircular
  | head => exact h.refines_head
  | tail => exact h.refines_tail
  | out => exact h.refines_out
  | goto index => exact h.refines_goto index
  | find data => exact h.refines_find data
  | count =>
    exact h.refines_go h.current_index _ (congrArg (fun l => some (l, list.count)) hsame)
      ⟨rfl, h.count.trans hlength.symm⟩
  | isEnd =>
    refine h.refines_go h.current_index _ (congrArg (fun l => some (l, _)) hsame) ⟨rfl, ?_⟩
    rw [cursor, hlength, h.count]
  | insert data => exact h.refines_insert data
  | add data => exact h.refines_add data
  | remove => exact h.refines_remove
  | clear =>
    refine ⟨linked_list_clear list, [], 0, rfl, ⟨⟨⟨linked_nil _ _, rfl, rfl⟩, rfl, ?_⟩, ?_, rfl⟩,
      rfl, rfl⟩
    · intro x hx
      cases hx
    · exact le_refl 0
  | sort comp => exact h.refines_sort htotal

lemma holds_new : Holds {} [] :=
  ⟨⟨⟨linked_nil _ _, rfl, rfl⟩, rfl, fun x hx => by cases hx⟩, le_refl 0, rfl⟩

/-- In every run whose sorts compare by total preorders no null pointer is dereferenced, the list
acts as a sequence with a position does, and its links and its current element stay in step. -/
theorem run_cursorList {ops : List Op} (htotal : ∀ op ∈ ops, Total op) :
    ∃ s ids, run step ops {} = some s ∧ Holds s.list ids ∧
      Cursor.Serves ops (s.list.cursor ids) s.results := by
  induction ops using List.reverseRecOn with
  | nil => exact ⟨{}, [], rfl, holds_new, .new⟩
  | append_singleton ops op ih =>
    obtain ⟨s, ids, hrun, h, hserves⟩ := ih fun op hop => htotal op (List.mem_append_left _ hop)
    obtain ⟨list', ids', result, hperform, h', hacts⟩ :=
      h.perform (htotal op (List.mem_append_right _ List.mem_cons_self))
    refine ⟨⟨list', result :: s.results⟩, ids', ?_, h', hserves.step hacts⟩
    rw [run_append, hrun, Option.bind_some, run_cons, step, hperform]
    rfl

end Runs

section Examples

def inAndOut : List Op :=
  [.add 5, .add 7, .head, .insert 9, .next, .insert 1, .sort (fun x y => (x : ℤ) - y), .find 7,
    .remove, .get, .next, .prevCircular, .goto 1, .get]

theorem run_cursorList_inAndOut : ∃ s ids, run step inAndOut {} = some s ∧ Holds s.list ids ∧
    Cursor.Serves inAndOut (s.list.cursor ids) s.results := by
  have htotal : ∀ op ∈ inAndOut, Total op := by
    intro op hop
    simp only [inAndOut, List.mem_cons, List.not_mem_nil, or_false] at hop
    rcases hop with rfl | rfl | rfl | rfl | rfl | rfl | rfl | rfl | rfl | rfl | rfl | rfl | rfl |
      rfl <;> first | exact trivial | exact totalPreorder_sub
  exact run_cursorList htotal

example : (run step inAndOut {}).map (·.results) =
    some [5, 5, 0, 0, 9, 7, 7, 0, 0, 0, 0, 0, 0, 0] := by
  decide +kernel

end Examples

end OISA.Util.linked_list_t
