import OISA.Lib.Runs
import OISA.Util.HashTable

/-!
# The hash table is a finite map

Keys are equal up to case if the table ignores it, and equal keys have one hash.
-/

namespace OISA.Util.hash_table_t

open OISA.Lib

variable {α : Type} {table table' : hash_table_t α} {key : Key} {elem : hash_table_elem_t α}

section Keys

/-- What the table compares of a key -/
def foldKey (case_sensitive : Bool) (key : Key) : Key :=
  if case_sensitive then key else key.map tolower

lemma str_equal_iff (case_sensitive : Bool) (a b : Key) : str_equal case_sensitive a b = true ↔
    foldKey case_sensitive a = foldKey case_sensitive b := by
  cases case_sensitive with
  | true => exact decide_eq_true_iff
  | false => exact decide_eq_true_iff

lemma index_eq {a b : Key} (h : foldKey table.case_sensitive a = foldKey table.case_sensitive b) :
    hash_table_get_index table a = hash_table_get_index table b := by
  unfold hash_table_get_index
  cases hcase : table.case_sensitive with
  | true =>
    rw [hcase] at h
    rw [show a = b from h]
  | false =>
    rw [hcase] at h
    have hmap : ∀ key : Key, key.foldl (fun (hash : UInt32) c =>
        (hash ^^^ (tolower c).toUInt32) * 16777619) 5381 =
          (key.map tolower).foldl (fun (hash : UInt32) c =>
            (hash ^^^ c.toUInt32) * 16777619) 5381 := by
      intro key
      rw [List.foldl_map]
    simp only [Bool.false_eq_true, if_false]
    rw [hmap a, hmap b, show a.map tolower = b.map tolower from h]

end Keys

section Entries

/-- The elements of all collision lists -/
def entries (table : hash_table_t α) : List (hash_table_elem_t α) :=
  (List.range table.size).flatMap table.elem_vector

def keyOf (table : hash_table_t α) (elem : hash_table_elem_t α) : Key :=
  foldKey table.case_sensitive elem.key

/-- Elements are in the list of their hash, with different keys. -/
structure Valid (table : hash_table_t α) : Prop where
  pos : 0 < table.size
  place : ∀ i < table.size, ∀ elem ∈ table.elem_vector i, hash_table_get_index table elem.key = i
  distinct : (table.entries.map table.keyOf).Nodup
  count : table.count = table.entries.length
  room : table.count ≤ table.size / 2

lemma index_lt (hpos : 0 < table.size) (key : Key) : hash_table_get_index table key < table.size :=
  Nat.mod_lt _ hpos

lemma mem_entries : elem ∈ table.entries ↔ ∃ i < table.size, elem ∈ table.elem_vector i := by
  simp [entries, List.mem_flatMap]

lemma Valid.mem_entries_iff (h : Valid table) :
    elem ∈ table.entries ↔ elem ∈ table.elem_vector (hash_table_get_index table elem.key) := by
  rw [mem_entries]
  constructor
  · rintro ⟨i, hi, hmem⟩
    rw [h.place i hi elem hmem]
    exact hmem
  · intro hmem
    exact ⟨_, index_lt h.pos elem.key, hmem⟩

lemma exists_entries {index : ℕ} (hindex : index < table.size) :
    ∃ pre post, table.entries = pre ++ table.elem_vector index ++ post ∧
      ∀ list, (List.range table.size).flatMap (Function.update table.elem_vector index list) =
        pre ++ list ++ post := by
  obtain ⟨before, after, hrange⟩ := List.append_of_mem (List.mem_range.mpr hindex)
  have hnodup : (before ++ index :: after).Nodup := hrange ▸ List.nodup_range
  rw [List.nodup_middle, List.nodup_cons, List.mem_append, not_or] at hnodup
  have hother : ∀ list (is : List ℕ), index ∉ is →
      is.flatMap (Function.update table.elem_vector index list) =
        is.flatMap table.elem_vector := by
    intro list is hnot
    apply List.flatMap_congr
    intro i hi
    exact Function.update_of_ne (ne_of_mem_of_not_mem hi hnot) _ _
  refine ⟨before.flatMap table.elem_vector, after.flatMap table.elem_vector, ?_, ?_⟩
  · rw [entries, hrange, List.flatMap_append, List.flatMap_cons, List.append_assoc]
  · intro list
    rw [hrange, List.flatMap_append, List.flatMap_cons, hother _ _ hnodup.1.1,
      hother _ _ hnodup.1.2, Function.update_self, List.append_assoc]

lemma Valid.find_eq_some (h : Valid table) (hfind : hash_table_find table key = some elem) :
    elem ∈ table.entries ∧ table.keyOf elem = foldKey table.case_sensitive key := by
  unfold hash_table_find at hfind
  have hfound := List.find?_some hfind
  have hequal := (str_equal_iff _ _ _).mp hfound
  refine ⟨?_, hequal.symm⟩
  rw [h.mem_entries_iff, ← index_eq hequal]
  exact List.mem_of_find?_eq_some hfind

lemma Valid.find_eq_none (h : Valid table) (hfind : hash_table_find table key = none)
    (hmem : elem ∈ table.entries) : table.keyOf elem ≠ foldKey table.case_sensitive key := by
  intro heq
  rw [h.mem_entries_iff, index_eq (show foldKey _ elem.key = foldKey _ key from heq)] at hmem
  have := List.find?_eq_none.mp hfind elem hmem
  exact this ((str_equal_iff _ _ _).mpr heq.symm)

lemma entries_link (hpos : 0 < table.size) (elem : hash_table_elem_t α) :
    (hash_table_link table elem).entries.Perm (elem :: table.entries) := by
  obtain ⟨pre, post, hentries, hupdate⟩ := exists_entries (index_lt hpos elem.key)
  rw [hentries, show (hash_table_link table elem).entries = _ from hupdate _, List.append_assoc,
    List.append_assoc, List.cons_append]
  exact List.perm_middle

lemma place_link (hplace : ∀ i < table.size, ∀ elem ∈ table.elem_vector i,
      hash_table_get_index table elem.key = i) (elem : hash_table_elem_t α) :
    ∀ i < (hash_table_link table elem).size, ∀ x ∈ (hash_table_link table elem).elem_vector i,
      hash_table_get_index (hash_table_link table elem) x.key = i := by
  intro i hi x hx
  unfold hash_table_link at hx
  dsimp only at hx
  by_cases hat : i = hash_table_get_index table elem.key
  · rw [hat, Function.update_self, List.mem_cons] at hx
    cases hx with
    | inl heq =>
      rw [heq, hat]
      rfl
    | inr hmem =>
      rw [hat] at hi ⊢
      exact hplace _ hi x hmem
  · rw [Function.update_of_ne hat] at hx
    exact hplace i hi x hx

lemma link_all (elems : List (hash_table_elem_t α)) (hpos : 0 < table.size)
    (hplace : ∀ i < table.size, ∀ elem ∈ table.elem_vector i,
      hash_table_get_index table elem.key = i) :
    ∃ vector, elems.foldl hash_table_link table = { table with elem_vector := vector } ∧
      (elems.foldl hash_table_link table).entries.Perm (elems ++ table.entries) ∧
      ∀ i < table.size, ∀ elem ∈ vector i, hash_table_get_index table elem.key = i := by
  induction elems generalizing table with
  | nil => exact ⟨table.elem_vector, rfl, .refl _, hplace⟩
  | cons elem elems ih =>
    obtain ⟨vector, heq, hperm, hplace'⟩ :=
      ih (show 0 < (hash_table_link table elem).size from hpos) (place_link hplace elem)
    refine ⟨vector, heq, ?_, hplace'⟩
    rw [List.foldl_cons]
    refine hperm.trans (((entries_link hpos elem).append_left elems).trans ?_)
    exact List.perm_middle

lemma Valid.grow (h : Valid table) (hgrow : hash_table_grow table = some table') :
    Valid table' ∧ table'.entries.Perm table.entries ∧
      table'.case_sensitive = table.case_sensitive ∧ table'.size = table.size * 2 ∧
      table'.count = table.count := by
  unfold hash_table_grow at hgrow
  split_ifs at hgrow
  obtain rfl := Option.some.inj hgrow
  have hpos : 0 < (hash_table_double table).size := Nat.mul_pos h.pos (by decide)
  obtain ⟨vector, heq, hperm, hplace⟩ := link_all table.entries hpos
    (fun i _ elem hmem => by cases hmem)
  have hempty : (hash_table_double table).entries = [] := by
    simp [entries, hash_table_double]
  rw [hempty, List.append_nil] at hperm
  have hroom := h.room
  rw [← List.foldl_flatMap, show (List.range table.size).flatMap table.elem_vector = table.entries
    from rfl]
  rw [heq] at hperm ⊢
  refine ⟨⟨hpos, hplace, ?_, ?_, ?_⟩, hperm, rfl, rfl, rfl⟩
  · exact (hperm.map _).nodup_iff.mpr h.distinct
  · exact h.count.trans hperm.length_eq.symm
  · simp only [hash_table_double]
    omega

lemma Valid.add (h : Valid table) (hroom : table.count < table.size / 2)
    (hfind : hash_table_find table key = none) (data : α) :
    ∃ table', hash_table_add table key data = some (table', true) ∧ Valid table' ∧
      table'.entries.Perm (⟨key, data⟩ :: table.entries) ∧
      table'.case_sensitive = table.case_sensitive ∧ table'.size = table.size ∧
      table'.count = table.count + 1 := by
  have hperm := entries_link h.pos ⟨key, data⟩
  have hassert : table.count + 1 < table.size := by omega
  refine ⟨{ hash_table_link table ⟨key, data⟩ with count := table.count + 1 }, ?_,
    ⟨h.pos, place_link h.place _, ?_, ?_, hroom⟩, hperm, rfl, rfl, rfl⟩
  · rw [hash_table_add, hfind]
    exact if_pos hassert
  · refine (hperm.map _).nodup_iff.mpr ?_
    rw [List.map_cons, List.nodup_cons]
    refine ⟨?_, h.distinct⟩
    intro hmem
    obtain ⟨elem, hmem, heq⟩ := List.mem_map.mp hmem
    exact h.find_eq_none hfind hmem heq
  · exact (congrArg (· + 1) h.count).trans hperm.length_eq.symm

/-- An insertion that needs no growth or has room for it -/
lemma Valid.insert (h : Valid table) (key : Key) (data : α)
    (hsize : table.count < table.size / 2 ∨ table.size * 2 < 2 ^ 31) :
    ∃ table' success, hash_table_insert table key (some data) = some (table', success) ∧
      Valid table' ∧ table'.case_sensitive = table.case_sensitive ∧
      table'.size = (if table.size / 2 ≤ table.count then table.size * 2 else table.size) ∧
      (∀ elem ∈ table'.entries, elem = ⟨key, data⟩ ∨ elem ∈ table.entries) ∧
      ((∀ elem ∈ table.entries, table.keyOf elem ≠ foldKey table.case_sensitive key) →
        table'.count = table.count + 1 ∧
        table'.entries.Perm (⟨key, data⟩ :: table.entries)) := by
  obtain ⟨grown, hgrown, hvalid, hperm, hcase, hgrownSize, hcount, hroom⟩ : ∃ grown,
      hash_table_insert table key (some data) = hash_table_add grown key data ∧ Valid grown ∧
        grown.entries.Perm table.entries ∧ grown.case_sensitive = table.case_sensitive ∧
        grown.size = (if table.size / 2 ≤ table.count then table.size * 2 else table.size) ∧
        grown.count = table.count ∧ grown.count < grown.size / 2 := by
    have hvalid : Valid { table with find_op := false } :=
      ⟨h.pos, h.place, h.distinct, h.count, h.room⟩
    by_cases hfull : table.size / 2 ≤ table.count
    · obtain ⟨grown, hgrow⟩ : ∃ grown,
          hash_table_grow { table with find_op := false } = some grown :=
        ⟨_, if_neg (by simp only; omega)⟩
      obtain ⟨hvalid', hperm, hcase, hdouble, hcount⟩ := hvalid.grow hgrow
      have hdouble : grown.size = table.size * 2 := hdouble
      have hcount : grown.count = table.count := hcount
      have hroom := h.room
      have hpos := h.pos
      refine ⟨grown, ?_, hvalid', hperm, hcase, ?_, hcount, by omega⟩
      · simp only [hash_table_insert, if_pos hfull, hgrow, Option.bind_some]
      · rw [if_pos hfull, hdouble]
    · refine ⟨{ table with find_op := false }, ?_, hvalid, .refl _, rfl, ?_, rfl,
        not_le.mp hfull⟩
      · simp only [hash_table_insert, if_neg hfull]
      · rw [if_neg hfull]
  rw [hgrown]
  have hkey : grown.keyOf = table.keyOf := by
    funext elem
    rw [keyOf, keyOf, hcase]
  cases hfind : hash_table_find grown key with
  | some elem =>
    refine ⟨grown, false, ?_, hvalid, hcase, hgrownSize, ?_, ?_⟩
    · rw [hash_table_add, hfind]
      rfl
    · intro x hx
      exact Or.inr (hperm.mem_iff.mp hx)
    · intro hfresh
      obtain ⟨hmem, heq⟩ := hvalid.find_eq_some hfind
      rw [hkey, hcase] at heq
      exact absurd heq (hfresh elem (hperm.mem_iff.mp hmem))
  | none =>
    obtain ⟨table', hadd, hvalid', hperm', hcase', hsize', hcount'⟩ :=
      hvalid.add hroom hfind data
    refine ⟨table', true, hadd, hvalid', hcase'.trans hcase, hsize'.trans hgrownSize, ?_, ?_⟩
    · intro x hx
      cases List.mem_cons.mp (hperm'.mem_iff.mp hx) with
      | inl heq => exact Or.inl heq
      | inr hmem => exact Or.inr (hperm.mem_iff.mp hmem)
    · intro _
      exact ⟨by rw [hcount', hcount], hperm'.trans (hperm.cons _)⟩

end Entries

section Maps

variable {m : Key → Option α}

structure Holds (table : hash_table_t α) (m : Key → Option α) : Prop where
  valid : Valid table
  entry : ∀ key data, m key = some data ↔
    ∃ elem ∈ table.entries, table.keyOf elem = key ∧ elem.data = data

lemma Holds.find (h : Holds table m) (key : Key) :
    (hash_table_find table key).map (·.data) = m (foldKey table.case_sensitive key) := by
  cases hfind : hash_table_find table key with
  | some elem =>
    obtain ⟨hmem, hkey⟩ := h.valid.find_eq_some hfind
    exact ((h.entry _ _).mpr ⟨elem, hmem, hkey, rfl⟩).symm
  | none =>
    cases hm : m (foldKey table.case_sensitive key) with
    | none => rfl
    | some data =>
      obtain ⟨elem, hmem, hkey, -⟩ := (h.entry _ _).mp hm
      exact absurd hkey (h.valid.find_eq_none hfind hmem)

lemma Holds.of_perm (h : Holds table m) (hvalid : Valid table')
    (hcase : table'.case_sensitive = table.case_sensitive)
    (hentries : table'.entries.Perm table.entries) : Holds table' m := by
  have hkey : table'.keyOf = table.keyOf := by
    funext elem
    rw [keyOf, keyOf, hcase]
  refine ⟨hvalid, ?_⟩
  intro key data
  rw [h.entry, hkey]
  simp only [hentries.mem_iff]

lemma Holds.grow (h : Holds table m) (hgrow : hash_table_grow table = some table') :
    Holds table' m ∧ table'.case_sensitive = table.case_sensitive ∧
      table'.size = table.size * 2 ∧ table'.count = table.count := by
  obtain ⟨hvalid, hperm, hcase, hsame⟩ := h.valid.grow hgrow
  exact ⟨h.of_perm hvalid hcase hperm, hcase, hsame⟩

lemma Holds.add (h : Holds table m) (hroom : table.count < table.size / 2) (key : Key) (data : α) :
    ∃ table', hash_table_add table key data =
        some (table', (m (foldKey table.case_sensitive key)).isNone) ∧
      table'.case_sensitive = table.case_sensitive ∧
      Holds table' (if (m (foldKey table.case_sensitive key)).isSome then m
        else Function.update m (foldKey table.case_sensitive key) (some data)) := by
  rw [← h.find]
  cases hfind : hash_table_find table key with
  | some elem =>
    refine ⟨table, ?_, rfl, h⟩
    rw [hash_table_add, hfind]
    rfl
  | none =>
    obtain ⟨table', hadd, hvalid, hperm, hcase, -⟩ := h.valid.add hroom hfind data
    refine ⟨table', hadd, hcase, hvalid, ?_⟩
    intro k d
    have hkey : table'.keyOf = table.keyOf := by
      funext elem
      rw [keyOf, keyOf, hcase]
    show Function.update m (foldKey table.case_sensitive key) (some data) k = some d ↔
      ∃ elem ∈ table'.entries, table'.keyOf elem = k ∧ elem.data = d
    simp only [hkey, hperm.mem_iff, List.mem_cons, exists_eq_or_imp]
    by_cases hk : k = foldKey table.case_sensitive key
    · subst hk
      rw [Function.update_self]
      constructor
      · intro heq
        exact Or.inl ⟨rfl, Option.some.inj heq⟩
      · rintro (⟨-, rfl⟩ | ⟨elem, hmem, heq, -⟩)
        · rfl
        · exact absurd heq (h.valid.find_eq_none hfind hmem)
    · rw [Function.update_of_ne hk, h.entry]
      constructor
      · exact Or.inr
      · rintro (⟨heq, -⟩ | hold)
        · exact absurd heq.symm hk
        · exact hold

lemma Holds.cursor (h : Holds table m) (find_op : Bool) (find_index : ℕ)
    (find_elem : Option ℕ) : Holds { table with
      find_op := find_op
      find_index := find_index
      find_elem := find_elem } m :=
  ⟨⟨h.valid.pos, h.valid.place, h.valid.distinct, h.valid.count, h.valid.room⟩, h.entry⟩

def mapInsert (m : Key → Option α) (key : Key) : Option α → Key → Option α
  | none => m
  | some data => if (m key).isSome then m else Function.update m key (some data)

lemma Holds.insert (h : Holds table m) (key : Key) (data : Option α) :
    (hash_table_insert table key data = none ∧ 2 ^ 31 ≤ table.size * 2) ∨
    ∃ table', hash_table_insert table key data =
        some (table', data.isSome && (m (foldKey table.case_sensitive key)).isNone) ∧
      table'.case_sensitive = table.case_sensitive ∧
      Holds table' (mapInsert m (foldKey table.case_sensitive key) data) := by
  have h' : Holds { table with find_op := false } m := h.cursor false _ _
  cases data with
  | none => exact Or.inr ⟨_, rfl, rfl, h'⟩
  | some data =>
    by_cases hfull : table.size / 2 ≤ table.count
    · by_cases hsize : 2 ^ 31 ≤ table.size * 2
      · have hgrow : hash_table_grow { table with find_op := false } = none := if_pos hsize
        refine Or.inl ⟨?_, hsize⟩
        simp only [hash_table_insert, if_pos hfull, hgrow, Option.bind_none]
      · obtain ⟨grown, hgrow⟩ : ∃ grown,
            hash_table_grow { table with find_op := false } = some grown :=
          ⟨_, if_neg hsize⟩
        obtain ⟨hgrown, hcase, hdouble, hcount⟩ := h'.grow hgrow
        have hroom : grown.count < grown.size / 2 := by
          have := h.valid.room
          have := h.valid.pos
          rw [hcount, hdouble]
          simp only
          omega
        obtain ⟨table', hadd, hcase', hholds⟩ := hgrown.add hroom key data
        rw [hcase] at hadd hcase' hholds
        refine Or.inr ⟨table', ?_, hcase', hholds⟩
        simp only [hash_table_insert, if_pos hfull, hgrow, Option.bind_some, hadd]
        rfl
    · obtain ⟨table', hadd, hcase, hholds⟩ := h'.add (not_le.mp hfull) key data
      refine Or.inr ⟨table', ?_, hcase, hholds⟩
      simp only [hash_table_insert, if_neg hfull, hadd]
      rfl

lemma str_equal_comm (case_sensitive : Bool) (a b : Key) :
    str_equal case_sensitive a b = str_equal case_sensitive b a := by
  rw [Bool.eq_iff_iff, str_equal_iff, str_equal_iff, eq_comm]

lemma setData_append {p : hash_table_elem_t α → Bool} {before after : List (hash_table_elem_t α)}
    (hbefore : ∀ x ∈ before, ¬ p x) (helem : p elem) (data : α) :
    setData p data (before ++ elem :: after) = before ++ { elem with data := data } :: after := by
  induction before with
  | nil => exact if_pos helem
  | cons x before ih =>
    rw [List.cons_append, setData, if_neg (hbefore x List.mem_cons_self),
      ih fun y hy => hbefore y (List.mem_cons_of_mem x hy), List.cons_append]

lemma Valid.split (h : Valid table) (hfind : hash_table_find table key = some elem) :
    ∃ before after, table.entries = before ++ elem :: after ∧
      (∀ data, (List.range table.size).flatMap (Function.update table.elem_vector
        (hash_table_get_index table key)
        (setData (fun x => str_equal table.case_sensitive key x.key) data
          (table.elem_vector (hash_table_get_index table key)))) =
        before ++ { elem with data := data } :: after) ∧
      (List.range table.size).flatMap (Function.update table.elem_vector
        (hash_table_get_index table key)
        ((table.elem_vector (hash_table_get_index table key)).eraseP
          fun x => str_equal table.case_sensitive key x.key)) = before ++ after := by
  obtain ⟨helem, first, rest, hlist, hfirst⟩ := List.find?_eq_some_iff_append.mp hfind
  have hnot : ∀ x ∈ first, ¬ str_equal table.case_sensitive key x.key = true := by
    intro x hx
    simpa using hfirst x hx
  obtain ⟨pre, post, hentries, hupdate⟩ := exists_entries (index_lt h.pos key)
  refine ⟨pre ++ first, rest ++ post, ?_, ?_, ?_⟩
  · rw [hentries, hlist]
    simp
  · intro data
    rw [hupdate, hlist, setData_append hnot helem]
    simp
  · have herase : (elem :: rest).eraseP
        (fun x => str_equal table.case_sensitive key x.key) = rest :=
      List.eraseP_cons_of_pos helem
    rw [hupdate, hlist, List.eraseP_append_right _ hnot, herase]
    simp

lemma Valid.other_keys (h : Valid table) {before after : List (hash_table_elem_t α)}
    (hentries : table.entries = before ++ elem :: after) {x : hash_table_elem_t α}
    (hx : x ∈ before ++ after) : table.keyOf x ≠ table.keyOf elem := by
  have hdistinct := h.distinct
  rw [hentries, List.map_append, List.map_cons, List.nodup_middle, List.nodup_cons,
    ← List.map_append] at hdistinct
  intro heq
  exact hdistinct.1 (heq ▸ List.mem_map_of_mem hx)

lemma Valid.place_update (h : Valid table) (key : Key) {list : List (hash_table_elem_t α)}
    (hlist : ∀ x ∈ list, ∃ y ∈ table.elem_vector (hash_table_get_index table key), x.key = y.key) :
    ∀ i < table.size,
      ∀ x ∈ Function.update table.elem_vector (hash_table_get_index table key) list i,
      hash_table_get_index table x.key = i := by
  intro i hi x hx
  by_cases hat : i = hash_table_get_index table key
  · rw [hat, Function.update_self] at hx
    obtain ⟨y, hy, hkey⟩ := hlist x hx
    rw [hkey, hat]
    exact h.place _ (index_lt h.pos key) y hy
  · rw [Function.update_of_ne hat] at hx
    exact h.place i hi x hx

lemma mem_setData {p : hash_table_elem_t α → Bool} {data : α} {list : List (hash_table_elem_t α)}
    {x : hash_table_elem_t α} (hx : x ∈ setData p data list) : ∃ y ∈ list, x.key = y.key := by
  induction list with
  | nil => cases hx
  | cons y list ih =>
    rw [setData] at hx
    split_ifs at hx
    · cases List.mem_cons.mp hx with
      | inl heq => exact ⟨y, List.mem_cons_self, by rw [heq]⟩
      | inr hmem => exact ⟨x, List.mem_cons_of_mem y hmem, rfl⟩
    · cases List.mem_cons.mp hx with
      | inl heq => exact ⟨y, List.mem_cons_self, by rw [heq]⟩
      | inr hmem =>
        obtain ⟨z, hz, hkey⟩ := ih hmem
        exact ⟨z, List.mem_cons_of_mem y hz, hkey⟩

lemma exists_mem_middle {P : hash_table_elem_t α → Prop}
    {before after : List (hash_table_elem_t α)} :
    (∃ x ∈ before ++ elem :: after, P x) ↔ P elem ∨ ∃ x ∈ before ++ after, P x := by
  simp only [List.perm_middle.mem_iff, List.mem_cons, exists_eq_or_imp]

lemma Holds.entry_other (h : Holds table m) {before after : List (hash_table_elem_t α)}
    (hentries : table.entries = before ++ elem :: after) {k : Key} (hk : k ≠ table.keyOf elem)
    (d : α) : m k = some d ↔ ∃ x ∈ before ++ after, table.keyOf x = k ∧ x.data = d := by
  rw [h.entry, hentries, exists_mem_middle]
  constructor
  · rintro (⟨heq, -⟩ | hother)
    · exact absurd heq.symm hk
    · exact hother
  · exact Or.inr

def mapSet (m : Key → Option α) (key : Key) : Option α → Key → Option α
  | none => m
  | some data => if (m key).isNone then m else Function.update m key (some data)

lemma Holds.set (h : Holds table m) (key : Key) (data : Option α) :
    ∃ table', hash_table_set table key data =
        (table', data.isSome && (m (foldKey table.case_sensitive key)).isSome) ∧
      table'.case_sensitive = table.case_sensitive ∧
      Holds table' (mapSet m (foldKey table.case_sensitive key) data) := by
  cases data with
  | none => exact ⟨table, rfl, rfl, h⟩
  | some data =>
    rw [hash_table_set, mapSet, ← h.find]
    cases hfind : hash_table_find table key with
    | none => exact ⟨table, rfl, rfl, h⟩
    | some elem =>
      obtain ⟨-, hkey⟩ := h.valid.find_eq_some hfind
      obtain ⟨before, after, hentries, hset, -⟩ := h.valid.split hfind
      have hset := hset data
      have hdistinct := h.valid.distinct
      have hcount := h.valid.count
      rw [hentries] at hdistinct hcount
      refine ⟨_, rfl, rfl, ⟨h.valid.pos, ?_, ?_, ?_, h.valid.room⟩, ?_⟩
      · exact h.valid.place_update key fun x hx => mem_setData hx
      · rw [entries, hset, List.map_append, List.map_cons]
        rwa [List.map_append, List.map_cons] at hdistinct
      · rw [entries, hset]
        simpa using hcount
      · intro k d
        rw [entries, hset]
        show Function.update m (foldKey table.case_sensitive key) (some data) k = some d ↔
          ∃ x ∈ before ++ { elem with data := data } :: after, table.keyOf x = k ∧ x.data = d
        rw [exists_mem_middle]
        by_cases hk : k = foldKey table.case_sensitive key
        · rw [hk, Function.update_self]
          constructor
          · intro heq
            exact Or.inl ⟨hkey, Option.some.inj heq⟩
          · rintro (⟨-, rfl⟩ | ⟨x, hx, heq, -⟩)
            · rfl
            · exact absurd (heq.trans hkey.symm) (h.valid.other_keys hentries hx)
        · rw [Function.update_of_ne hk, h.entry_other hentries (hkey ▸ hk)]
          constructor
          · exact Or.inr
          · rintro (⟨heq, -⟩ | hother)
            · exact absurd (heq.symm.trans hkey) hk
            · exact hother

lemma Holds.remove (h : Holds table m) (key : Key) :
    ∃ table', hash_table_remove table key =
        some (table', m (foldKey table.case_sensitive key)) ∧
      table'.case_sensitive = table.case_sensitive ∧
      Holds table' (Function.update m (foldKey table.case_sensitive key) none) := by
  have hswap : (fun elem : hash_table_elem_t α => str_equal table.case_sensitive elem.key key) =
      fun elem => str_equal table.case_sensitive key elem.key := by
    funext elem
    exact str_equal_comm _ _ _
  have hindex : hash_table_get_index { table with find_op := false } key =
      hash_table_get_index table key := rfl
  rw [hash_table_remove, ← h.find]
  simp only [hswap, hindex]
  cases hfind : hash_table_find table key with
  | none =>
    rw [show List.find? _ _ = none from hfind]
    refine ⟨_, rfl, rfl, ?_⟩
    have hnone : m (foldKey table.case_sensitive key) = none := by
      rw [← h.find, hfind]
      rfl
    rw [← hnone, Function.update_eq_self]
    exact h.cursor false _ _
  | some elem =>
    rw [show List.find? _ _ = some elem from hfind]
    obtain ⟨hmem, hkey⟩ := h.valid.find_eq_some hfind
    obtain ⟨before, after, hentries, -, herase⟩ := h.valid.split hfind
    have hdistinct := h.valid.distinct
    have hcount := h.valid.count
    have hpos : 0 < table.count := by
      rw [hcount]
      exact List.length_pos_of_mem hmem
    rw [hentries] at hdistinct hcount
    refine ⟨_, if_pos hpos, rfl, ⟨h.valid.pos, ?_, ?_, ?_, ?_⟩, ?_⟩
    · exact h.valid.place_update key fun x hx => ⟨x, List.mem_of_mem_eraseP hx, rfl⟩
    · rw [entries, herase]
      rw [List.map_append, List.map_cons, List.nodup_middle, List.nodup_cons] at hdistinct
      rw [List.map_append]
      exact hdistinct.2
    · rw [entries, herase]
      simp only [List.length_append, List.length_cons] at hcount ⊢
      omega
    · exact (Nat.sub_le _ _).trans h.valid.room
    · intro k d
      rw [entries, herase]
      show Function.update m (foldKey table.case_sensitive key) none k = some d ↔
        ∃ x ∈ before ++ after, table.keyOf x = k ∧ x.data = d
      by_cases hk : k = foldKey table.case_sensitive key
      · rw [hk, Function.update_self]
        constructor
        · intro heq
          cases heq
        · rintro ⟨x, hx, heq, -⟩
          exact absurd (heq.trans hkey.symm) (h.valid.other_keys hentries hx)
      · rw [Function.update_of_ne hk, h.entry_other hentries (hkey ▸ hk)]

lemma entries_nil (hnil : ∀ i < table.size, table.elem_vector i = []) : table.entries = [] := by
  rw [entries, List.flatMap_eq_nil_iff]
  intro i hi
  exact hnil i (List.mem_range.mp hi)

lemma holds_empty (hpos : 0 < table.size) (hcount : table.count = 0)
    (hnil : ∀ i < table.size, table.elem_vector i = []) : Holds table (fun _ => none) := by
  have hentries := entries_nil hnil
  refine ⟨⟨hpos, ?_, ?_, ?_, by omega⟩, ?_⟩
  · intro i hi x hx
    rw [hnil i hi] at hx
    cases hx
  · rw [hentries]
    exact List.nodup_nil
  · rw [hentries, hcount]
    rfl
  · intro k d
    rw [hentries]
    constructor
    · intro heq
      cases heq
    · rintro ⟨x, hx, -⟩
      cases hx

end Maps

section Enumeration

def entriesFrom (table : hash_table_t α) (index : ℕ) : List (hash_table_elem_t α) :=
  (List.range' index (table.size - index)).flatMap table.elem_vector

lemma entriesFrom_zero (table : hash_table_t α) : table.entriesFrom 0 = table.entries := by
  rw [entriesFrom, entries, Nat.sub_zero, List.range_eq_range']

lemma nextList_spec (table : hash_table_t α) (index : ℕ) :
    nextList table index = none ∧ table.entriesFrom index = [] ∨
    ∃ i elem rest, nextList table index = some (i, elem) ∧ table.elem_vector i = elem :: rest ∧
      table.entriesFrom index = elem :: (rest ++ table.entriesFrom (i + 1)) := by
  generalize hn : table.size - index = n
  induction n generalizing index with
  | zero => exact Or.inl ⟨by rw [nextList, hn]; rfl, by rw [entriesFrom, hn]; rfl⟩
  | succ n ih =>
    have hrest : table.size - (index + 1) = n := by omega
    have hnext : nextList table index =
        ((table.elem_vector index).head?.map fun elem => (index, elem)).or
          (nextList table (index + 1)) := by
      rw [nextList, nextList, hn, hrest, List.range'_succ, List.findSome?_cons]
      cases (table.elem_vector index).head? with
      | none => rfl
      | some elem => rfl
    have hentries : table.entriesFrom index =
        table.elem_vector index ++ table.entriesFrom (index + 1) := by
      rw [entriesFrom, entriesFrom, hn, hrest, List.range'_succ, List.flatMap_cons]
    cases hlist : table.elem_vector index with
    | nil =>
      rw [hnext, hentries, hlist]
      exact ih (index + 1) hrest
    | cons elem rest =>
      refine Or.inr ⟨index, elem, rest, ?_, hlist, ?_⟩
      · rw [hnext, hlist]
        rfl
      · rw [hentries, hlist, List.cons_append]

/-- After an element the enumeration visits the rest of its list and the lists after it. -/
lemma forEachNext_spec (steps : ℕ) (table : hash_table_t α) (hop : table.find_op = true) {pos : ℕ}
    (hpos : table.find_elem = some pos)
    (hsteps : ((table.elem_vector table.find_index).drop (pos + 1) ++
      table.entriesFrom (table.find_index + 1)).length < steps) :
    forEachNext steps table = some ((table.elem_vector table.find_index).drop (pos + 1) ++
      table.entriesFrom (table.find_index + 1)) := by
  induction steps generalizing table pos with
  | zero => omega
  | succ steps ih =>
    cases hat : (table.elem_vector table.find_index)[pos + 1]? with
    | some elem =>
      have hnext : hash_table_find_next table =
          some ({ table with find_elem := some (pos + 1) }, some elem) := by
        simp only [hash_table_find_next, hop, hpos, hat, if_true]
      have hdrop : (table.elem_vector table.find_index).drop (pos + 1) =
          elem :: (table.elem_vector table.find_index).drop (pos + 1 + 1) := by
        obtain ⟨hlt, rfl⟩ := List.getElem?_eq_some_iff.mp hat
        exact List.drop_eq_getElem_cons hlt
      rw [hdrop, List.cons_append, List.length_cons] at hsteps
      have hrest := ih { table with find_elem := some (pos + 1) } hop rfl
        (by simp only [entriesFrom] at hsteps ⊢; omega)
      rw [forEachNext, hnext, hdrop, List.cons_append]
      simp only [Option.bind_eq_bind, Option.bind_some, hrest]
      rfl
    | none =>
      have hdrop : (table.elem_vector table.find_index).drop (pos + 1) = [] :=
        List.drop_eq_nil_of_le (List.getElem?_eq_none_iff.mp hat)
      rw [hdrop, List.nil_append] at hsteps ⊢
      cases nextList_spec table (table.find_index + 1) with
      | inl hnone =>
        have hnext : hash_table_find_next table = some ({ table with
            find_index := 0
            find_elem := none }, none) := by
          simp only [hash_table_find_next, hop, hpos, hat, if_true, hnone.1]
        rw [forEachNext, hnext, hnone.2]
        rfl
      | inr hsome =>
        obtain ⟨i, elem, rest, hlist, hvector, hentries⟩ := hsome
        have hnext : hash_table_find_next table = some ({ table with
            find_index := i
            find_elem := some 0 }, some elem) := by
          simp only [hash_table_find_next, hop, hpos, hat, if_true, hlist]
        rw [hentries, List.length_cons] at hsteps
        have hrest := ih { table with
          find_index := i
          find_elem := some 0 } hop rfl
          (by
            simp only [hvector, List.drop_succ_cons, List.drop_zero, entriesFrom] at hsteps ⊢
            omega)
        rw [forEachNext, hnext, hentries]
        simp only [Option.bind_eq_bind, Option.bind_some, hrest, hvector]
        rfl

lemma Valid.forEach (h : Valid table) :
    forEach (table.count + 1) table = some table.entries := by
  rw [h.count, ← entriesFrom_zero, Util.forEach, hash_table_find_first]
  by_cases hcount : table.count = 0
  · have hentries : table.entriesFrom 0 = [] := by
      rw [entriesFrom_zero, ← List.length_eq_zero_iff, ← h.count, hcount]
    simp only [hcount, if_true, hentries]
    rfl
  · cases nextList_spec table 0 with
    | inl hnone =>
      have := h.count
      rw [← entriesFrom_zero, hnone.2] at this
      exact absurd this hcount
    | inr hsome =>
      obtain ⟨i, elem, rest, hlist, hvector, hentries⟩ := hsome
      have hlist' : nextList { table with
          find_op := true
          find_index := 0
          find_elem := none } 0 = some (i, elem) := hlist
      have hrest := forEachNext_spec ((table.entriesFrom 0).length + 1) { table with
          find_op := true
          find_index := i
          find_elem := some 0 } rfl rfl
        (by
          rw [hentries, List.length_cons]
          simp only [hvector, List.drop_succ_cons, List.drop_zero, entriesFrom]
          omega)
      simp only [if_neg hcount, hlist', Option.bind_eq_bind, Option.bind_some]
      rw [hrest, Option.map_some, hentries]
      simp only [hvector, List.drop_succ_cons, List.drop_zero]
      rfl

end Enumeration

section Runs

abbrev Spec (α : Type) := (Key → Option α) × List (Result α)

/-- The operations on a finite map -/
def mapStep (case_sensitive : Bool) (s : Spec α) : Op α → Spec α
  | .insert key data => (mapInsert s.1 (foldKey case_sensitive key) data,
      .flag (data.isSome && (s.1 (foldKey case_sensitive key)).isNone) :: s.2)
  | .set key data => (mapSet s.1 (foldKey case_sensitive key) data,
      .flag (data.isSome && (s.1 (foldKey case_sensitive key)).isSome) :: s.2)
  | .get key => (s.1, .data (s.1 (foldKey case_sensitive key)) :: s.2)
  | .remove key => (Function.update s.1 (foldKey case_sensitive key) none,
      .data (s.1 (foldKey case_sensitive key)) :: s.2)
  | .clear => (fun _ => none, s.2)
  | .findFirst | .findNext => s

/-- A new table -/
def new (α : Type) (size : ℕ) (case_sensitive : Bool) : Log α :=
  { table := hash_table_create α size case_sensitive }

/-- What stops an operation -/
def Stops (op : Op α) (table : hash_table_t α) : Prop :=
  match op with
  | .insert _ _ => 2 ^ 31 ≤ table.size * 2
  | .findNext => table.find_op = false
  | _ => False

lemma Holds.find_first {m : Key → Option α} (h : Holds table m) :
    ∃ table' found, hash_table_find_first table = some (table', found) ∧
      table'.case_sensitive = table.case_sensitive ∧ Holds table' m := by
  rw [hash_table_find_first]
  by_cases hcount : table.count = 0
  · exact ⟨_, _, if_pos hcount, rfl, h.cursor _ _ _⟩
  · have hlist : nextList { table with
        find_op := true
        find_index := 0
        find_elem := none } 0 = nextList table 0 := rfl
    simp only [if_neg hcount, hlist]
    cases nextList_spec table 0 with
    | inl hnone =>
      have := h.valid.count
      rw [← entriesFrom_zero, hnone.2] at this
      exact absurd this hcount
    | inr hsome =>
      obtain ⟨i, elem, rest, hlist, -⟩ := hsome
      rw [hlist]
      exact ⟨_, _, rfl, rfl, h.cursor _ _ _⟩

lemma Holds.find_next {m : Key → Option α} (h : Holds table m) (hop : table.find_op = true) :
    ∃ table' found, hash_table_find_next table = some (table', found) ∧
      table'.case_sensitive = table.case_sensitive ∧ Holds table' m := by
  rw [hash_table_find_next, if_pos hop]
  cases table.find_elem with
  | none => exact ⟨_, _, rfl, rfl, h⟩
  | some pos =>
    simp only
    cases (table.elem_vector table.find_index)[pos + 1]? with
    | some elem => exact ⟨_, _, rfl, rfl, h.cursor _ _ _⟩
    | none =>
      simp only
      cases nextList table (table.find_index + 1) with
      | none => exact ⟨_, _, rfl, rfl, h.cursor _ _ _⟩
      | some found => exact ⟨_, _, rfl, rfl, h.cursor _ _ _⟩

lemma Holds.perform {s : Log α} {m : Key → Option α} (h : Holds s.table m) (op : Op α) :
    (perform op s = none ∧ Stops op s.table) ∨
    ∃ s', perform op s = some s' ∧ s'.table.case_sensitive = s.table.case_sensitive ∧
      Holds s'.table (mapStep s.table.case_sensitive (m, s.results) op).1 ∧
      s'.results = (mapStep s.table.case_sensitive (m, s.results) op).2 := by
  cases op with
  | insert key data =>
    cases h.insert key data with
    | inl hnone =>
      refine Or.inl ⟨?_, hnone.2⟩
      rw [hash_table_t.perform, hnone.1]
      rfl
    | inr hsome =>
      obtain ⟨table', hinsert, hcase, hholds⟩ := hsome
      refine Or.inr ⟨⟨table', _⟩, ?_, hcase, hholds, rfl⟩
      rw [hash_table_t.perform, hinsert]
      rfl
  | set key data =>
    obtain ⟨table', hset, hcase, hholds⟩ := h.set key data
    refine Or.inr ⟨⟨table', _⟩, ?_, hcase, hholds, rfl⟩
    rw [hash_table_t.perform, hset]
    rfl
  | get key =>
    refine Or.inr ⟨_, rfl, rfl, h, ?_⟩
    show Result.data ((hash_table_find s.table key).map (·.data)) :: s.results = _
    rw [h.find]
    rfl
  | remove key =>
    obtain ⟨table', hremove, hcase, hholds⟩ := h.remove key
    refine Or.inr ⟨⟨table', _⟩, ?_, hcase, hholds, rfl⟩
    rw [hash_table_t.perform, hremove]
    rfl
  | clear =>
    exact Or.inr ⟨_, rfl, rfl, holds_empty h.valid.pos rfl fun i hi => if_pos hi, rfl⟩
  | findFirst =>
    obtain ⟨table', found, hfirst, hcase, hholds⟩ := h.find_first
    refine Or.inr ⟨{ s with table := table' }, ?_, hcase, hholds, rfl⟩
    rw [hash_table_t.perform, hfirst]
    rfl
  | findNext =>
    cases hop : s.table.find_op with
    | false =>
      refine Or.inl ⟨?_, hop⟩
      rw [hash_table_t.perform, hash_table_find_next, hop]
      rfl
    | true =>
      obtain ⟨table', found, hnext, hcase, hholds⟩ := h.find_next hop
      refine Or.inr ⟨{ s with table := table' }, ?_, hcase, hholds, rfl⟩
      rw [hash_table_t.perform, hnext]
      rfl

/-- In every run the table is a finite map of the keys that it compares: the calls return what they
return on the map, an enumeration visits every key once, and `count` is their number. -/
theorem run_table {size : ℕ} {case_sensitive : Bool} {ops : List (Op α)} {s : Log α}
    (hrun : run perform ops (new α size case_sensitive) = some s) :
    ∃ m, ops.foldl (mapStep case_sensitive) (fun _ => none, []) = (m, s.results) ∧
      (∀ key, hash_table_get s.table key = m (foldKey case_sensitive key)) ∧
      (∃ elems, forEach (s.table.count + 1) s.table = some elems ∧
        s.table.count = elems.length ∧
        (elems.map fun elem => foldKey case_sensitive elem.key).Nodup ∧
        ∀ key data, m key = some data ↔
          ∃ elem ∈ elems, foldKey case_sensitive elem.key = key ∧ elem.data = data) ∧
      ∀ op, perform op s = none → Stops op s.table := by
  have hinv : s.table.case_sensitive = case_sensitive ∧
      Holds s.table (ops.foldl (mapStep case_sensitive) (fun _ => none, [])).1 ∧
      s.results = (ops.foldl (mapStep case_sensitive) (fun _ => none, [])).2 := by
    induction ops using List.reverseRecOn generalizing s with
    | nil =>
      rw [run_nil, Option.some.injEq] at hrun
      subst hrun
      refine ⟨rfl, holds_empty ?_ rfl fun _ _ => rfl, rfl⟩
      unfold new hash_table_create HASH_TABLE_MIN_INITIAL_SIZE
      dsimp only
      split_ifs <;> omega
    | append_singleton ops op ih =>
      rw [run_append, Option.bind_eq_some_iff] at hrun
      obtain ⟨s₁, hrun, hstep⟩ := hrun
      rw [run_cons, Option.bind_eq_some_iff] at hstep
      obtain ⟨s₂, hstep, hlast⟩ := hstep
      obtain rfl := Option.some.inj hlast
      obtain ⟨hcase, hholds, hresults⟩ := ih hrun
      rw [List.foldl_append, List.foldl_cons, List.foldl_nil]
      cases hholds.perform op with
      | inl hnone =>
        rw [hnone.1] at hstep
        cases hstep
      | inr hsome =>
        obtain ⟨s', hs', hcase', hholds', hresults'⟩ := hsome
        obtain rfl : s₂ = s' := Option.some.inj (hstep.symm.trans hs')
        rw [hcase] at hcase' hholds' hresults'
        rw [hresults] at hholds' hresults'
        exact ⟨hcase', hholds', hresults'⟩
  obtain ⟨hcase, hholds, hresults⟩ := hinv
  refine ⟨_, Prod.ext rfl hresults.symm, ?_, ⟨s.table.entries, hholds.valid.forEach, hholds.valid.count,
    ?_, ?_⟩, ?_⟩
  · intro key
    exact hcase ▸ hholds.find key
  · exact hcase ▸ hholds.valid.distinct
  · exact hcase ▸ hholds.entry
  · intro op hnone
    cases hholds.perform op with
    | inl hstops => exact hstops.2
    | inr hsome =>
      obtain ⟨s', hs', -⟩ := hsome
      rw [hnone] at hs'
      cases hs'

end Runs

section Examples

def cases : List (Op ℕ) :=
  [.insert [65, 98] (some 1), .insert [97, 66] (some 2), .get [65, 66], .insert [99] (some 3),
    .remove [97, 98], .findFirst]

theorem run_table_cases : ∃ s m, run perform cases (new ℕ 0 false) = some s ∧
    cases.foldl (mapStep false) (fun _ => none, []) = (m, s.results) ∧
    ∀ key, hash_table_get s.table key = m (foldKey false key) := by
  have hsome : (run perform cases (new ℕ 0 false)).isSome = true := by decide +kernel
  have hrun := (Option.some_get hsome).symm
  obtain ⟨m, hmap, hget, -⟩ := run_table hrun
  exact ⟨_, m, hrun, hmap, hget⟩

end Examples

end OISA.Util.hash_table_t
