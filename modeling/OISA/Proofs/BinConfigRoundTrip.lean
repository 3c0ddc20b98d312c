import Mathlib.Data.List.TakeWhile
import OISA.Proofs.HashTableMap
import OISA.Util.BinConfig

/-!
# Saved configurations are loaded again

Lengths are saved in four bytes with a sign.
-/

namespace OISA.Util.bin_config_t

open OISA.Lib hash_table_t

abbrev Elems := hash_table_t bin_config_elem_t

abbrev Variable := hash_table_elem_t bin_config_elem_t

section Trees

/-- The variables of a list, none if it was not created -/
def vars : Option Elems → List (Variable)
  | none => []
  | some elem_list => elem_list.entries

def bytesOf (elem : bin_config_elem_t) : List UInt8 := elem.data.getD []

structure Var (elem : Variable) : Prop where
  key : 0 ∉ elem.key
  size : elem.data.size = (bytesOf elem.data).length
  bound : elem.data.size < 2 ^ 31

/-- A tree of variables of some depth, with different names up to case at each level -/
def Tree : ℕ → Option Elems → Prop
  | _, none => True
  | 0, some _ => False
  | depth + 1, some elem_list =>
    elem_list.Valid ∧ elem_list.case_sensitive = false ∧ elem_list.size < 2 ^ 31 ∧
      ∀ elem ∈ elem_list.entries, Var elem ∧ Tree depth elem.data.child_elem_list

inductive Same : Option Elems → Option Elems → Prop
  | mk {t t' : Option Elems} (pairs : List (Variable × Variable)) :
      (pairs.map Prod.fst).Perm (vars t) → (pairs.map Prod.snd).Perm (vars t') →
      (∀ p ∈ pairs, p.1.key = p.2.key ∧ bytesOf p.1.data = bytesOf p.2.data) →
      (∀ p ∈ pairs, Same p.1.data.child_elem_list p.2.data.child_elem_list) → Same t t'

/-- The names, with their final zeros, have lengths that are saved as they are. -/
inductive Short : Option Elems → Prop
  | mk {t : Option Elems} : (∀ elem ∈ vars t, elem.key.length + 1 < 2 ^ 31) →
      (∀ elem ∈ vars t, Short elem.data.child_elem_list) → Short t

/-- Saving a configuration and loading the file into another one gives the same tree. -/
def RoundTrip (depth : ℕ) (bin_config bin_config' : bin_config_t) : Prop :=
  ∃ saved f loaded, bin_config_save depth bin_config = some (saved, f) ∧
    bin_config_load (depth + 1) bin_config' (some f) = some (loaded, 1) ∧
    Same bin_config.elem_list loaded.elem_list

end Trees

section Numbers

lemma readInt_writeInt {n : ℕ} (h : n < 2 ^ 31) (rest : List UInt8) :
    readInt (writeInt n ++ rest) = ((n : ℤ), rest) := by
  have hlength : (writeInt n).length = 4 := length_leBytes 4 n
  have hvalue : leNat (writeInt n) = n :=
    leNat_leBytes_of_lt (h.trans (by decide))
  rw [readInt, List.take_left' hlength, List.drop_left' hlength, hvalue, toInt, if_pos h]

lemma writeBytes_length {bytes : List UInt8} (h : bytes.length < 2 ^ 31) :
    writeBytes bytes bytes.length = bytes := by
  rw [writeBytes, toInt, if_pos h, Int.toNat_natCast, List.take_length]

variable {elem : Variable}

lemma saveElem_eq (hvar : Var elem) (hshort : elem.key.length + 1 < 2 ^ 31)
    (children : List UInt8) : saveElem elem children =
      writeInt elem.key.length ++ (elem.key ++ (writeInt elem.data.size ++
        (bytesOf elem.data ++ children))) := by
  have hmod : elem.key.length % 2 ^ 32 = elem.key.length := Nat.mod_eq_of_lt (by omega)
  have hdata : writeData elem.data = bytesOf elem.data := by
    have hsize := hvar.size
    have hbound := hvar.bound
    unfold bytesOf at hsize ⊢
    unfold writeData
    cases hcase : elem.data.data with
    | none => rfl
    | some data =>
      rw [hcase] at hsize
      rw [hsize] at hbound ⊢
      exact writeBytes_length hbound
  rw [saveElem, hdata, hmod, writeBytes_length (by omega)]
  simp only [List.append_assoc]

end Numbers

section Loading

variable {load : List UInt8 → Option (Option Elems × List UInt8)} {elem_list elem_list' : Elems}
  {n : ℕ} {f rest : List UInt8}

def Room (elem_list : Elems) (n : ℕ) : Prop :=
  elem_list.count + n ≤ elem_list.size / 2 ∨
    elem_list.size * 2 < 2 ^ 31 ∧ elem_list.count + n ≤ elem_list.size

lemma room_insert (hroom : Room elem_list (n + 1))
    (hsize : elem_list'.size =
      if elem_list.size / 2 ≤ elem_list.count then elem_list.size * 2 else elem_list.size)
    (hcount : elem_list'.count = elem_list.count + 1) : Room elem_list' n := by
  unfold Room at hroom ⊢
  rw [hcount, hsize]
  by_cases hfull : elem_list.size / 2 ≤ elem_list.count
  · rw [if_pos hfull]
    left
    omega
  · rw [if_neg hfull]
    omega

lemma loadElems_saveElem {elem : Variable} (hvar : Var elem)
    (hshort : elem.key.length + 1 < 2 ^ 31) {children : List UInt8} {t : Option Elems}
    (hload : load (children ++ rest) = some (t, rest)) :
    loadElems load (n + 1) elem_list (saveElem elem children ++ rest) =
      (hash_table_insert elem_list elem.key
        (some (.mk t (some (bytesOf elem.data)) elem.data.size))).bind
          fun (elem_list, _) => loadElems load n elem_list rest := by
  have hkey : elem.key.takeWhile (· ≠ 0) = elem.key := by
    rw [List.takeWhile_eq_self_iff]
    intro c hc
    have : c ≠ 0 := ne_of_mem_of_not_mem hc hvar.key
    simpa using this
  have hlength : (bytesOf elem.data ++ (children ++ rest)).length =
      elem.data.size + (children ++ rest).length := by
    rw [List.length_append, hvar.size]
  rw [saveElem_eq hvar hshort, loadElems]
  simp only [List.append_assoc]
  rw [readInt_writeInt (by omega)]
  simp only [Int.toNat_natCast]
  rw [if_neg (by omega), List.take_left' rfl, List.drop_left' rfl, hkey,
    readInt_writeInt hvar.bound]
  simp only [Int.toNat_natCast]
  rw [if_neg (by omega), List.take_left' hvar.size.symm, List.drop_left' hvar.size.symm, hload]
  rfl

/-- What loading keeps: the elements so far and some with their counterparts -/
structure Loaded (elem_list elem_list' : Elems)
    (pairs : List (Variable × Variable)) :
    Prop where
  entries : elem_list'.entries.Perm (pairs.map Prod.snd ++ elem_list.entries)
  same : ∀ p ∈ pairs, p.1.key = p.2.key ∧ bytesOf p.1.data = bytesOf p.2.data
  children : ∀ p ∈ pairs, Same p.1.data.child_elem_list p.2.data.child_elem_list

/-- Elements whose children are read back are read back. -/
lemma loadElems_saveElems (load : List UInt8 → Option (Option Elems × List UInt8))
    (save : Option Elems → Option (List UInt8))
    (elems : List (Variable))
    (hvars : ∀ elem ∈ elems, Var elem ∧ elem.key.length + 1 < 2 ^ 31)
    (hchildren : ∀ elem ∈ elems, ∃ f, save elem.data.child_elem_list = some f ∧
      ∀ rest, ∃ t, load (f ++ rest) = some (t, rest) ∧ Same elem.data.child_elem_list t) :
    ∃ bytes, saveElems save elems = some bytes ∧
      ∀ (elem_list : Elems) (rest : List UInt8), elem_list.Valid →
        elem_list.case_sensitive = false → Room elem_list elems.length →
        (elems.map (foldKey false ·.key) ++ elem_list.entries.map (foldKey false ·.key)).Nodup →
        ∃ elem_list' pairs, loadElems load elems.length elem_list (bytes ++ rest) =
          some (elem_list', rest) ∧ pairs.map Prod.fst = elems ∧ Loaded elem_list elem_list' pairs
    := by
  induction elems with
  | nil =>
    refine ⟨[], rfl, ?_⟩
    intro elem_list rest _ _ _ _
    exact ⟨elem_list, [], rfl, rfl, .refl _, fun p hp => absurd hp List.not_mem_nil,
      fun p hp => absurd hp List.not_mem_nil⟩
  | cons elem elems ih =>
    obtain ⟨bytes, hsave, hrest⟩ := ih (fun x hx => hvars x (List.mem_cons_of_mem _ hx))
      fun x hx => hchildren x (List.mem_cons_of_mem _ hx)
    obtain ⟨children, hsaveChildren, hloadChildren⟩ := hchildren elem List.mem_cons_self
    obtain ⟨hvar, hshort⟩ := hvars elem List.mem_cons_self
    refine ⟨saveElem elem children ++ bytes, ?_, ?_⟩
    · rw [saveElems, hsaveChildren, hsave]
      rfl
    · intro elem_list rest hvalid hcase hroom hnodup
      obtain ⟨t, hload, hsame⟩ := hloadChildren (bytes ++ rest)
      have hsize : elem_list.count < elem_list.size / 2 ∨ elem_list.size * 2 < 2 ^ 31 := by
        unfold Room at hroom
        rw [List.length_cons] at hroom
        omega
      obtain ⟨inserted, success, hinsert, hvalid', hcase', hsize', -, hfresh⟩ :=
        hvalid.insert elem.key (.mk t (some (bytesOf elem.data)) elem.data.size) hsize
      rw [List.map_cons, List.cons_append, List.nodup_cons] at hnodup
      obtain ⟨hnew, hnodup⟩ := hnodup
      have hkeys : ∀ x ∈ elem_list.entries,
          elem_list.keyOf x ≠ foldKey elem_list.case_sensitive elem.key := by
        intro x hx heq
        rw [keyOf, hcase] at heq
        apply hnew
        rw [← heq]
        exact List.mem_append_right _ (List.mem_map_of_mem hx)
      obtain ⟨hcount, hperm⟩ := hfresh hkeys
      have hnodup' : (elems.map (foldKey false ·.key) ++
          inserted.entries.map (foldKey false ·.key)).Nodup := by
        have hperm' := (hperm.map (foldKey false ·.key)).append_left
          (elems.map (foldKey false ·.key))
        rw [hperm'.nodup_iff, List.map_cons, List.nodup_middle, List.nodup_cons]
        exact ⟨hnew, hnodup⟩
      obtain ⟨elem_list', pairs, hloop, hpairs, hloaded⟩ := hrest inserted rest hvalid'
        (hcase'.trans hcase) (room_insert hroom hsize' hcount) hnodup'
      refine ⟨elem_list', (elem, ⟨elem.key, .mk t (some (bytesOf elem.data)) elem.data.size⟩) ::
        pairs, ?_, ?_, ?_, ?_, ?_⟩
      · rw [List.append_assoc, List.length_cons, loadElems_saveElem hvar hshort hload, hinsert]
        exact hloop
      · rw [List.map_cons, hpairs]
      · refine (hloaded.entries.trans (hperm.append_left _)).trans ?_
        exact List.perm_middle
      · intro p hp
        cases List.mem_cons.mp hp with
        | inl heq =>
          subst heq
          exact ⟨rfl, rfl⟩
        | inr hmem => exact hloaded.same p hmem
      · intro p hp
        cases List.mem_cons.mp hp with
        | inl heq =>
          subst heq
          exact hsame
        | inr hmem => exact hloaded.children p hmem

end Loading

section RoundTrips

variable {depth : ℕ} {t t' : Option Elems} {f rest : List UInt8}

lemma valid_create (size : ℕ) : (hash_table_create bin_config_elem_t size false).Valid := by
  have hpos : 0 < (hash_table_create bin_config_elem_t size false).size := by
    unfold hash_table_create HASH_TABLE_MIN_INITIAL_SIZE
    dsimp only
    split_ifs <;> omega
  exact (holds_empty hpos rfl fun _ _ => rfl).valid

/-- A tree with short names comes back from its bytes. -/
lemma load_save (depth : ℕ) (t : Option Elems) (htree : Tree depth t) (hshort : Short t) :
    ∃ f, bin_config_elem_list_save depth t = some f ∧
      ∀ rest, ∃ t', bin_config_load_elem_list (depth + 1) (f ++ rest) = some (t', rest) ∧
        Same t t' := by
  have hnull : ∀ {depth rest}, bin_config_load_elem_list (depth + 1) (writeInt 0 ++ rest) =
      some (none, rest) := by
    intro depth rest
    rw [bin_config_load_elem_list, readInt_writeInt (by decide)]
    rfl
  induction depth generalizing t with
  | zero =>
    cases t with
    | some elem_list => cases htree
    | none =>
      exact ⟨writeInt 0, rfl, fun rest => ⟨none, hnull, .mk [] .nil .nil
        (fun p hp => absurd hp List.not_mem_nil) fun p hp => absurd hp List.not_mem_nil⟩⟩
  | succ depth ih =>
    cases t with
    | none =>
      exact ⟨writeInt 0, rfl, fun rest => ⟨none, hnull, .mk [] .nil .nil
        (fun p hp => absurd hp List.not_mem_nil) fun p hp => absurd hp List.not_mem_nil⟩⟩
    | some elem_list =>
      obtain ⟨hvalid, hcase, hsize, helems⟩ := htree
      obtain ⟨hnames, hchildren⟩ := hshort
      obtain ⟨bytes, hsave, hload⟩ := loadElems_saveElems
        (bin_config_load_elem_list (depth + 1)) (bin_config_elem_list_save depth) elem_list.entries
        (fun elem hmem => ⟨(helems elem hmem).1, hnames elem hmem⟩)
        fun elem hmem => ih _ (helems elem hmem).2 (hchildren elem hmem)
      have hcount := hvalid.count
      have hroom := hvalid.room
      have hlt : elem_list.count < 2 ^ 31 := by omega
      refine ⟨writeInt elem_list.count ++ bytes, ?_, ?_⟩
      · rw [bin_config_elem_list_save, hash_table_count, hvalid.forEach]
        simp only [Option.bind_eq_bind, Option.bind_some, hsave]
      · intro rest
        rw [bin_config_load_elem_list, List.append_assoc, readInt_writeInt hlt]
        by_cases hzero : elem_list.count = 0
        · have hempty : elem_list.entries = [] := by
            rw [← List.length_eq_zero_iff, ← hcount, hzero]
          rw [hempty] at hsave
          obtain rfl : bytes = [] := (Option.some.inj hsave).symm
          refine ⟨none, if_pos (by rw [hzero]; rfl), .mk [] ?_ .nil
            (fun p hp => absurd hp List.not_mem_nil) fun p hp => absurd hp List.not_mem_nil⟩
          rw [vars, hempty]
          exact .nil
        · have hnone : (hash_table_create bin_config_elem_t elem_list.count false).entries = [] :=
            entries_nil fun _ _ => rfl
          obtain ⟨elem_list', pairs, hloop, hpairs, hloaded⟩ := hload
            (hash_table_create bin_config_elem_t elem_list.count false) rest
            (valid_create _) rfl
            (by
              rw [← hcount]
              right
              unfold hash_table_create HASH_TABLE_MIN_INITIAL_SIZE
              dsimp only
              split_ifs <;> omega)
            (by
              rw [hnone, List.map_nil, List.append_nil]
              have hdistinct := hvalid.distinct
              unfold keyOf at hdistinct
              rw [hcase] at hdistinct
              exact hdistinct)
          rw [← hcount] at hloop
          refine ⟨some elem_list', ?_, .mk pairs ?_ ?_ hloaded.same hloaded.children⟩
          · simp only [Int.toNat_natCast, Option.bind_eq_bind, hloop, Option.bind_some]
            exact if_neg (by omega)
          · rw [hpairs]
            exact .refl _
          · have hentries := hloaded.entries
            rw [hnone, List.append_nil] at hentries
            exact hentries.symm

lemma short_insert {elem_list elem_list' : Elems} (hvalid : elem_list.Valid)
    (hshort : Short (some elem_list)) {key : Key} (hkey : key.length + 1 < 2 ^ 31)
    {elem : bin_config_elem_t} (helem : Short elem.child_elem_list) {success : Bool}
    (hinsert : hash_table_insert elem_list key (some elem) = some (elem_list', success)) :
    elem_list'.Valid ∧ Short (some elem_list') := by
  have hsize : elem_list.count < elem_list.size / 2 ∨ elem_list.size * 2 < 2 ^ 31 := by
    by_contra hnot
    rw [not_or, not_lt, not_lt] at hnot
    have hgrow : hash_table_grow { elem_list with find_op := false } = none := if_pos hnot.2
    simp only [hash_table_insert, if_pos hnot.1, hgrow] at hinsert
    cases hinsert
  obtain ⟨inserted, _, hinsert', hvalid', -, -, hmem, -⟩ := hvalid.insert key elem hsize
  obtain ⟨rfl, -⟩ := Prod.mk.inj (Option.some.inj (hinsert.symm.trans hinsert'))
  obtain ⟨hnames, hchildren⟩ := hshort
  refine ⟨hvalid', .mk ?_ ?_⟩
  · intro x hx
    cases hmem x hx with
    | inl heq => exact heq ▸ hkey
    | inr hold => exact hnames x hold
  · intro x hx
    cases hmem x hx with
    | inl heq => exact heq ▸ helem
    | inr hold => exact hchildren x hold

lemma short_loadElems {load : List UInt8 → Option (Option Elems × List UInt8)}
    (hload : ∀ {f t rest}, load f = some (t, rest) → Short t) (n : ℕ) {elem_list elem_list' : Elems}
    {f rest : List UInt8} (hvalid : elem_list.Valid) (hshort : Short (some elem_list))
    (hloop : loadElems load n elem_list f = some (elem_list', rest)) :
    Short (some elem_list') := by
  induction n generalizing elem_list f with
  | zero =>
    obtain ⟨rfl, -⟩ := Prod.mk.inj (Option.some.inj hloop)
    exact hshort
  | succ n ih =>
    unfold loadElems at hloop
    dsimp only at hloop
    split_ifs at hloop with hlen hdata
    simp only [Option.bind_eq_bind, Option.bind_eq_some_iff] at hloop
    obtain ⟨⟨t, f'⟩, hchild, ⟨inserted, success⟩, hinsert, hrest⟩ := hloop
    have hkey : ∀ bytes : List UInt8,
        ((bytes.take (readInt f).1.toNat).takeWhile (· ≠ 0)).length + 1 < 2 ^ 31 := by
      intro bytes
      have htake := List.length_take_le (readInt f).1.toNat bytes
      have hwhile := (List.takeWhile_prefix (· ≠ 0) (l := bytes.take (readInt f).1.toNat)).length_le
      omega
    obtain ⟨hvalid', hshort'⟩ := short_insert hvalid hshort (hkey _) (hload hchild) hinsert
    exact ih hvalid' hshort' hrest

lemma short_of_load (depth : ℕ) {f rest : List UInt8}
    (hload : bin_config_load_elem_list depth f = some (t, rest)) : Short t := by
  induction depth generalizing f t rest with
  | zero => cases hload
  | succ depth ih =>
    unfold bin_config_load_elem_list at hload
    dsimp only at hload
    split_ifs at hload with hzero
    · obtain ⟨rfl, -⟩ := Prod.mk.inj (Option.some.inj hload)
      exact .mk (fun x hx => absurd hx List.not_mem_nil) fun x hx => absurd hx List.not_mem_nil
    · simp only [Option.bind_eq_bind, Option.bind_eq_some_iff] at hload
      obtain ⟨⟨elem_list, f'⟩, hloop, heq⟩ := hload
      obtain ⟨rfl, -⟩ := Prod.mk.inj (Option.some.inj heq)
      refine short_loadElems (fun h => ih h) _ (valid_create _) ?_ hloop
      have hnone : (hash_table_create bin_config_elem_t (readInt f).1.toNat false).entries = [] :=
        entries_nil fun _ _ => rfl
      constructor
      · intro x hx
        rw [vars, hnone] at hx
        cases hx
      · intro x hx
        rw [vars, hnone] at hx
        cases hx

lemma Same.short (h : Same t t') (hshort : Short t') : Short t := by
  induction h with
  | @mk t t' pairs hfst hsnd hsame hchildren ih =>
    obtain ⟨hnames, hshort⟩ := hshort
    have hpair : ∀ x ∈ vars t, ∃ p ∈ pairs, p.1 = x ∧ p.2 ∈ vars t' := by
      intro x hx
      obtain ⟨p, hp, rfl⟩ := List.mem_map.mp (hfst.mem_iff.mpr hx)
      exact ⟨p, hp, rfl, hsnd.mem_iff.mp (List.mem_map_of_mem hp)⟩
    constructor
    · intro x hx
      obtain ⟨p, hp, rfl, hmem⟩ := hpair x hx
      rw [(hsame p hp).1]
      exact hnames p.2 hmem
    · intro x hx
      obtain ⟨p, hp, rfl, hmem⟩ := hpair x hx
      exact ih p hp (hshort p.2 hmem)

lemma RoundTrip.short {bin_config bin_config' : bin_config_t}
    (h : RoundTrip depth bin_config bin_config') : Short bin_config.elem_list := by
  obtain ⟨saved, f, loaded, -, hload, hsame⟩ := h
  simp only [bin_config_load, Option.bind_eq_bind, Option.bind_eq_some_iff] at hload
  obtain ⟨⟨t, rest⟩, hload, heq⟩ := hload
  obtain ⟨rfl, -⟩ := Prod.mk.inj (Option.some.inj heq)
  exact hsame.short (short_of_load _ hload)

/-- A tree of variables comes back from its file exactly if its names are short. -/
theorem roundTrip_iff {bin_config : bin_config_t} (bin_config' : bin_config_t)
    (htree : Tree depth bin_config.elem_list) :
    RoundTrip depth bin_config bin_config' ↔ Short bin_config.elem_list := by
  refine ⟨RoundTrip.short, ?_⟩
  intro hshort
  obtain ⟨f, hsave, hload⟩ := load_save depth bin_config.elem_list htree hshort
  obtain ⟨t, hload, hsame⟩ := hload []
  rw [List.append_nil] at hload
  refine ⟨{ bin_config with error_code := .BIN_CONFIG_ERR_OK }, f, { bin_config' with
    elem_list := t
    error_code := .BIN_CONFIG_ERR_OK }, ?_, ?_, hsame⟩
  · rw [bin_config_save, hsave]
    rfl
  · rw [bin_config_load]
    simp only [hload, Option.bind_eq_bind, Option.bind_some]

end RoundTrips

section Examples

/-- A configuration with one variable -/
def single (key : Key) (elem : bin_config_elem_t) : bin_config_t where
  elem_list := some { hash_table_link (hash_table_create _ 1 false) ⟨key, elem⟩ with count := 1 }

lemma entries_single (key : Key) (elem : bin_config_elem_t) :
    (vars (single key elem).elem_list).Perm [⟨key, elem⟩] := by
  have hnone : (hash_table_create bin_config_elem_t 1 false).entries = [] :=
    entries_nil fun _ _ => rfl
  have hperm := entries_link (valid_create 1).pos ⟨key, elem⟩
  rw [hnone] at hperm
  exact hperm

lemma tree_single {depth : ℕ} {key : Key} {elem : bin_config_elem_t} (hvar : Var ⟨key, elem⟩)
    (hchild : Tree depth elem.child_elem_list) :
    Tree (depth + 1) (single key elem).elem_list := by
  have hperm := entries_single key elem
  refine ⟨⟨(by decide : 0 < 5), ?_, ?_, hperm.length_eq.symm, (by decide : 1 ≤ 5 / 2)⟩, rfl,
    (by decide : 5 < 2 ^ 31), ?_⟩
  · exact place_link (valid_create 1).place _
  · exact (hperm.map _).nodup_iff.mpr (List.nodup_singleton _)
  · intro x hx
    obtain rfl := List.mem_singleton.mp (hperm.mem_iff.mp hx)
    exact ⟨hvar, hchild⟩

lemma short_single {key : Key} {elem : bin_config_elem_t} :
    Short (single key elem).elem_list ↔
      key.length + 1 < 2 ^ 31 ∧ Short elem.child_elem_list := by
  have hperm := entries_single key elem
  have hmem : ∀ x, x ∈ vars (single key elem).elem_list ↔ x = ⟨key, elem⟩ := by
    intro x
    rw [hperm.mem_iff, List.mem_singleton]
  constructor
  · rintro ⟨hnames, hchildren⟩
    exact ⟨hnames _ ((hmem _).mpr rfl), hchildren _ ((hmem _).mpr rfl)⟩
  · rintro ⟨hname, hchild⟩
    refine .mk ?_ ?_
    · intro x hx
      rw [(hmem x).mp hx]
      exact hname
    · intro x hx
      rw [(hmem x).mp hx]
      exact hchild

def nested : bin_config_t :=
  single [97] (.mk (single [98] (.mk none (some [1, 2]) 2)).elem_list none 0)

theorem roundTrip_nested : RoundTrip 2 nested {} := by
  refine (roundTrip_iff {} ?_).mpr ?_
  · exact tree_single ⟨by decide, rfl, by decide⟩ (tree_single ⟨by decide, rfl, by decide⟩ trivial)
  · refine short_single.mpr ⟨by decide, short_single.mpr ⟨by decide, .mk ?_ ?_⟩⟩
    · exact fun x hx => absurd hx List.not_mem_nil
    · exact fun x hx => absurd hx List.not_mem_nil

/-- A name of `2 ^ 31` bytes has a negative length. -/
theorem longName_lost :
    Tree 1 (single (List.replicate (2 ^ 31) 97) (.mk none none 0)).elem_list ∧
      ∀ bin_config',
        ¬ RoundTrip 1 (single (List.replicate (2 ^ 31) 97) (.mk none none 0)) bin_config' := by
  have hlength : (List.replicate (2 ^ 31) (97 : UInt8)).length = 2 ^ 31 := List.length_replicate
  have hchar : (0 : UInt8) ∉ List.replicate (2 ^ 31) (97 : UInt8) := by
    intro hmem
    exact absurd (List.eq_of_mem_replicate hmem) (by decide)
  generalize List.replicate (2 ^ 31) (97 : UInt8) = key at hlength hchar ⊢
  refine ⟨tree_single ⟨hchar, rfl, (by decide : 0 < 2 ^ 31)⟩ trivial, ?_⟩
  intro bin_config' hround
  have hshort := (short_single.mp hround.short).1
  omega

end Examples

end OISA.Util.bin_config_t
