import Mathlib.Tactic

/-!
# Layouts

A map from addresses to items is kept as the list of its items in the order of their addresses.
-/

namespace OISA.Lib

variable {α : Type} (start stop : α → ℕ)

section Maps

def lowerBound (l : List α) (address : ℕ) : Option α := l.find? fun c => address ≤ start c

def nextItem (l : List α) (c : α) : Option α := l.find? fun d => start c < start d

def prevItem (l : List α) (c : α) : Option α :=
  (l.filter fun d => start d < start c).getLast?

def insertItem (c : α) (l : List α) : List α :=
  l.orderedInsert (fun a b => start a ≤ start b) c

lemma insertItem_perm (c : α) (l : List α) : (insertItem start c l).Perm (c :: l) :=
  List.perm_orderedInsert _ c l

end Maps

/-- No item is empty, and each stops before the next one starts. -/
structure Layout (l : List α) : Prop where
  sorted : l.Pairwise fun c d => stop c ≤ start d
  nonempty : ∀ c ∈ l, start c < stop c

/-- Whether an item takes an address. -/
def Covers (l : List α) (x : ℕ) : Prop := ∃ c ∈ l, start c ≤ x ∧ x < stop c

def Vacant (l : List α) (lo hi : ℕ) : Prop := ∀ c ∈ l, stop c ≤ lo ∨ hi ≤ start c

variable {start stop} {l l' : List α} {c d : α} {x lo hi : ℕ}

section Covers

lemma covers_cons : Covers start stop (c :: l) x ↔
    (start c ≤ x ∧ x < stop c) ∨ Covers start stop l x := by
  unfold Covers
  rw [List.exists_mem_cons_iff]

lemma covers_append : Covers start stop (l ++ l') x ↔
    Covers start stop l x ∨ Covers start stop l' x := by
  unfold Covers
  constructor
  · rintro ⟨c, hc, hx⟩
    obtain hc | hc := List.mem_append.mp hc
    · exact .inl ⟨c, hc, hx⟩
    · exact .inr ⟨c, hc, hx⟩
  · rintro (⟨c, hc, hx⟩ | ⟨c, hc, hx⟩)
    · exact ⟨c, List.mem_append_left l' hc, hx⟩
    · exact ⟨c, List.mem_append_right l hc, hx⟩

lemma covers_perm (h : l.Perm l') : Covers start stop l x ↔ Covers start stop l' x := by
  unfold Covers
  simp only [h.mem_iff]

lemma vacant_perm (h : l.Perm l') : Vacant start stop l lo hi ↔ Vacant start stop l' lo hi := by
  unfold Vacant
  simp only [h.mem_iff]

lemma vacant_cons : Vacant start stop (c :: l) lo hi ↔
    (stop c ≤ lo ∨ hi ≤ start c) ∧ Vacant start stop l lo hi := by
  unfold Vacant
  rw [List.forall_mem_cons]

lemma Vacant.append (h : Vacant start stop l lo hi) (h' : Vacant start stop l' lo hi) :
    Vacant start stop (l ++ l') lo hi := by
  intro c hc
  obtain hc | hc := List.mem_append.mp hc
  · exact h c hc
  · exact h' c hc

lemma Vacant.mono {lo' hi' : ℕ} (h : Vacant start stop l lo hi) (hlo : lo ≤ lo')
    (hhi : hi' ≤ hi) : Vacant start stop l lo' hi' := by
  intro c hc
  obtain hbefore | hafter := h c hc
  · exact .inl (hbefore.trans hlo)
  · exact .inr (hhi.trans hafter)

lemma covers_erase [DecidableEq α] (hc : c ∈ l) :
    Covers start stop l x ↔ (start c ≤ x ∧ x < stop c) ∨ Covers start stop (l.erase c) x := by
  rw [covers_perm (List.perm_cons_erase hc), covers_cons]

end Covers

namespace Layout

lemma nil : Layout start stop [] := ⟨List.Pairwise.nil, fun _ hc => absurd hc List.not_mem_nil⟩

lemma disjoint (h : Layout start stop l) (hc : c ∈ l) (hd : d ∈ l) (hne : c ≠ d) :
    stop c ≤ start d ∨ stop d ≤ start c := by
  have hpairwise : l.Pairwise fun c d => stop c ≤ start d ∨ stop d ≤ start c :=
    h.sorted.imp fun hle => .inl hle
  have hsymm : Std.Symm fun c d => stop c ≤ start d ∨ stop d ≤ start c :=
    ⟨fun _ _ hor => hor.symm⟩
  exact hpairwise.forall hc hd hne

lemma unique (h : Layout start stop l) (hc : c ∈ l) (hd : d ∈ l)
    (hcx : start c ≤ x ∧ x < stop c) (hdx : start d ≤ x ∧ x < stop d) : c = d := by
  by_contra hne
  obtain hle | hle := h.disjoint hc hd hne
  · omega
  · omega

lemma eq_of_start (h : Layout start stop l) (hc : c ∈ l) (hd : d ∈ l)
    (heq : start c = start d) : c = d :=
  h.unique hc hd ⟨le_rfl, h.nonempty c hc⟩ ⟨heq.ge, heq.trans_lt (h.nonempty d hd)⟩

lemma starts (h : Layout start stop l) : l.Pairwise fun c d => start c < start d := by
  have hmem : l.Pairwise fun c d => c ∈ l ∧ stop c ≤ start d :=
    List.pairwise_iff_forall_sublist.mpr fun {c d} hsub =>
      ⟨hsub.subset List.mem_cons_self, List.pairwise_iff_forall_sublist.mp h.sorted hsub⟩
  exact hmem.imp fun {c d} hcd => (h.nonempty c hcd.1).trans_le hcd.2

lemma nodup (h : Layout start stop l) : l.Nodup := by
  apply h.starts.imp
  rintro c d hlt rfl
  exact Nat.lt_irrefl _ hlt

section Update

variable [DecidableEq α]

lemma erase (h : Layout start stop l) (c : α) : Layout start stop (l.erase c) :=
  ⟨h.sorted.sublist List.erase_sublist, fun d hd => h.nonempty d (List.mem_of_mem_erase hd)⟩

lemma mem_erase (h : Layout start stop l) : d ∈ l.erase c ↔ d ≠ c ∧ d ∈ l :=
  h.nodup.mem_erase_iff

lemma vacant_erase (h : Layout start stop l) (hc : c ∈ l) :
    Vacant start stop (l.erase c) (start c) (stop c) := by
  intro d hd
  rw [h.mem_erase] at hd
  exact h.disjoint hd.2 hc hd.1

end Update

lemma insert (h : Layout start stop l) (hpos : start c < stop c)
    (hvacant : Vacant start stop l (start c) (stop c)) :
    Layout start stop (insertItem start c l) := by
  have hmem : ∀ d, d ∈ insertItem start c l ↔ d = c ∨ d ∈ l := by
    intro d
    rw [(insertItem_perm start c l).mem_iff, List.mem_cons]
  refine ⟨?_, ?_⟩
  · induction l with
    | nil => exact List.pairwise_singleton _ _
    | cons d l ih =>
      have hrest : Layout start stop l :=
        ⟨h.sorted.of_cons, fun e he => h.nonempty e (List.mem_cons_of_mem d he)⟩
      obtain ⟨hd, hvacant'⟩ := vacant_cons.mp hvacant
      have hhead : ∀ {e}, e ∈ l → stop d ≤ start e := fun he =>
        List.rel_of_pairwise_cons h.sorted he
      unfold insertItem
      rw [List.orderedInsert]
      split_ifs with hle
      · -- the item comes first
        have hcd : stop c ≤ start d := by
          have hpos' := h.nonempty d List.mem_cons_self
          omega
        rw [List.pairwise_cons]
        refine ⟨?_, h.sorted⟩
        intro e he
        obtain rfl | he := List.mem_cons.mp he
        · exact hcd
        · have hpos' := h.nonempty d List.mem_cons_self
          have hde := hhead he
          omega
      · have hdc : stop d ≤ start c := by omega
        rw [List.pairwise_cons]
        refine ⟨?_, ih hrest hvacant' fun e => ?_⟩
        · intro e he
          obtain rfl | he := List.mem_cons.mp ((insertItem_perm start c l).mem_iff.mp he)
          · exact hdc
          · exact hhead he
        · rw [(insertItem_perm start c l).mem_iff, List.mem_cons]
  · intro d hd
    obtain rfl | hd := (hmem d).mp hd
    · exact hpos
    · exact h.nonempty d hd

section Lookup

lemma lowerBound_start (h : Layout start stop l) (hc : c ∈ l) :
    lowerBound start l (start c) = some c := by
  induction l with
  | nil => cases hc
  | cons d l ih =>
    unfold lowerBound
    rw [List.find?_cons]
    obtain rfl | hc := List.mem_cons.mp hc
    · simp
    · have hlt : start d < start c := List.rel_of_pairwise_cons h.starts hc
      have hrest : Layout start stop l :=
        ⟨h.sorted.of_cons, fun e he => h.nonempty e (List.mem_cons_of_mem d he)⟩
      rw [decide_eq_false hlt.not_ge]
      exact ih hrest hc

lemma nextItem_some (h : Layout start stop l) (hnext : nextItem start l c = some d) :
    d ∈ l ∧ start c < start d ∧ ∀ e ∈ l, start c < start e → start d ≤ start e := by
  induction l with
  | nil => cases hnext
  | cons a l ih =>
    have hrest : Layout start stop l :=
      ⟨h.sorted.of_cons, fun e he => h.nonempty e (List.mem_cons_of_mem a he)⟩
    unfold nextItem at hnext
    rw [List.find?_cons] at hnext
    by_cases hlt : start c < start a
    · rw [decide_eq_true hlt] at hnext
      obtain rfl := Option.some.inj hnext
      refine ⟨List.mem_cons_self, hlt, ?_⟩
      intro e he _
      obtain rfl | he := List.mem_cons.mp he
      · exact le_rfl
      · exact (List.rel_of_pairwise_cons h.starts he).le
    · rw [decide_eq_false hlt] at hnext
      obtain ⟨hd, hcd, hleast⟩ := ih hrest hnext
      refine ⟨List.mem_cons_of_mem a hd, hcd, ?_⟩
      intro e he hce
      obtain rfl | he := List.mem_cons.mp he
      · exact absurd hce hlt
      · exact hleast e he hce

lemma nextItem_none (hnext : nextItem start l c = none) (hd : d ∈ l) : start d ≤ start c := by
  have hnot := List.find?_eq_none.mp hnext d hd
  simpa using hnot

lemma prevItem_some (h : Layout start stop l) (hprev : prevItem start l c = some d) :
    d ∈ l ∧ start d < start c ∧ ∀ e ∈ l, start e < start c → start e ≤ start d := by
  unfold prevItem at hprev
  obtain ⟨front, hfilter⟩ := List.getLast?_eq_some_iff.mp hprev
  have hmem : ∀ e, e ∈ l ∧ start e < start c ↔ e ∈ front ++ [d] := by
    intro e
    rw [← hfilter, List.mem_filter, decide_eq_true_eq]
  obtain ⟨hd, hdc⟩ := (hmem d).mpr (by simp)
  refine ⟨hd, hdc, ?_⟩
  intro e he hec
  have hstarts : (front ++ [d]).Pairwise fun c d => start c < start d := by
    rw [← hfilter]
    exact h.starts.sublist List.filter_sublist
  rw [List.pairwise_append] at hstarts
  obtain hfront | hlast := List.mem_append.mp ((hmem e).mp ⟨he, hec⟩)
  · exact (hstarts.2.2 e hfront d (by simp)).le
  · rw [List.mem_singleton.mp hlast]

lemma prevItem_none (hprev : prevItem start l c = none) (hd : d ∈ l) : start c ≤ start d := by
  unfold prevItem at hprev
  rw [List.getLast?_eq_none_iff, List.filter_eq_nil_iff] at hprev
  simpa using hprev d hd

lemma next_touches (h : Layout start stop l) (hc : c ∈ l) (hcovers : Covers start stop l (stop c))
    (hnext : nextItem start l c = some d) : stop c = start d := by
  obtain ⟨hd, hcd, hleast⟩ := h.nextItem_some hnext
  obtain ⟨e, he, hle, hlt⟩ := hcovers
  have hpos := h.nonempty c hc
  have hne : e ≠ c := by
    rintro rfl
    exact Nat.lt_irrefl _ hlt
  have hce : start c < start e := by
    obtain hec | hce := h.disjoint he hc hne
    · omega
    · omega
  have hde := hleast e he hce
  have hne' : c ≠ d := by
    rintro rfl
    exact Nat.lt_irrefl _ hcd
  have hposD := h.nonempty d hd
  obtain hcd' | hdc := h.disjoint hc hd hne'
  · omega
  · omega

lemma next_of_touches (h : Layout start stop l) (hc : c ∈ l) (hd : d ∈ l)
    (htouch : stop c = start d) : nextItem start l c = some d := by
  have hpos := h.nonempty c hc
  have hlt : start c < start d := by omega
  cases hnext : nextItem start l c with
  | none =>
    have hle := nextItem_none hnext hd
    omega
  | some e =>
    obtain ⟨he, hce, hleast⟩ := h.nextItem_some hnext
    have hne : c ≠ e := by
      rintro rfl
      exact Nat.lt_irrefl _ hce
    have hed := hleast d hd hlt
    have hposE := h.nonempty e he
    have heq : start e = start d := by
      obtain hce' | hec := h.disjoint hc he hne
      · omega
      · omega
    rw [h.eq_of_start he hd heq]

lemma prev_touches (h : Layout start stop l) (hc : c ∈ l)
    (hcovers : Covers start stop l (start c - 1)) (hprev : prevItem start l c = some d) :
    stop d = start c := by
  obtain ⟨hd, hdc, hgreatest⟩ := h.prevItem_some hprev
  obtain ⟨e, he, hle, hlt⟩ := hcovers
  have hpos := h.nonempty d hd
  have hed := hgreatest e he (by omega)
  have heq : e = d := by
    by_contra hne
    obtain hed' | hde := h.disjoint he hd hne
    · omega
    · omega
  subst heq
  have hne : e ≠ c := by
    rintro rfl
    exact Nat.lt_irrefl _ hdc
  have hposC := h.nonempty c hc
  obtain hec | hce := h.disjoint he hc hne
  · omega
  · omega

lemma prev_of_touches (h : Layout start stop l) (hc : c ∈ l) (hd : d ∈ l)
    (htouch : stop d = start c) : prevItem start l c = some d := by
  have hpos := h.nonempty d hd
  have hlt : start d < start c := by omega
  cases hprev : prevItem start l c with
  | none =>
    have hle := prevItem_none hprev hd
    omega
  | some e =>
    obtain ⟨he, hec, hgreatest⟩ := h.prevItem_some hprev
    have hde := hgreatest d hd hlt
    have hposE := h.nonempty e he
    have hposC := h.nonempty c hc
    have hne : e ≠ c := by
      rintro rfl
      exact Nat.lt_irrefl _ hec
    have heq : e = d := by
      by_contra hed
      obtain hec' | hce := h.disjoint he hc hne
      · obtain hed' | hde' := h.disjoint he hd hed
        · omega
        · omega
      · omega
    rw [heq]

end Lookup

end Layout

end OISA.Lib
