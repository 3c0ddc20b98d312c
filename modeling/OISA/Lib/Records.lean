import Mathlib.Tactic

/-!
# Records of a list

A scan of a list holds one element and takes every other one that beats it: `hold`.
-/

namespace OISA.Lib

variable {α : Type}

def hold (beats : α → α → Bool) : List α → Option α → Option α
  | [], best => best
  | x :: xs, none => hold beats xs (some x)
  | x :: xs, some b => hold beats xs (some (if beats x b then x else b))

/-- The elements that beat all records before them; the first list has the records found so far. -/
def records (beats : α → α → Bool) : List α → List α → List α
  | found, [] => found
  | found, x :: xs =>
    if found.all (beats x) then records beats (found ++ [x]) xs else records beats found xs

section Scans

variable {beats : α → α → Bool} {xs ys found : List α} {x b c : α} {best : Option α}

lemma hold_append : hold beats (xs ++ ys) best = hold beats ys (hold beats xs best) := by
  induction xs generalizing best with
  | nil => rfl
  | cons x xs ih =>
    cases best with
    | none => exact ih
    | some b => exact ih

lemma hold_mem (h : hold beats xs best = some c) : c ∈ xs ∨ best = some c := by
  induction xs generalizing best with
  | nil => exact Or.inr h
  | cons x xs ih =>
    cases best with
    | none =>
      cases ih h with
      | inl hc => exact Or.inl (List.mem_cons_of_mem x hc)
      | inr hc =>
        rw [Option.some.injEq] at hc
        exact Or.inl (hc ▸ List.mem_cons_self ..)
    | some b =>
      cases ih h with
      | inl hc => exact Or.inl (List.mem_cons_of_mem x hc)
      | inr hc =>
        rw [Option.some.injEq] at hc
        split_ifs at hc
        · exact Or.inl (hc ▸ List.mem_cons_self ..)
        · exact Or.inr (congrArg some hc)

def Rising (beats : α → α → Bool) (found : List α) : Prop :=
  found.Pairwise fun y x => beats x y

lemma Rising.last (h : Rising beats (found ++ [b])) : ∀ y ∈ found, beats b y :=
  fun y hy => (List.pairwise_append.mp h).2.2 y hy b (List.mem_singleton_self b)

variable (htrans : ∀ x y z, beats x y → beats y z → beats x z)

include htrans

lemma hold_eq_last (hrising : Rising beats found) :
    hold beats xs found.getLast? = (records beats found xs).getLast? := by
  induction xs generalizing found with
  | nil => rfl
  | cons x xs ih =>
    rw [records]
    cases hlast : found.getLast? with
    | none =>
      rw [List.getLast?_eq_none_iff] at hlast
      subst hlast
      have hone : Rising beats ([] ++ [x]) := List.pairwise_singleton ..
      rw [List.all_nil, if_pos rfl, ← ih hone]
      rfl
    | some b =>
      obtain ⟨front, rfl⟩ := List.getLast?_eq_some_iff.mp hlast
      rw [hold]
      by_cases hx : beats x b
      · have hall : ∀ y ∈ front ++ [b], beats x y := by
          intro y hy
          cases List.mem_append.mp hy with
          | inl hy => exact htrans x b y hx (hrising.last y hy)
          | inr hy => exact List.mem_singleton.mp hy ▸ hx
        have hnext : Rising beats (front ++ [b] ++ [x]) := by
          apply List.pairwise_append.mpr
          refine ⟨hrising, List.pairwise_singleton .., ?_⟩
          intro y hy z hz
          rw [List.mem_singleton.mp hz]
          exact hall y hy
        rw [if_pos (List.all_eq_true.mpr hall), if_pos hx, ← ih hnext, List.getLast?_append]
        rfl
      · have hall : ¬(front ++ [b]).all (beats x) = true := by
          intro hall
          exact hx (List.all_eq_true.mp hall b (by simp))
        rw [if_neg hall, if_neg hx, ← ih hrising, hlast]

omit htrans in
lemma mem_records (hx : x ∈ records beats found xs) :
    x ∈ found ∨ ∃ l l', xs = l ++ x :: l' ∧ (records beats found l).all (beats x) := by
  induction xs generalizing found with
  | nil => exact Or.inl hx
  | cons y xs ih =>
    rw [records] at hx
    by_cases hy : found.all (beats y)
    · rw [if_pos hy] at hx
      cases ih hx with
      | inl hx =>
        cases List.mem_append.mp hx with
        | inl hx => exact Or.inl hx
        | inr hx =>
          rw [List.mem_singleton.mp hx]
          exact Or.inr ⟨[], xs, rfl, hy⟩
      | inr hx =>
        obtain ⟨l, l', rfl, hall⟩ := hx
        refine Or.inr ⟨y :: l, l', rfl, ?_⟩
        rw [records, if_pos hy]
        exact hall
    · rw [if_neg hy] at hx
      cases ih hx with
      | inl hx => exact Or.inl hx
      | inr hx =>
        obtain ⟨l, l', rfl, hall⟩ := hx
        refine Or.inr ⟨y :: l, l', rfl, ?_⟩
        rw [records, if_neg hy]
        exact hall

lemma hold_record (hx : x ∈ records beats [] xs) :
    ∃ l l', xs = l ++ l' ∧ hold beats l none = some x := by
  cases mem_records hx with
  | inl hx => cases hx
  | inr hx =>
    obtain ⟨l, l', rfl, hall⟩ := hx
    refine ⟨l ++ [x], l', by simp, ?_⟩
    have hlast : hold beats l none = (records beats [] l).getLast? :=
      hold_eq_last htrans List.Pairwise.nil
    rw [hold_append]
    cases hheld : hold beats l none with
    | none => rfl
    | some b =>
      have hb : (records beats [] l).getLast? = some b := hlast.symm.trans hheld
      have hbeats := List.all_eq_true.mp hall b (List.mem_of_getLast? hb)
      simp only [hold, hbeats, if_true]

end Scans

section Keys

variable {A R : Type} [LinearOrder A] [LinearOrder R] (age : α → A) (rank : α → R)

def younger (x b : α) : Bool := decide (age x < age b ∧ rank b ≤ rank x)

def IsForemost (xs : List α) (c : α) : Prop :=
  ∀ y ∈ xs, rank y ≤ rank c ∧ (rank y = rank c → age c ≤ age y)

def RecordsGiveWay (xs : List α) : Prop :=
  ∀ l m l', xs = l ++ m :: l' → IsForemost age rank xs m →
    ∀ x ∈ records (younger age rank) [] l, rank x < rank m → age m < age x

variable {age rank} {xs ys : List α} {b c m : α}

lemma younger_trans (x y z : α) (h : younger age rank x y) (h' : younger age rank y z) :
    younger age rank x z := by
  simp only [younger, decide_eq_true_eq] at *
  exact ⟨h.1.trans h'.1, h'.2.trans h.2⟩

lemma exists_foremost (hne : xs ≠ []) : ∃ m ∈ xs, IsForemost age rank xs m := by
  induction xs with
  | nil => exact absurd rfl hne
  | cons x xs ih =>
    have hrefl : rank x ≤ rank x ∧ (rank x = rank x → age x ≤ age x) := ⟨le_rfl, fun _ => le_rfl⟩
    by_cases hxs : xs = []
    · subst hxs
      refine ⟨x, List.mem_cons_self .., ?_⟩
      intro y hy
      rw [List.mem_singleton.mp hy]
      exact hrefl
    · obtain ⟨m, hm, hmost⟩ := ih hxs
      by_cases hx : rank m < rank x ∨ rank m = rank x ∧ age x ≤ age m
      · refine ⟨x, List.mem_cons_self .., ?_⟩
        intro y hy
        cases List.mem_cons.mp hy with
        | inl hy =>
          rw [hy]
          exact hrefl
        | inr hy =>
          obtain ⟨hrank, hage⟩ := hmost y hy
          cases hx with
          | inl hx => exact ⟨hrank.trans hx.le, fun heq => absurd (heq ▸ hrank) (not_le.mpr hx)⟩
          | inr hx => exact ⟨hrank.trans hx.1.le, fun heq => hx.2.trans (hage (heq.trans hx.1.symm))⟩
      · refine ⟨m, List.mem_cons_of_mem x hm, ?_⟩
        rw [not_or, not_lt] at hx
        intro y hy
        cases List.mem_cons.mp hy with
        | inl hy =>
          rw [hy]
          exact ⟨hx.1, fun heq => (not_le.mp fun hle => hx.2 ⟨heq.symm, hle⟩).le⟩
        | inr hy => exact hmost y hy

lemma hold_foremost (hm : IsForemost age rank xs m) (hsub : ∀ y ∈ ys, y ∈ xs) :
    hold (younger age rank) ys (some m) = some m := by
  induction ys with
  | nil => rfl
  | cons y ys ih =>
    have hy : ¬younger age rank y m = true := by
      simp only [younger, decide_eq_true_eq]
      rintro ⟨hage, hrank⟩
      obtain ⟨hle, heq⟩ := hm y (hsub y (List.mem_cons_self ..))
      exact absurd hage (not_lt.mpr (heq (le_antisymm hle hrank)))
    rw [hold, if_neg hy]
    exact ih fun z hz => hsub z (List.mem_cons_of_mem y hz)

lemma hold_stays_low (hm : IsForemost age rank xs m) (hsub : ∀ y ∈ ys, y ∈ xs)
    (hage : age b ≤ age m) (hrank : rank b < rank m)
    (h : hold (younger age rank) ys (some b) = some c) : rank c < rank m := by
  induction ys generalizing b with
  | nil =>
    have hbc : b = c := Option.some.inj h
    exact hbc ▸ hrank
  | cons y ys ih =>
    have hsub' : ∀ z ∈ ys, z ∈ xs := fun z hz => hsub z (List.mem_cons_of_mem y hz)
    rw [hold] at h
    by_cases hy : younger age rank y b
    · rw [if_pos hy] at h
      simp only [younger, decide_eq_true_eq] at hy
      obtain ⟨hle, heq⟩ := hm y (hsub y (List.mem_cons_self ..))
      have hless : age y < age m := hy.1.trans_le hage
      have hne : rank y ≠ rank m := fun hrank => absurd hless (not_lt.mpr (heq hrank))
      exact ih hsub' hless.le (lt_of_le_of_ne hle hne) h
    · rw [if_neg hy] at h
      exact ih hsub' hage hrank h

/-- When a scan ends at a foremost element. -/
theorem hold_foremost_iff (h : hold (younger age rank) xs none = some c) :
    IsForemost age rank xs c ↔ RecordsGiveWay age rank xs := by
  constructor
  · intro hc l m l' hsplit hm x hx hrank
    by_contra hage
    obtain ⟨l₁, l₂, rfl, hheld⟩ := hold_record younger_trans hx
    have hmem : m ∈ xs := by
      rw [hsplit]
      simp
    rw [hsplit, List.append_assoc, hold_append, hheld] at h
    have hlow : rank c < rank m := by
      apply hold_stays_low hm _ (not_lt.mp hage) hrank h
      intro y hy
      rw [hsplit, List.append_assoc]
      exact List.mem_append_right l₁ hy
    exact absurd (hc m hmem).1 (not_le.mpr hlow)
  · intro hway
    have hne : xs ≠ [] := by
      intro hnil
      rw [hnil] at h
      cases h
    obtain ⟨m, hmem, hm⟩ : ∃ m ∈ xs, IsForemost age rank xs m := exists_foremost hne
    obtain ⟨l, l', hsplit⟩ := List.append_of_mem hmem
    have hsub : ∀ y ∈ l', y ∈ xs := by
      intro y hy
      rw [hsplit]
      simp [hy]
    rw [hsplit, hold_append] at h
    have hkeeps : ∀ b, IsForemost age rank xs b → hold (younger age rank) l' (some b) = some c →
        IsForemost age rank xs c := by
      intro b hb hend
      rw [hold_foremost hb hsub, Option.some.injEq] at hend
      exact hend ▸ hb
    cases hheld : hold (younger age rank) l none with
    | none =>
      rw [hheld] at h
      exact hkeeps m hm h
    | some b =>
      rw [hheld, hold] at h
      by_cases htakes : younger age rank m b
      · rw [if_pos htakes] at h
        exact hkeeps m hm h
      · rw [if_neg htakes] at h
        -- the element held is as good as the foremost one
        have hrecord : b ∈ records (younger age rank) [] l := by
          have hlast : hold (younger age rank) l none =
              (records (younger age rank) [] l).getLast? :=
            hold_eq_last younger_trans List.Pairwise.nil
          exact List.mem_of_getLast? (hlast.symm.trans hheld)
        have hb : b ∈ xs := by
          cases hold_mem hheld with
          | inl hb =>
            rw [hsplit]
            exact List.mem_append_left _ hb
          | inr hb => cases hb
        simp only [younger, decide_eq_true_eq, not_and, not_le] at htakes
        obtain ⟨hrank, hage⟩ := hm b hb
        have heq : rank b = rank m := by
          apply le_antisymm hrank
          by_contra hlow
          rw [not_le] at hlow
          have hless := hway l m l' hsplit hm b hrecord hlow
          exact absurd (htakes hless) (not_lt.mpr hrank)
        have hyoung : age b ≤ age m := by
          by_contra hold'
          exact absurd (htakes (not_le.mp hold')) (not_lt.mpr heq.le)
        apply hkeeps b _ h
        intro y hy
        obtain ⟨hy₁, hy₂⟩ := hm y hy
        rw [heq]
        exact ⟨hy₁, fun hyeq => hyoung.trans (hy₂ hyeq)⟩

end Keys

end OISA.Lib
