import OISA.Proofs.PageRanges

/-!
# The nearest free region

`MapSpace` and `MapSpaceDown` look for free pages from a page on, upwards and downwards.
-/

namespace OISA.Memory

open OISA.Lib

variable {m : Memory} {a r q address size : BitVec 32} {fuel n s t : ℕ}

/-- The region of the given size starts at a page boundary, lies in the address space and has no
mapped page. -/
def FreeRegion (m : Memory) (size r : BitVec 32) : Prop :=
  pageOffset LogPageSize r = 0#32 ∧ r.toNat + size.toNat ≤ 2 ^ 32 ∧
    ∀ x : BitVec 32, r.toNat ≤ x.toNat → x.toNat < r.toNat + size.toNat → m.getPage x = none

/-- The search ends. -/
def FindsNearest (m : Memory) (size : BitVec 32) (distance : BitVec 32 → BitVec 32)
    (search : ℕ → Option (BitVec 32)) : Prop :=
  ∃ n r, (∀ fuel, n ≤ fuel → search fuel = some r) ∧
    (r = -1#32 → ∀ q, ¬ FreeRegion m size q) ∧
    (r ≠ -1#32 → FreeRegion m size r ∧
      ∀ q, FreeRegion m size q → (distance r).toNat ≤ (distance q).toNat)

section Regions

lemma FreeRegion.aligned (h : FreeRegion m size q) : q.toNat % 4096 = 0 := toNat_mod_of_aligned h.1

lemma FreeRegion.ne_last (h : FreeRegion m size q) : q ≠ -1#32 := by
  rintro rfl
  exact absurd h.aligned (by decide)

lemma FreeRegion.not_mapped (h : FreeRegion m size q) (hq : q.toNat ≤ a.toNat)
    (ha : a.toNat < q.toNat + size.toNat) : ¬ (m.getPage a).isSome = true := by
  rw [h.2.2 a hq ha]
  exact Bool.false_ne_true

lemma freeRegion_empty : FreeRegion m 0#32 0#32 := by
  refine ⟨rfl, by decide, ?_⟩
  intro x _ hx
  exact absurd hx (Nat.not_lt_zero _)

lemma free_page (ha : a.toNat % 4096 = 0) (hnone : m.getPage a = none)
    (hfree : ∀ x : BitVec 32, s ≤ x.toNat → x.toNat < a.toNat → m.getPage x = none) :
    ∀ x : BitVec 32, s ≤ x.toNat → x.toNat < a.toNat + 4096 → m.getPage x = none := by
  intro x hx hx'
  by_cases hlt : x.toNat < a.toNat
  · exact hfree x hx hlt
  · rw [← hnone]
    apply getPage_of_page
    omega

lemma span_cases (hle : s ≤ t) (hlt : t < 2 ^ 32) (hfew : t - s + 4096 ≤ size.toNat) :
    BitVec.ofNat 32 t - .ofNat 32 s + PageSize = size ∧ size.toNat = t - s + 4096 ∨
      BitVec.ofNat 32 t - .ofNat 32 s + PageSize ≠ size ∧
        BitVec.ofNat 32 t - .ofNat 32 s + PageSize < size ∧ t - s + 4096 < size.toNat := by
  have hpage : PageSize.toNat = 4096 := rfl
  have hltSize := size.isLt
  have hspan : (BitVec.ofNat 32 t - .ofNat 32 s + PageSize).toNat = t - s + 4096 := by
    rw [BitVec.toNat_add, BitVec.toNat_sub, BitVec.toNat_ofNat, BitVec.toNat_ofNat, hpage]
    omega
  by_cases hfound : BitVec.ofNat 32 t - .ofNat 32 s + PageSize = size
  · left
    rw [hfound] at hspan
    exact ⟨hfound, hspan⟩
  · right
    have hne : t - s + 4096 ≠ size.toNat := fun heq =>
      hfound (BitVec.eq_of_toNat_eq (hspan.trans heq))
    refine ⟨hfound, ?_, by omega⟩
    rw [BitVec.lt_def, hspan]
    omega

lemma findsNearest_iff {distance : BitVec 32 → BitVec 32} {search : ℕ → Option (BitVec 32)}
    {ahead : BitVec 32 → Prop}
    (hmono : ∀ {n fuel r}, n ≤ fuel → search n = some r → search fuel = some r)
    (hsearch : ∃ n r, search n = some r ∧
      ((r = -1#32 ∧ ∀ q, ahead q → ¬ FreeRegion m size q) ∨
        (FreeRegion m size r ∧ ahead r ∧
          ∀ q, FreeRegion m size q → (distance r).toNat ≤ (distance q).toNat))) :
    FindsNearest m size distance search ↔
      (∃ q, ahead q ∧ FreeRegion m size q) ∨ ∀ q, ¬ FreeRegion m size q := by
  obtain ⟨n, r, hr, hfound⟩ := hsearch
  constructor
  · rintro ⟨n', r', hr', hnone, -⟩
    have hsame := hr' (max n n') (le_max_right _ _)
    rw [hmono (le_max_left _ _) hr] at hsame
    obtain rfl := Option.some.inj hsame
    rcases hfound with ⟨hminus, -⟩ | ⟨hregion, hahead, -⟩
    · exact .inr (hnone hminus)
    · exact .inl ⟨r, hahead, hregion⟩
  · intro hcases
    refine ⟨n, r, fun fuel hfuel => hmono hfuel hr, ?_, ?_⟩
    · intro hminus
      rcases hfound with ⟨-, hnone⟩ | ⟨hregion, -, -⟩
      · refine hcases.resolve_left ?_
        rintro ⟨q, hahead, hregion⟩
        exact hnone q hahead hregion
      · exact absurd hminus hregion.ne_last
    · intro hne
      rcases hfound with ⟨hminus, -⟩ | ⟨hregion, -, hnearest⟩
      · exact absurd hminus hne
      · exact ⟨hregion, hnearest⟩

end Regions

section Up

lemma mapSpace_mono (hle : n ≤ fuel) (h : m.MapSpace n address size = some r) :
    m.MapSpace fuel address size = some r := by
  have hloop : ∀ {n fuel : ℕ} {tag_start tag_end : BitVec 32}, n ≤ fuel →
      MapSpace.loop m size n tag_start tag_end = some r →
      MapSpace.loop m size fuel tag_start tag_end = some r := by
    intro n
    induction n with
    | zero =>
      intro fuel tag_start tag_end _ h
      cases h
    | succ n ih =>
      intro fuel tag_start tag_end hle h
      obtain ⟨fuel, rfl⟩ := Nat.exists_eq_add_of_lt hle
      rw [MapSpace.loop] at h ⊢
      split_ifs at h ⊢
      · exact h
      · exact ih (by omega) h
      · exact h
      · exact ih (by omega) h
  unfold MapSpace at h ⊢
  split_ifs at h ⊢
  exact hloop hle h

/-- The loop of `MapSpace` finds the first free region from `s` on, when the pages from `s` to `t`
are free and too few. -/
lemma mapSpace_loop_first (hs : s % 4096 = 0) (ht : t % 4096 = 0) (hsize : size.toNat % 4096 = 0)
    (hle : s ≤ t) (hpos : 0 < t) (hend : t ≤ 2 ^ 32) (hfew : t - s < size.toNat)
    (hfree : ∀ x : BitVec 32, s ≤ x.toNat → x.toNat < t → m.getPage x = none)
    (hfuel : 2 ^ 32 < t + fuel * 4096) :
    ∃ r, MapSpace.loop m size fuel (.ofNat 32 s) (.ofNat 32 t) = some r ∧
      ((r = -1#32 ∧ ∀ q, s ≤ q.toNat → ¬ FreeRegion m size q) ∨
        (FreeRegion m size r ∧ s ≤ r.toNat ∧
          ∀ q, s ≤ q.toNat → FreeRegion m size q → r.toNat ≤ q.toNat)) := by
  induction fuel generalizing s t with
  | zero => omega
  | succ fuel ih =>
    have hpage : PageSize.toNat = 4096 := rfl
    rw [MapSpace.loop]
    by_cases hlast : t = 2 ^ 32
    · rw [if_pos (by rw [hlast]; rfl)]
      refine ⟨_, rfl, .inl ⟨rfl, ?_⟩⟩
      intro q hq hfreeq
      have hinside := hfreeq.2.1
      omega
    · have htNat : (BitVec.ofNat 32 t).toNat = t := by
        rw [BitVec.toNat_ofNat]
        omega
      have hsNat : (BitVec.ofNat 32 s).toNat = s := by
        rw [BitVec.toNat_ofNat]
        omega
      have hne : BitVec.ofNat 32 t ≠ 0#32 := by
        intro hzero
        rw [hzero] at htNat
        exact absurd htNat hpos.ne
      have hnext : BitVec.ofNat 32 t + PageSize = .ofNat 32 (t + 4096) := by
        apply BitVec.eq_of_toNat_eq
        rw [BitVec.toNat_add, BitVec.toNat_ofNat, BitVec.toNat_ofNat, hpage]
        omega
      rw [if_neg hne, hnext]
      by_cases hmapped : (m.getPage (.ofNat 32 t)).isSome = true
      · rw [if_pos hmapped]
        obtain ⟨r, hr, hfirst⟩ := ih (s := t + 4096) (t := t + 4096) (by omega) (by omega) le_rfl
          (by omega) (by omega) (by omega) (fun x hx hx' => absurd hx hx'.not_ge) (by omega)
        -- a region that starts at `t` or before holds the mapped page
        have hafter : ∀ q, s ≤ q.toNat → FreeRegion m size q → t + 4096 ≤ q.toNat := by
          intro q hq hfreeq
          have hmod := hfreeq.aligned
          by_contra hbefore
          apply hfreeq.not_mapped (a := .ofNat 32 t) (by omega) (by omega)
          exact hmapped
        refine ⟨r, hr, ?_⟩
        rcases hfirst with ⟨hr, hnone⟩ | ⟨hregion, hrs, hmin⟩
        · left
          refine ⟨hr, ?_⟩
          intro q hq hfreeq
          exact hnone q (hafter q hq hfreeq) hfreeq
        · right
          refine ⟨hregion, by omega, ?_⟩
          intro q hq hfreeq
          exact hmin q (hafter q hq hfreeq) hfreeq
      · rw [if_neg hmapped]
        have hfree' := free_page (s := s) (a := .ofNat 32 t) (by omega) (by simpa using hmapped)
          (by rw [htNat]; exact hfree)
        rw [htNat] at hfree'
        have hfits : t - s + 4096 ≤ size.toNat := by omega
        rcases span_cases hle (by omega) hfits with ⟨hfound, hlen⟩ | ⟨hfound, hlt, hless⟩
        · rw [if_pos hfound]
          refine ⟨_, rfl, .inr ⟨⟨?_, ?_, ?_⟩, ?_, ?_⟩⟩
          · apply aligned_of_toNat
            rw [hsNat]
            exact hs
          · omega
          · rw [hsNat]
            intro x hx hx'
            exact hfree' x hx (by omega)
          · rw [hsNat]
          · rw [hsNat]
            exact fun q hq _ => hq
        · rw [if_neg hfound, if_pos hlt]
          exact ih hs (by omega) (by omega) (by omega) (by omega) (by omega) hfree' (by omega)

lemma mapSpace_eq (fuel : ℕ) (ha : pageOffset LogPageSize address = 0#32)
    (hs : pageOffset LogPageSize size = 0#32) :
    m.MapSpace fuel address size = MapSpace.loop m size fuel address address := by
  apply if_neg
  rw [not_or, not_not, not_not]
  exact ⟨ha, hs⟩

lemma mapSpace_loop_empty (h : MapSpace.loop m 0#32 fuel a a = some r) : r = -1#32 := by
  induction fuel generalizing a with
  | zero => cases h
  | succ fuel ih =>
    have hone : a - a + PageSize = PageSize := by rw [BitVec.sub_self, BitVec.zero_add]
    rw [MapSpace.loop, hone] at h
    split_ifs at h with hzero hmapped hfound hless
    · exact (Option.some.inj h).symm
    · exact ih h
    · exact absurd hfound (by decide)
    · exact absurd hless (by decide)

lemma up_le_up (hr : address.toNat ≤ r.toNat) (h : address.toNat ≤ q.toNat → r.toNat ≤ q.toNat) :
    (r - address).toNat ≤ (q - address).toNat := by
  have hltR := r.isLt
  have hltQ := q.isLt
  have hltA := address.isLt
  rw [BitVec.toNat_sub, BitVec.toNat_sub]
  omega

lemma mapSpace_first (ha : pageOffset LogPageSize address = 0#32)
    (hs : pageOffset LogPageSize size = 0#32) (hsize : size ≠ 0#32) :
    ∃ r, m.MapSpace (2 ^ 20) address size = some r ∧
      ((r = -1#32 ∧ ∀ q, address ≠ 0#32 ∧ address.toNat ≤ q.toNat → ¬ FreeRegion m size q) ∨
        (FreeRegion m size r ∧ (address ≠ 0#32 ∧ address.toNat ≤ r.toNat) ∧
          ∀ q, FreeRegion m size q → (r - address).toNat ≤ (q - address).toNat)) := by
  rw [mapSpace_eq _ ha hs]
  by_cases haddress : address = 0#32
  · rw [show 2 ^ 20 = 2 ^ 20 - 1 + 1 from rfl, MapSpace.loop, if_pos haddress]
    exact ⟨_, rfl, .inl ⟨rfl, fun q hq => absurd haddress hq.1⟩⟩
  have hmod := toNat_mod_of_aligned ha
  have hpos : address.toNat ≠ 0 := fun hzero => haddress (BitVec.eq_of_toNat_eq hzero)
  have hsome : size.toNat ≠ 0 := fun hzero => hsize (BitVec.eq_of_toNat_eq hzero)
  have hlt := address.isLt
  have hfuel : 2 ^ 32 < address.toNat + 2 ^ 20 * 4096 := by omega
  obtain ⟨r, hr, hfirst⟩ := mapSpace_loop_first (m := m) hmod hmod
    (toNat_mod_of_aligned hs) le_rfl (by omega) hlt.le (by omega)
    (fun x hx hx' => absurd hx hx'.not_ge) hfuel
  rw [BitVec.ofNat_toNat, BitVec.setWidth_eq] at hr
  refine ⟨r, hr, ?_⟩
  rcases hfirst with ⟨hminus, hnone⟩ | ⟨hregion, hle, hmin⟩
  · exact .inl ⟨hminus, fun q hq => hnone q hq.2⟩
  · right
    refine ⟨hregion, ⟨haddress, hle⟩, ?_⟩
    intro q hq
    exact up_le_up hle fun haq => hmin q haq hq

lemma mapSpace_spec (h : m.MapSpace fuel address size = some a) (hne : a ≠ -1#32) :
    a.toNat % 4096 = 0 ∧ ∀ x : BitVec 32, a.toNat ≤ x.toNat → x.toNat < a.toNat + size.toNat →
      m.getPage x = none := by
  have hassert := h
  unfold MapSpace at hassert
  split_ifs at hassert with hnot
  rw [not_or, not_not, not_not, and_mask] at hnot
  obtain ⟨ha, hs⟩ := hnot
  by_cases hsize : size = 0#32
  · subst hsize
    rw [mapSpace_eq fuel ha hs] at h
    exact absurd (mapSpace_loop_empty h) hne
  · obtain ⟨r, hr, hfound⟩ := mapSpace_first (m := m) ha hs hsize
    -- the two runs are one with more fuel
    have hsame := mapSpace_mono (le_max_left fuel (2 ^ 20)) h
    rw [mapSpace_mono (le_max_right fuel (2 ^ 20)) hr] at hsame
    obtain rfl := Option.some.inj hsame
    rcases hfound with ⟨hminus, -⟩ | ⟨hregion, -⟩
    · exact absurd hminus hne
    · exact ⟨hregion.aligned, hregion.2.2⟩

lemma mapSpace_nearest_iff (ha : pageOffset LogPageSize address = 0#32)
    (hs : pageOffset LogPageSize size = 0#32) :
    FindsNearest m size (· - address) (fun fuel => m.MapSpace fuel address size) ↔
      size ≠ 0#32 ∧
        ((∃ q, (address ≠ 0#32 ∧ address.toNat ≤ q.toNat) ∧ FreeRegion m size q) ∨
          ∀ q, ¬ FreeRegion m size q) := by
  by_cases hsize : size = 0#32
  · subst hsize
    refine iff_of_false ?_ (fun h => h.1 rfl)
    rintro ⟨n, r, hr, hnone, -⟩
    have hloop : m.MapSpace n address 0#32 = some r := hr n le_rfl
    rw [mapSpace_eq n ha hs] at hloop
    exact hnone (mapSpace_loop_empty hloop) 0#32 freeRegion_empty
  · rw [and_iff_right hsize]
    exact findsNearest_iff mapSpace_mono ⟨2 ^ 20, mapSpace_first ha hs hsize⟩

end Up

section Down

lemma mapSpaceDown_mono (hle : n ≤ fuel) (h : m.MapSpaceDown n address size = some r) :
    m.MapSpaceDown fuel address size = some r := by
  have hloop : ∀ {n fuel : ℕ} {tag_start tag_end : BitVec 32}, n ≤ fuel →
      MapSpaceDown.loop m size n tag_start tag_end = some r →
      MapSpaceDown.loop m size fuel tag_start tag_end = some r := by
    intro n
    induction n with
    | zero =>
      intro fuel tag_start tag_end _ h
      cases h
    | succ n ih =>
      intro fuel tag_start tag_end hle h
      obtain ⟨fuel, rfl⟩ := Nat.exists_eq_add_of_lt hle
      rw [MapSpaceDown.loop] at h ⊢
      split_ifs at h ⊢
      · exact h
      · exact ih (by omega) h
      · exact h
      · exact ih (by omega) h
  unfold MapSpaceDown at h ⊢
  split_ifs at h ⊢
  exact hloop hle h

/-- The loop of `MapSpaceDown` finds the last free region that ends with the page of `t` or before,
when the pages behind `s` are free and too few. -/
lemma mapSpaceDown_loop_last (hs : s % 4096 = 0) (ht : t % 4096 = 0)
    (hsize : size.toNat % 4096 = 0) (hle : s ≤ t) (hend : t < 2 ^ 32) (hfew : t - s < size.toNat)
    (hfree : ∀ x : BitVec 32, s + 4096 ≤ x.toNat → x.toNat < t + 4096 → m.getPage x = none)
    (hfuel : s < fuel * 4096) :
    ∃ r, MapSpaceDown.loop m size fuel (.ofNat 32 s) (.ofNat 32 t) = some r ∧
      ((r = -1#32 ∧ ∀ q, q ≠ 0#32 → q.toNat + size.toNat ≤ t + 4096 → ¬ FreeRegion m size q) ∨
        (FreeRegion m size r ∧ r ≠ 0#32 ∧ r.toNat + size.toNat ≤ t + 4096 ∧
          ∀ q, q.toNat + size.toNat ≤ t + 4096 → FreeRegion m size q → q.toNat ≤ r.toNat)) := by
  induction fuel generalizing s t with
  | zero => omega
  | succ fuel ih =>
    have hpage : PageSize.toNat = 4096 := rfl
    have htNat : (BitVec.ofNat 32 t).toNat = t := by
      rw [BitVec.toNat_ofNat]
      omega
    have hsNat : (BitVec.ofNat 32 s).toNat = s := by
      rw [BitVec.toNat_ofNat]
      omega
    rw [MapSpaceDown.loop]
    by_cases hzero : s = 0
    · rw [if_pos (by rw [hzero])]
      refine ⟨_, rfl, .inl ⟨rfl, ?_⟩⟩
      intro q hq hqt _
      apply hq
      apply BitVec.eq_of_toNat_eq
      change q.toNat = 0
      omega
    · have hne : BitVec.ofNat 32 s ≠ 0#32 := by
        intro hcontra
        rw [hcontra] at hsNat
        exact hzero hsNat.symm
      have hnext : BitVec.ofNat 32 s - PageSize = .ofNat 32 (s - 4096) := by
        apply BitVec.eq_of_toNat_eq
        rw [BitVec.toNat_sub, BitVec.toNat_ofNat, BitVec.toNat_ofNat, hpage]
        omega
      rw [if_neg hne, hnext]
      by_cases hmapped : (m.getPage (.ofNat 32 s)).isSome = true
      · rw [if_pos hmapped]
        obtain ⟨r, hr, hlast⟩ := ih (s := s - 4096) (t := s - 4096) (by omega) (by omega) le_rfl
          (by omega) (by omega) (fun x hx hx' => absurd hx hx'.not_ge) (by omega)
        -- a region that ends behind `s` holds the mapped page
        have hbefore : ∀ q, q.toNat + size.toNat ≤ t + 4096 → FreeRegion m size q →
            q.toNat + size.toNat ≤ s - 4096 + 4096 := by
          intro q hq hfreeq
          have hmod := hfreeq.aligned
          by_contra hafter
          apply hfreeq.not_mapped (a := .ofNat 32 s) (by omega) (by omega)
          exact hmapped
        refine ⟨r, hr, ?_⟩
        rcases hlast with ⟨hr, hnone⟩ | ⟨hregion, hrz, hrs, hmax⟩
        · left
          refine ⟨hr, ?_⟩
          intro q hqz hq hfreeq
          exact hnone q hqz (hbefore q hq hfreeq) hfreeq
        · right
          refine ⟨hregion, hrz, by omega, ?_⟩
          intro q hq hfreeq
          exact hmax q (hbefore q hq hfreeq) hfreeq
      · rw [if_neg hmapped]
        have hfree' : ∀ x : BitVec 32, s ≤ x.toNat → x.toNat < t + 4096 → m.getPage x = none := by
          intro x hx hx'
          by_cases hlt : s + 4096 ≤ x.toNat
          · exact hfree x hlt hx'
          · have hnone : m.getPage (.ofNat 32 s) = none := by simpa using hmapped
            rw [← hnone]
            apply getPage_of_page
            omega
        have hfits : t - s + 4096 ≤ size.toNat := by omega
        rcases span_cases hle hend hfits with ⟨hfound, hlen⟩ | ⟨hfound, hlt, hless⟩
        · rw [if_pos hfound]
          refine ⟨_, rfl, .inr ⟨⟨?_, ?_, ?_⟩, hne, ?_, ?_⟩⟩
          · apply aligned_of_toNat
            rw [hsNat]
            exact hs
          · omega
          · rw [hsNat]
            intro x hx hx'
            exact hfree' x hx (by omega)
          · omega
          · intro q hq _
            omega
        · rw [if_neg hfound, if_pos hlt]
          apply ih (by omega) ht (by omega) hend (by omega) _ (by omega)
          intro x hx hx'
          exact hfree' x (by omega) hx'

lemma mapSpaceDown_eq (fuel : ℕ) (ha : pageOffset LogPageSize address = 0#32)
    (hs : pageOffset LogPageSize size = 0#32) :
    m.MapSpaceDown fuel address size = MapSpaceDown.loop m size fuel address address := by
  apply if_neg
  rw [not_or, not_not, not_not]
  exact ⟨ha, hs⟩

lemma mapSpaceDown_empty (h : MapSpaceDown.loop m 0#32 fuel a a = some r) : r = -1#32 := by
  induction fuel generalizing a with
  | zero => cases h
  | succ fuel ih =>
    have hone : a - a + PageSize = PageSize := by rw [BitVec.sub_self, BitVec.zero_add]
    rw [MapSpaceDown.loop, hone] at h
    split_ifs at h with hzero hmapped hfound hless
    · exact (Option.some.inj h).symm
    · exact ih h
    · exact absurd hfound (by decide)
    · exact absurd hless (by decide)

/-- The last page of a region of the given size. -/
def lastPage (size r : BitVec 32) : BitVec 32 := r + size - PageSize

lemma FreeRegion.toNat_lastPage (h : FreeRegion m size q) (hs : size.toNat % 4096 = 0)
    (hsize : size ≠ 0#32) : (lastPage size q).toNat = q.toNat + size.toNat - 4096 := by
  have hsome : size.toNat ≠ 0 := fun hzero => hsize (BitVec.eq_of_toNat_eq hzero)
  have hpage : PageSize.toNat = 4096 := rfl
  have hinside := h.2.1
  unfold lastPage
  rw [BitVec.toNat_sub, BitVec.toNat_add, hpage]
  omega

lemma mapSpaceDown_last (ha : pageOffset LogPageSize address = 0#32)
    (hs : pageOffset LogPageSize size = 0#32) (hsize : size ≠ 0#32) :
    ∃ r, m.MapSpaceDown (2 ^ 20) address size = some r ∧
      ((r = -1#32 ∧ ∀ q, q ≠ 0#32 ∧ q.toNat + size.toNat ≤ address.toNat + 4096 →
          ¬ FreeRegion m size q) ∨
        (FreeRegion m size r ∧ (r ≠ 0#32 ∧ r.toNat + size.toNat ≤ address.toNat + 4096) ∧
          ∀ q, FreeRegion m size q →
            (address - lastPage size r).toNat ≤ (address - lastPage size q).toNat)) := by
  rw [mapSpaceDown_eq _ ha hs]
  have hmod := toNat_mod_of_aligned ha
  have hmodSize := toNat_mod_of_aligned hs
  have hsome : size.toNat ≠ 0 := fun hzero => hsize (BitVec.eq_of_toNat_eq hzero)
  have hlt := address.isLt
  have hfuel : address.toNat < 2 ^ 20 * 4096 := by omega
  obtain ⟨r, hr, hlast⟩ := mapSpaceDown_loop_last (m := m)
    hmod hmod hmodSize le_rfl hlt (by omega) (by intro x hx hx'; omega) hfuel
  rw [BitVec.ofNat_toNat, BitVec.setWidth_eq] at hr
  refine ⟨r, hr, ?_⟩
  rcases hlast with ⟨hminus, hnone⟩ | ⟨hregion, hzero, hle, hmax⟩
  · exact .inl ⟨hminus, fun q hq => hnone q hq.1 hq.2⟩
  · right
    refine ⟨hregion, ⟨hzero, hle⟩, ?_⟩
    intro q hq
    have hr := hregion.toNat_lastPage hmodSize hsize
    have hlastq := hq.toNat_lastPage hmodSize hsize
    have hqr := fun h => hmax q h hq
    have hltq := (lastPage size q).isLt
    rw [BitVec.toNat_sub, BitVec.toNat_sub]
    omega

lemma mapSpaceDown_spec (h : m.MapSpaceDown fuel address size = some a) (hne : a ≠ -1#32) :
    a.toNat % 4096 = 0 ∧ a.toNat + size.toNat ≤ address.toNat + 4096 ∧
      ∀ x : BitVec 32, a.toNat ≤ x.toNat → x.toNat < a.toNat + size.toNat →
        m.getPage x = none := by
  have hassert := h
  unfold MapSpaceDown at hassert
  split_ifs at hassert with hnot
  rw [not_or, not_not, not_not, and_mask] at hnot
  obtain ⟨ha, hs⟩ := hnot
  by_cases hsize : size = 0#32
  · subst hsize
    rw [mapSpaceDown_eq fuel ha hs] at h
    exact absurd (mapSpaceDown_empty h) hne
  · obtain ⟨r, hr, hfound⟩ := mapSpaceDown_last (m := m) ha hs hsize
    have hsame := mapSpaceDown_mono (le_max_left fuel (2 ^ 20)) h
    rw [mapSpaceDown_mono (le_max_right fuel (2 ^ 20)) hr] at hsame
    obtain rfl := Option.some.inj hsame
    rcases hfound with ⟨hminus, -⟩ | ⟨hregion, ⟨-, hle⟩, -⟩
    · exact absurd hminus hne
    · exact ⟨hregion.aligned, hle, hregion.2.2⟩

lemma mapSpaceDown_nearest_iff (ha : pageOffset LogPageSize address = 0#32)
    (hs : pageOffset LogPageSize size = 0#32) :
    FindsNearest m size (address - lastPage size ·)
        (fun fuel => m.MapSpaceDown fuel address size) ↔
      size ≠ 0#32 ∧
        ((∃ q, (q ≠ 0#32 ∧ q.toNat + size.toNat ≤ address.toNat + 4096) ∧
          FreeRegion m size q) ∨ ∀ q, ¬ FreeRegion m size q) := by
  by_cases hsize : size = 0#32
  · subst hsize
    refine iff_of_false ?_ (fun h => h.1 rfl)
    rintro ⟨n, r, hr, hnone, -⟩
    have hloop : m.MapSpaceDown n address 0#32 = some r := hr n le_rfl
    rw [mapSpaceDown_eq n ha hs] at hloop
    exact hnone (mapSpaceDown_empty hloop) 0#32 freeRegion_empty
  · rw [and_iff_right hsize]
    exact findsNearest_iff mapSpaceDown_mono ⟨_, mapSpaceDown_last ha hs hsize⟩

end Down

/-- The searches end and find the nearest free region exactly if the size is not zero and there is
no free region or one that they can reach. -/
theorem searches_nearest_iff (m : Memory) (address size : BitVec 32)
    (ha : pageOffset LogPageSize address = 0#32) (hs : pageOffset LogPageSize size = 0#32) :
    (FindsNearest m size (· - address) (fun fuel => m.MapSpace fuel address size) ↔
      size ≠ 0#32 ∧
        ((∃ q, (address ≠ 0#32 ∧ address.toNat ≤ q.toNat) ∧ FreeRegion m size q) ∨
          ∀ q, ¬ FreeRegion m size q)) ∧
    (FindsNearest m size (address - lastPage size ·)
        (fun fuel => m.MapSpaceDown fuel address size) ↔
      size ≠ 0#32 ∧
        ((∃ q, (q ≠ 0#32 ∧ q.toNat + size.toNat ≤ address.toNat + 4096) ∧
          FreeRegion m size q) ∨ ∀ q, ¬ FreeRegion m size q)) :=
  ⟨mapSpace_nearest_iff ha hs, mapSpaceDown_nearest_iff ha hs⟩

/-- In an empty memory both searches find the page of the address. -/
theorem searches_nearest_empty :
    FindsNearest {} 0x1000#32 (· - 0x5000#32) (fun fuel => MapSpace fuel {} 0x5000#32 0x1000#32) ∧
    FindsNearest {} 0x1000#32 (0x5000#32 - lastPage 0x1000#32 ·)
      (fun fuel => MapSpaceDown fuel {} 0x5000#32 0x1000#32) := by
  have hregion : FreeRegion {} 0x1000#32 0x5000#32 := ⟨rfl, by decide, fun _ _ _ => rfl⟩
  obtain ⟨hup, hdown⟩ := searches_nearest_iff {} 0x5000#32 0x1000#32 rfl rfl
  exact ⟨hup.mpr ⟨by decide, .inl ⟨_, by decide, hregion⟩⟩,
    hdown.mpr ⟨by decide, .inl ⟨_, by decide, hregion⟩⟩⟩

/-- The search upwards from the last page, which is mapped, does not go on with the first pages. -/
theorem search_not_circular :
    let m := ({} : Memory).setPage 0xFFFFF000#32 (some (Page.new 0xFFFFF000#32 3#32))
    ¬ FindsNearest m 0x1000#32 (· - 0xFFFFF000#32)
      (fun fuel => m.MapSpace fuel 0xFFFFF000#32 0x1000#32) := by
  intro m
  rintro ⟨n, r, hr, hnone, -⟩
  have hminus : m.MapSpace 2 0xFFFFF000#32 0x1000#32 = some (-1#32) := by decide
  have hsame : m.MapSpace (n + 2) 0xFFFFF000#32 0x1000#32 = some r := hr _ (by omega)
  rw [mapSpace_mono (Nat.le_add_left 2 n) hminus] at hsame
  refine hnone (Option.some.inj hsame).symm 0x5000#32 ⟨rfl, by decide, ?_⟩
  intro x hx hx'
  apply getPage_setPage_of_ne
  intro htag
  have heq := (pageTag_eq_iff logPageSize_lt).mp htag
  change x.toNat / 4096 = 0xFFFFF at heq
  change x.toNat < 0x5000 + 0x1000 at hx'
  omega

end OISA.Memory
