import OISA.Proofs.AddressSpaceCalls

/-!
# mremap

A region that shrinks or grows in place keeps its pages; one that moves is copied page by page
to pages that may be read and written, whatever the region allowed.
-/

namespace OISA.X86.AddressSpace

open OISA.Lib OISA.Memory

section Copies

variable {m m' : Memory} {dest src size x : Word} {fuel : ℕ}

def copyPage (page_dest page_src : Page) : Page :=
  match page_src.data with
  | some data => page_dest.setData data
  | none =>
    match page_dest.data with
    | some _ => page_dest.setData fun _ => 0
    | none => page_dest

lemma copyPage_spec (page_dest page_src : Page) :
    (copyPage page_dest page_src).perm = page_dest.perm ∧
      (copyPage page_dest page_src).AllocateData = page_src.AllocateData := by
  unfold copyPage Page.AllocateData
  cases hsrc : page_src.data with
  | some data => exact ⟨rfl, rfl⟩
  | none =>
    cases hdest : page_dest.data with
    | some data => exact ⟨rfl, rfl⟩
    | none => exact ⟨rfl, by rw [hdest]⟩

lemma copyLoop_succ (h : size ≠ 0) : copyLoop (fuel + 1) dest src size m =
    match m.getPage dest, m.getPage src with
    | some page_dest, some page_src =>
      copyLoop fuel (dest + PageSize) (src + PageSize) (size - PageSize)
        (m.setPage dest (some (copyPage page_dest page_src)))
    | _, _ => none := by
  rw [copyLoop, if_neg h]
  rfl

/-- Two ranges of pages without a common byte -/
def Apart (p q n : ℕ) : Prop := p + n ≤ q ∨ q + n ≤ p

/-- The loop succeeds exactly when the pages of the source exist, and copies them. -/
lemma copyLoop_spec (k : ℕ) (hd : dest.toNat % 4096 = 0) (hs : src.toNat % 4096 = 0)
    (hk : size.toNat = k * 4096) (hdlast : dest.toNat + size.toNat ≤ 0xFFFFF000)
    (hslast : src.toNat + size.toNat ≤ 0xFFFFF000) (hfuel : k < fuel)
    (hapart : Apart dest.toNat src.toNat size.toNat)
    (hdest : ∀ x, InBytes dest.toNat size.toNat x → (m.getPage x).isSome = true) :
    ((∃ m', copyLoop fuel dest src size m = some m') ↔
      ∀ x, InBytes src.toNat size.toNat x → (m.getPage x).isSome = true) ∧
    ∀ m', copyLoop fuel dest src size m = some m' → ∀ x,
      (InBytes dest.toNat size.toNat x → ∃ page page_src page',
        m.getPage x = some page ∧ m.getPage (x - dest + src) = some page_src ∧
        m'.getPage x = some page' ∧ page'.perm = page.perm ∧
        page'.AllocateData = page_src.AllocateData) ∧
      (¬ InBytes dest.toNat size.toNat x → m'.getPage x = m.getPage x) := by
  induction k generalizing fuel dest src size m with
  | zero =>
    obtain ⟨fuel, rfl⟩ := Nat.exists_eq_succ_of_ne_zero (by omega : fuel ≠ 0)
    have hzero : size = 0 := BitVec.eq_of_toNat_eq (by rw [hk, Nat.zero_mul]; rfl)
    rw [copyLoop, if_pos hzero]
    refine ⟨iff_of_true ⟨m, rfl⟩ fun x hx => ?_, fun m' hm' x => ⟨fun hx => ?_, fun _ => ?_⟩⟩
    · unfold InBytes at hx
      omega
    · unfold InBytes at hx
      omega
    · rw [Option.some.inj hm']
  | succ k ih =>
    obtain ⟨fuel, rfl⟩ := Nat.exists_eq_succ_of_ne_zero (by omega : fuel ≠ 0)
    have hne : size ≠ 0 := by
      rintro rfl
      change 0 = _ at hk
      omega
    have hsize : PageSize.toNat = 4096 := rfl
    have hrest : (size - PageSize).toNat = k * 4096 := by
      rw [BitVec.toNat_sub, hsize]
      omega
    have hdnext : (dest + PageSize).toNat = dest.toNat + 4096 := by
      rw [BitVec.toNat_add, hsize]
      omega
    have hsnext : (src + PageSize).toNat = src.toNat + 4096 := by
      rw [BitVec.toNat_add, hsize]
      omega
    have hdstart : InBytes dest.toNat size.toNat dest := by
      unfold InBytes
      omega
    have hsstart : InBytes src.toNat size.toNat src := by
      unfold InBytes
      omega
    obtain ⟨page, hpage⟩ := Option.isSome_iff_exists.mp (hdest dest hdstart)
    rw [copyLoop_succ hne, hpage]
    cases hsrc : m.getPage src with
    | none =>
      refine ⟨iff_of_false (fun hex => by obtain ⟨m', hm'⟩ := hex; cases hm') fun hall => ?_,
        fun m' hm' => by cases hm'⟩
      have hmapped := hall src hsstart
      rw [hsrc] at hmapped
      cases hmapped
    | some page_src =>
      dsimp only
      set m₁ := m.setPage dest (some (copyPage page page_src)) with hm₁
      have hother : ∀ x : Word, x.toNat / 4096 ≠ dest.toNat / 4096 →
          m₁.getPage x = m.getPage x := by
        intro x hx
        rw [hm₁]
        refine getPage_setPage_of_ne fun htag => hx ?_
        exact (pageTag_eq_iff logPageSize_lt).mp htag
      have hsame : ∀ x : Word, x.toNat / 4096 = dest.toNat / 4096 →
          m₁.getPage x = some (copyPage page page_src) := by
        intro x hx
        rw [getPage_of_page hx, hm₁, getPage_setPage_of_tag rfl]
      have hmapped₁ : ∀ x, (m.getPage x).isSome = true → (m₁.getPage x).isSome = true := by
        intro x hx
        by_cases hpg : x.toNat / 4096 = dest.toNat / 4096
        · rw [hsame x hpg]
          rfl
        · rw [hother x hpg]
          exact hx
      have hsrcOther : ∀ x, InBytes src.toNat size.toNat x → m₁.getPage x = m.getPage x := by
        intro x hx
        apply hother
        unfold InBytes at hx
        unfold Apart at hapart
        omega
      have hsrcIn : ∀ x, InBytes (src + PageSize).toNat (size - PageSize).toNat x →
          InBytes src.toNat size.toNat x := by
        intro x hx
        unfold InBytes at hx ⊢
        omega
      obtain ⟨hiff, hcopy⟩ := @ih m₁ (dest + PageSize)
        (src + PageSize) (size - PageSize) fuel (by omega) (by omega) hrest (by omega)
        (by omega) (by omega) (by unfold Apart at hapart ⊢; omega) (fun x hx => by
          apply hmapped₁
          apply hdest
          unfold InBytes at hx ⊢
          omega)
      refine ⟨hiff.trans ⟨fun hall x hx => ?_, fun hall x hx => ?_⟩, fun m' hm' x =>
        ⟨fun hx => ?_, fun hx => ?_⟩⟩
      · by_cases hpg : x.toNat / 4096 = src.toNat / 4096
        · rw [getPage_of_page hpg, hsrc]
          rfl
        · rw [← hsrcOther x hx]
          apply hall
          unfold InBytes at hx ⊢
          omega
      · rw [hsrcOther x (hsrcIn x hx)]
        exact hall x (hsrcIn x hx)
      · have hdist : (x - dest + src).toNat = x.toNat - dest.toNat + src.toNat := by
          unfold InBytes at hx
          rw [BitVec.toNat_add, BitVec.toNat_sub]
          omega
        by_cases hpg : x.toNat / 4096 = dest.toNat / 4096
        · have hout : ¬ InBytes (dest + PageSize).toNat (size - PageSize).toNat x := by
            unfold InBytes
            omega
          obtain ⟨hperm, hdata⟩ := copyPage_spec page page_src
          refine ⟨page, page_src, copyPage page page_src, ?_, ?_, ?_, hperm, hdata⟩
          · rw [getPage_of_page hpg, hpage]
          · rw [← hsrc]
            apply getPage_of_page
            omega
          · rw [((hcopy m' hm') x).2 hout, hsame x hpg]
        · have hin : InBytes (dest + PageSize).toNat (size - PageSize).toNat x := by
            unfold InBytes at hx ⊢
            omega
          obtain ⟨p, p_src, p', hp, hps, hp', hperm, hdata⟩ := ((hcopy m' hm') x).1 hin
          have hshift : x - (dest + PageSize) + (src + PageSize) = x - dest + src := by
            apply BitVec.eq_of_toNat_eq
            rw [hdist, BitVec.toNat_add, BitVec.toNat_sub, hdnext, hsnext]
            unfold InBytes at hin
            omega
          rw [hshift] at hps
          refine ⟨p, p_src, p', by rw [← hother x hpg, hp], ?_, hp', hperm, hdata⟩
          rw [← hsrcOther _ ?_, hps]
          unfold InBytes at hx ⊢
          rw [hdist]
          omega
      · have hout : ¬ InBytes (dest + PageSize).toNat (size - PageSize).toNat x := by
          unfold InBytes at hx ⊢
          omega
        rw [((hcopy m' hm') x).2 hout]
        apply hother
        unfold InBytes at hx
        omega

end Copies

section InPlace

variable {m : Memory} {a size : Word} {fuel : ℕ}

lemma mapSpace_free (ha : a.toNat % 4096 = 0) (hs : size.toNat % 4096 = 0)
    (hpos : 0 < size.toNat) (hspace : a.toNat + size.toNat ≤ 2 ^ 32) (hzero : a ≠ 0)
    (hfuel : 2 ^ 20 ≤ fuel)
    (hfree : ∀ x, InBytes a.toNat size.toNat x → m.getPage x = none) :
    m.MapSpace fuel a size = some a := by
  have hregion : FreeRegion m size a :=
    ⟨aligned_of_toNat ha, hspace, fun x hle hlt => hfree x ⟨hle, hlt⟩⟩
  obtain ⟨r, hr, hfound⟩ := mapSpace_first (m := m) hregion.1 (aligned_of_toNat hs)
    (size_ne_zero hpos)
  rw [mapSpace_mono hfuel hr]
  rcases hfound with ⟨-, hnone⟩ | ⟨-, -, hnearest⟩
  · exact absurd hregion (hnone a ⟨hzero, le_rfl⟩)
  · -- no region is nearer than the one at the start
    have hdist := hnearest a hregion
    rw [BitVec.sub_self, BitVec.toNat_sub] at hdist
    change _ ≤ 0 at hdist
    have hlt := a.isLt
    have hsame : r = a := BitVec.eq_of_toNat_eq (by omega)
    rw [hsame]

end InPlace

def seen (m : Memory) (x : Word) : Option (Word × UInt8) :=
  (m.getPage x).map fun page => (protection page.perm, page.AllocateData (x.toNat % 4096))

def Uniform (m : Memory) (r n : ℕ) (prot : Word) : Prop :=
  ∀ x, InBytes r n x → ∃ page, m.getPage x = some page ∧ protection page.perm = prot

/-- What `mremap` has done: the bytes that are in the old and in the new region keep their
values and permissions, added pages have the permissions of the region, and no page outside the
two regions is changed. -/
def MremapDone (m : Memory) (addr old_len new_len : Word) : Result → Prop
  | .error _ => True
  | .returns r m' =>
    r.toNat % 4096 = 0 ∧ r.toNat + new_len.toNat ≤ 2 ^ 32 ∧
    (∀ i < min old_len.toNat new_len.toNat,
      seen m' (BitVec.ofNat 32 (r.toNat + i)) = seen m (BitVec.ofNat 32 (addr.toNat + i))) ∧
    (∀ prot, Uniform m addr.toNat old_len.toNat prot →
      Uniform m' (r.toNat + old_len.toNat) (new_len.toNat - old_len.toNat) prot) ∧
    ∀ x, ¬ InBytes addr.toNat old_len.toNat x → ¬ InBytes r.toNat new_len.toNat x →
      m'.getPage x = m.getPage x

/-- When a call of `mremap` does what it has to do: the program is told of an error, the region
keeps its length or shrinks, or it grows and its pages may be read and written. -/
def MremapFits (fuel : ℕ) (m : Memory) (addr old_len new_len flags : Word) : Prop :=
  old_len.toNat % 4096 = 0 ∧ new_len.toNat % 4096 = 0 ∧ (flags &&& 1 = 0 ∨
    new_len = old_len ∨
    new_len.toNat < old_len.toNat ∧ addr.toNat + old_len.toNat ≤ 0xFFFFF000 ∨
    old_len.toNat < new_len.toNat ∧
      if m.MapSpace fuel (addr + old_len) (new_len - old_len) = some (addr + old_len) then
        addr.toNat + new_len.toNat ≤ 0xFFFFF000 ∧
          ∀ prot, Uniform m addr.toNat old_len.toNat prot → prot = 3
      else
        m.MapSpaceDown fuel mmap_base_address new_len = some (-1) ∨
          Uniform m addr.toNat old_len.toNat 3)

section Mremap

variable {m m' : Memory} {addr old_len new_len flags r : Word} {fuel : ℕ}

lemma seen_congr {x y : Word} (hpage : m'.getPage x = m.getPage y)
    (hoffset : x.toNat % 4096 = y.toNat % 4096) : seen m' x = seen m y := by
  rw [seen, seen, hpage, hoffset]

lemma toNat_offset {p i : ℕ} (h : p + i < 2 ^ 32) : (BitVec.ofNat 32 (p + i)).toNat = p + i := by
  rw [BitVec.toNat_ofNat]
  omega

lemma mremap_shrink_iff (hfuel : 2 ^ 20 < fuel) (ha : addr.toNat % 4096 = 0)
    (ho : old_len.toNat % 4096 = 0) (hn : new_len.toNat % 4096 = 0)
    (hspace : addr.toNat + old_len.toNat ≤ 2 ^ 32) (hlt : new_len.toNat < old_len.toNat) :
    (∃ result, ((m.Unmap fuel (addr + new_len) (old_len - new_len)).map (.returns addr)) =
        some result ∧ MremapDone m addr old_len new_len result) ↔
      addr.toNat + old_len.toNat ≤ 0xFFFFF000 := by
  have hstart : (addr + new_len).toNat = addr.toNat + new_len.toNat :=
    BitVec.toNat_add_of_lt (by omega)
  have hsize : (old_len - new_len).toNat = old_len.toNat - new_len.toNat :=
    BitVec.toNat_sub_of_le (BitVec.le_def.mpr (by omega))
  by_cases hlast : addr.toNat + old_len.toNat ≤ 0xFFFFF000
  · obtain ⟨m', hm', hpages⟩ := @unmap_range (addr + new_len)
      (old_len - new_len) fuel m (by omega) (by omega) (by omega) (by omega) hfuel.le
    rw [hstart, hsize] at hpages
    rw [hm', Option.map_some]
    refine iff_of_true ⟨_, rfl, ha, by omega, fun i hi => ?_, fun prot _ x hx => ?_,
      fun x hx _ => ?_⟩ hlast
    · have hx := toNat_offset (p := addr.toNat) (i := i) (by omega)
      refine seen_congr ((hpages _).2 ?_) rfl
      unfold InBytes
      omega
    · unfold InBytes at hx
      omega
    · refine (hpages x).2 ?_
      unfold InBytes at hx ⊢
      omega
  · have hend : addr + new_len + (old_len - new_len) = 0 := add_eq_zero (by omega)
    rw [unmap_forever hend, Option.map_none]
    refine iff_of_false (fun hex => ?_) hlast
    obtain ⟨result, hresult, -⟩ := hex
    cases hresult

lemma map_readWrite (m : Memory) (ha : r.toNat % 4096 = 0) (hs : new_len.toNat % 4096 = 0)
    (hpos : 0 < new_len.toNat) (hlast : r.toNat + new_len.toNat ≤ 0xFFFFF000)
    (hfuel : 2 ^ 20 ≤ fuel)
    (hfree : ∀ x, InBytes r.toNat new_len.toNat x → m.getPage x = none) :
    ∃ m', m.Map fuel r new_len readWrite = some m' ∧ ∀ x,
      (InBytes r.toNat new_len.toNat x → ∃ page, m'.getPage x = some page ∧
        protection page.perm = 3) ∧
      (¬ InBytes r.toNat new_len.toNat x → m'.getPage x = m.getPage x) := by
  obtain ⟨m', hm', hpages⟩ := map_range m ha hs hpos hlast hfuel readWrite
  refine ⟨m', hm', fun x => ⟨fun hx => ?_, (hpages x).2⟩⟩
  have hget := (hpages x).1 hx
  rw [hfree x hx, Option.getD_none] at hget
  refine ⟨_, hget, ?_⟩
  change (readWrite ||| readWrite) &&& 7 = 3
  decide

lemma mremap_inPlace_iff (hfuel : 2 ^ 20 < fuel) (ha : addr.toNat % 4096 = 0)
    (ho : old_len.toNat % 4096 = 0) (hn : new_len.toNat % 4096 = 0) (hpos : 0 < old_len.toNat)
    (hspace : addr.toNat + new_len.toNat ≤ 2 ^ 32) (hlt : old_len.toNat < new_len.toNat)
    (hfound : m.MapSpace fuel (addr + old_len) (new_len - old_len) = some (addr + old_len)) :
    (∃ result, ((m.Map fuel (addr + old_len) (new_len - old_len) readWrite).map
        (.returns addr)) = some result ∧ MremapDone m addr old_len new_len result) ↔
      addr.toNat + new_len.toNat ≤ 0xFFFFF000 ∧
        ∀ prot, Uniform m addr.toNat old_len.toNat prot → prot = 3 := by
  have hstart : (addr + old_len).toNat = addr.toNat + old_len.toNat :=
    BitVec.toNat_add_of_lt (by omega)
  have hsize : (new_len - old_len).toNat = new_len.toNat - old_len.toNat :=
    BitVec.toNat_sub_of_le (BitVec.le_def.mpr (by omega))
  have hne : addr + old_len ≠ -1 := by
    intro heq
    rw [heq] at hstart
    change 0xFFFFFFFF = _ at hstart
    omega
  have hfree : ∀ x, InBytes (addr + old_len).toNat (new_len - old_len).toNat x →
      m.getPage x = none := fun x hx => (mapSpace_spec hfound hne).2 x hx.1 hx.2
  by_cases hlast : addr.toNat + new_len.toNat ≤ 0xFFFFF000
  · obtain ⟨m', hm', hpages⟩ := @map_readWrite (new_len - old_len)
      (addr + old_len) fuel m (by omega) (by omega) (by omega) (by omega) hfuel.le hfree
    rw [hstart, hsize] at hpages
    rw [hm', Option.map_some]
    simp only [Option.some.injEq, exists_eq_left', hlast, true_and]
    unfold MremapDone
    have hadded : ∀ prot, Uniform m' (addr.toNat + old_len.toNat)
        (new_len.toNat - old_len.toNat) prot ↔ prot = 3 := by
      intro prot
      have hin : InBytes (addr.toNat + old_len.toNat) (new_len.toNat - old_len.toNat)
          (addr + old_len) := by
        unfold InBytes
        omega
      constructor
      · intro huniform
        obtain ⟨page, hget, hprot⟩ := huniform _ hin
        obtain ⟨page', hget', hprot'⟩ := (hpages _).1 hin
        rw [hget, Option.some.injEq] at hget'
        rw [← hprot, hget', hprot']
      · rintro rfl x hx
        exact (hpages x).1 hx
    simp only [hadded]
    refine ⟨fun hdone => hdone.2.2.2.1, fun huniform => ⟨ha, hspace, fun i hi => ?_, huniform,
      fun x hx hx' => ?_⟩⟩
    · have hx := toNat_offset (p := addr.toNat) (i := i) (by omega)
      refine seen_congr ((hpages _).2 ?_) rfl
      unfold InBytes
      omega
    · refine (hpages x).2 ?_
      unfold InBytes at hx hx' ⊢
      omega
  · have hend : addr + old_len + (new_len - old_len) = 0 := add_eq_zero (by omega)
    rw [map_forever hend, Option.map_none]
    refine iff_of_false (fun hex => ?_) fun hfits => hlast hfits.1
    obtain ⟨result, hresult, -⟩ := hex
    cases hresult

lemma inBytes_offset {p n : ℕ} {x : Word} (h : InBytes p n x) :
    x.toNat - p < n ∧ BitVec.ofNat 32 (p + (x.toNat - p)) = x := by
  obtain ⟨hle, hlt⟩ := h
  have hback : p + (x.toNat - p) = x.toNat := by omega
  constructor
  · omega
  · rw [hback, BitVec.ofNat_toNat, BitVec.setWidth_eq]

lemma apart_of_disjoint (hpos : 0 < old_len.toNat) (hlt : old_len.toNat < new_len.toNat)
    (hdisjoint : ∀ x, InBytes addr.toNat old_len.toNat x → ¬ InBytes r.toNat new_len.toNat x) :
    Apart r.toNat addr.toNat old_len.toNat := by
  have hout := hdisjoint addr ⟨le_rfl, by omega⟩
  unfold Apart
  by_contra hboth
  rw [not_or] at hboth
  by_cases hle : r.toNat ≤ addr.toNat
  · unfold InBytes at hout
    omega
  · have hcross := hdisjoint r ⟨by omega, by omega⟩
    unfold InBytes at hcross
    omega

lemma seen_moved {m₁ m₂ m₃ : Memory} (hlt : old_len.toNat < new_len.toNat)
    (hrlast : r.toNat + new_len.toNat ≤ 0xFFFFF000)
    (hlast : addr.toNat + old_len.toNat ≤ 0xFFFFF000)
    (ha : addr.toNat % 4096 = 0) (hr : r.toNat % 4096 = 0)
    (hapart : Apart r.toNat addr.toNat old_len.toNat)
    (hnew : ∀ x, InBytes r.toNat new_len.toNat x →
      ∃ page, m₁.getPage x = some page ∧ protection page.perm = 3)
    (hsource : ∀ x, InBytes addr.toNat old_len.toNat x → m₁.getPage x = m.getPage x)
    (hcopied : ∀ x, InBytes r.toNat old_len.toNat x → ∃ page page_src page',
      m₁.getPage x = some page ∧ m₁.getPage (x - r + addr) = some page_src ∧
        m₂.getPage x = some page' ∧ page'.perm = page.perm ∧
        page'.AllocateData = page_src.AllocateData)
    (hkept : ∀ x, ¬ InBytes addr.toNat old_len.toNat x → m₃.getPage x = m₂.getPage x)
    (i : ℕ) (hi : i < old_len.toNat) :
    ∃ page, m.getPage (BitVec.ofNat 32 (addr.toNat + i)) = some page ∧
      seen m₃ (BitVec.ofNat 32 (r.toNat + i)) = some (3,
        page.AllocateData ((BitVec.ofNat 32 (addr.toNat + i)).toNat % 4096)) := by
  have hx := toNat_offset (p := r.toNat) (i := i) (by omega)
  have hy := toNat_offset (p := addr.toNat) (i := i) (by omega)
  have hin : InBytes r.toNat old_len.toNat (BitVec.ofNat 32 (r.toNat + i)) := by
    unfold InBytes
    omega
  have hold : ¬ InBytes addr.toNat old_len.toNat (BitVec.ofNat 32 (r.toNat + i)) := by
    unfold InBytes Apart at *
    omega
  have hshift : BitVec.ofNat 32 (r.toNat + i) - r + addr =
      BitVec.ofNat 32 (addr.toNat + i) := by
    apply BitVec.eq_of_toNat_eq
    rw [BitVec.toNat_add, BitVec.toNat_sub, hx, hy]
    omega
  obtain ⟨page, page_src, page', hget, hsrc, hget', hperm, hdata⟩ := hcopied _ hin
  obtain ⟨page₁, hget₁, hprot₁⟩ := hnew (BitVec.ofNat 32 (r.toNat + i))
    ⟨hin.1, by have hin2 := hin.2; omega⟩
  rw [hget, Option.some.injEq] at hget₁
  rw [hshift, hsource _ ⟨by omega, by omega⟩] at hsrc
  refine ⟨page_src, hsrc, ?_⟩
  rw [seen, hkept _ hold, hget', Option.map_some, hperm, hget₁, hprot₁, hdata, hx, hy]
  congr 3
  omega

/-- The copy of a region to new pages and the end of the old one -/
lemma mremap_move_iff (hfuel : 2 ^ 20 < fuel) (ha : addr.toNat % 4096 = 0)
    (ho : old_len.toNat % 4096 = 0) (hn : new_len.toNat % 4096 = 0) (hpos : 0 < old_len.toNat)
    (hspace : addr.toNat + new_len.toNat ≤ 2 ^ 32) (hlt : old_len.toNat < new_len.toNat)
    (hne : addr ≠ r) (hr : r.toNat % 4096 = 0)
    (hrlast : r.toNat + new_len.toNat ≤ 0xFFFFF000)
    (hfree : ∀ x, InBytes r.toNat new_len.toNat x → m.getPage x = none) :
    (∃ result, ((m.Map fuel r new_len readWrite).bind fun m =>
        (copy fuel m r addr (if new_len < old_len then new_len else old_len)).bind fun m =>
          (m.Unmap fuel addr old_len).map (.returns r)) = some result ∧
      MremapDone m addr old_len new_len result) ↔ Uniform m addr.toNat old_len.toNat 3 := by
  have hmin : (if new_len < old_len then new_len else old_len) = old_len := by
    rw [if_neg]
    rw [BitVec.lt_def]
    omega
  have hlast : addr.toNat + old_len.toNat ≤ 0xFFFFF000 := by omega
  obtain ⟨m₁, hm₁, hpages₁⟩ := map_readWrite m hr hn (by omega) hrlast hfuel.le hfree
  rw [hm₁, Option.bind_some, hmin]
  have hnat : addr.toNat ≠ r.toNat := fun heq => hne (BitVec.eq_of_toNat_eq heq)
  have hsum : (addr + old_len).toNat = addr.toNat + old_len.toNat :=
    BitVec.toNat_add_of_lt (by omega)
  have hsum' : (r + old_len).toNat = r.toNat + old_len.toNat :=
    BitVec.toNat_add_of_lt (by omega)
  have hassert : ¬ (r &&& (PageSize - 1) ≠ 0 ∨ addr &&& (PageSize - 1) ≠ 0 ∨
      old_len &&& (PageSize - 1) ≠ 0) := by
    rw [not_or, not_or, not_not, not_not, not_not]
    exact ⟨mask_eq_zero_iff.mpr hr, mask_eq_zero_iff.mpr ha, mask_eq_zero_iff.mpr ho⟩
  -- the pages of the region exist only where the new one does not lie
  by_cases hmapped : ∀ x, InBytes addr.toNat old_len.toNat x → (m.getPage x).isSome = true
  · have hdisjoint : ∀ x, InBytes addr.toNat old_len.toNat x →
        ¬ InBytes r.toNat new_len.toNat x := by
      intro x hx hx'
      have hsome := hmapped x hx
      rw [hfree x hx'] at hsome
      cases hsome
    have hapart := apart_of_disjoint hpos hlt hdisjoint
    have hoverlap : ¬ (addr < r ∧ r < addr + old_len ∨ r < addr ∧ addr < r + old_len) := by
      rw [BitVec.lt_def, BitVec.lt_def, BitVec.lt_def, BitVec.lt_def, hsum, hsum']
      unfold Apart at hapart
      omega
    obtain ⟨hiff, hcopied⟩ := @copyLoop_spec m₁ _ _ _ fuel (old_len.toNat / 4096) hr ha
      (by omega : old_len.toNat = old_len.toNat / 4096 * 4096) (by omega) hlast (by omega) hapart
      (fun x hx => by
        obtain ⟨page, hget, -⟩ := (hpages₁ x).1 ⟨hx.1, by have hx2 := hx.2; omega⟩
        rw [hget]
        rfl)
    have hsource : ∀ x, InBytes addr.toNat old_len.toNat x → m₁.getPage x = m.getPage x :=
      fun x hx => (hpages₁ x).2 (hdisjoint x hx)
    obtain ⟨m₂, hm₂⟩ := hiff.mpr fun x hx => by
      rw [hsource x hx]
      exact hmapped x hx
    have hpages₂ := hcopied m₂ hm₂
    obtain ⟨m₃, hm₃, hpages₃⟩ := @unmap_range _ _ fuel m₂ ha ho hpos hlast hfuel.le
    have hresult : (copy fuel m₁ r addr old_len).bind (fun m =>
        (m.Unmap fuel addr old_len).map (Result.returns r)) = some (.returns r m₃) := by
      unfold copy
      rw [if_neg hassert, if_neg hoverlap, hm₂, Option.bind_some, hm₃, Option.map_some]
    rw [hresult]
    simp only [Option.some.injEq, exists_eq_left']
    have hmoved := seen_moved hlt hrlast hlast ha hr hapart (fun x => (hpages₁ x).1) hsource
      (fun x => (hpages₂ x).1) (fun x => (hpages₃ x).2)
    unfold MremapDone
    constructor
    · rintro ⟨-, -, hkept, -⟩ x hx
      obtain ⟨hi, hxi⟩ := inBytes_offset hx
      obtain ⟨page, hget, hseen⟩ := hmoved _ hi
      have hsame := hkept _ (lt_min hi (hi.trans hlt))
      rw [hseen, hxi, seen] at hsame
      rw [hxi] at hget
      rw [hget, Option.map_some, Option.some.injEq, Prod.mk.injEq] at hsame
      exact ⟨page, hget, hsame.1.symm⟩
    · intro huniform
      refine ⟨hr, by omega, fun i hi => ?_, fun prot hprot x hx => ?_, fun x hx hx' => ?_⟩
      · have hi' : i < old_len.toNat := lt_of_lt_of_le hi (min_le_left _ _)
        obtain ⟨page, hget, hseen⟩ := hmoved i hi'
        have hy := toNat_offset (p := addr.toNat) (i := i) (by omega)
        obtain ⟨page', hget', hprot'⟩ := huniform (BitVec.ofNat 32 (addr.toNat + i))
          ⟨by omega, by omega⟩
        rw [hget, Option.some.injEq] at hget'
        rw [hseen, seen, hget, Option.map_some, hget', hprot']
      · have hthree : prot = 3 := by
          obtain ⟨page, hget, hpage⟩ := hprot addr ⟨le_rfl, by omega⟩
          obtain ⟨page', hget', hpage'⟩ := huniform addr ⟨le_rfl, by omega⟩
          rw [hget, Option.some.injEq] at hget'
          rw [← hpage, hget', hpage']
        have hnew : InBytes r.toNat new_len.toNat x := by
          unfold InBytes at hx ⊢
          omega
        have hnotOld : ¬ InBytes addr.toNat old_len.toNat x := fun hin => hdisjoint x hin hnew
        have hnotCopied : ¬ InBytes r.toNat old_len.toNat x := by
          unfold InBytes at hx ⊢
          omega
        rw [(hpages₃ x).2 hnotOld, (hpages₂ x).2 hnotCopied, hthree]
        exact (hpages₁ x).1 hnew
      · have hnotCopied : ¬ InBytes r.toNat old_len.toNat x := by
          unfold InBytes at hx' ⊢
          omega
        rw [(hpages₃ x).2 hx, (hpages₂ x).2 hnotCopied, (hpages₁ x).2 hx']
  · -- a page that does not exist has no copy
    refine iff_of_false (fun hex => ?_) fun huniform => hmapped fun x hx => ?_
    · obtain ⟨result, hresult, hdone⟩ := hex
      rw [not_forall] at hmapped
      obtain ⟨x, hx⟩ := hmapped
      rw [Classical.not_imp, Bool.not_eq_true, Option.isSome_eq_false_iff,
        Option.isNone_iff_eq_none] at hx
      obtain ⟨hx, hnone⟩ := hx
      obtain ⟨m₂, hcopy, hresult⟩ := Option.bind_eq_some_iff.mp hresult
      obtain ⟨m₃, hm₃, rfl⟩ := Option.map_eq_some_iff.mp hresult
      unfold copy at hcopy
      rw [if_neg hassert] at hcopy
      by_cases hoverlap : addr < r ∧ r < addr + old_len ∨ r < addr ∧ addr < r + old_len
      · rw [if_pos hoverlap] at hcopy
        cases hcopy
      · rw [if_neg hoverlap] at hcopy
        rw [BitVec.lt_def, BitVec.lt_def, BitVec.lt_def, BitVec.lt_def, hsum, hsum'] at hoverlap
        have hapart : Apart r.toNat addr.toNat old_len.toNat := by
          unfold Apart
          omega
        obtain ⟨-, hcopied⟩ := @copyLoop_spec m₁ _ _ _ fuel (old_len.toNat / 4096) hr ha
          (by omega : old_len.toNat = old_len.toNat / 4096 * 4096) (by omega) hlast (by omega)
          hapart (fun x hx => by
            obtain ⟨page, hget, -⟩ := (hpages₁ x).1 ⟨hx.1, by have hx2 := hx.2; omega⟩
            rw [hget]
            rfl)
        obtain ⟨m₃', hm₃', hpages₃⟩ := @unmap_range _ _ fuel m₂ ha ho hpos hlast hfuel.le
        rw [hm₃', Option.some.injEq] at hm₃
        rw [hm₃] at hpages₃
        obtain ⟨hi, hxi⟩ := inBytes_offset hx
        have hy := toNat_offset (p := r.toNat) (i := x.toNat - addr.toNat) (by omega)
        obtain ⟨page, page_src, page', -, -, hget', -⟩ := (hcopied m₂ hcopy
          (BitVec.ofNat 32 (r.toNat + (x.toNat - addr.toNat)))).1 ⟨by omega, by omega⟩
        have hsame := hdone.2.2.1 _ (lt_min hi (hi.trans hlt))
        have hnotOld : ¬ InBytes addr.toNat old_len.toNat
            (BitVec.ofNat 32 (r.toNat + (x.toNat - addr.toNat))) := by
          unfold InBytes Apart at *
          omega
        rw [hxi, seen, seen, (hpages₃ _).2 hnotOld, hget', hnone] at hsame
        cases hsame
    · obtain ⟨page, hget, -⟩ := huniform x hx
      rw [hget]
      rfl

/-- A call of `mremap` does what it has to exactly when `MremapFits`. -/
lemma mremap_iff (hfuel : 2 ^ 20 < fuel) (ha : addr.toNat % 4096 = 0)
    (hopos : 0 < old_len.toNat) (hnpos : 0 < new_len.toNat)
    (hospace : addr.toNat + old_len.toNat ≤ 2 ^ 32)
    (hnspace : addr.toNat + new_len.toNat ≤ 2 ^ 32) :
    (∃ result, executeSyscall_mremap fuel m addr old_len new_len flags = some result ∧
      MremapDone m addr old_len new_len result) ↔
      MremapFits fuel m addr old_len new_len flags := by
  unfold executeSyscall_mremap MremapFits
  by_cases haligned : old_len.toNat % 4096 = 0 ∧ new_len.toNat % 4096 = 0
  swap
  · have hassert : addr &&& (PageSize - 1) ≠ 0 ∨ old_len &&& (PageSize - 1) ≠ 0 ∨
        new_len &&& (PageSize - 1) ≠ 0 := by
      rw [ne_eq, ne_eq, ne_eq, mask_eq_zero_iff, mask_eq_zero_iff, mask_eq_zero_iff]
      tauto
    rw [if_pos hassert]
    refine iff_of_false (fun hex => ?_) fun hfits => haligned ⟨hfits.1, hfits.2.1⟩
    obtain ⟨result, hresult, -⟩ := hex
    cases hresult
  obtain ⟨ho, hn⟩ := haligned
  have hassert : ¬ (addr &&& (PageSize - 1) ≠ 0 ∨ old_len &&& (PageSize - 1) ≠ 0 ∨
      new_len &&& (PageSize - 1) ≠ 0) := by
    rw [ne_eq, ne_eq, ne_eq, mask_eq_zero_iff, mask_eq_zero_iff, mask_eq_zero_iff]
    tauto
  rw [if_neg hassert, and_iff_right ho, and_iff_right hn]
  by_cases hflag : flags &&& 1 = 0
  · rw [if_pos hflag]
    exact iff_of_true ⟨_, rfl, trivial⟩ (.inl hflag)
  have hzero : ¬ (old_len = 0 ∨ new_len = 0) := by
    rintro (rfl | rfl)
    · exact absurd hopos (Nat.lt_irrefl 0)
    · exact absurd hnpos (Nat.lt_irrefl 0)
  rw [if_neg hflag, if_neg hzero, or_iff_right hflag]
  by_cases heq : new_len = old_len
  · rw [if_pos heq]
    refine iff_of_true ⟨_, rfl, ha, hnspace, fun i _ => rfl, fun prot _ x hx => ?_,
      fun _ _ _ => rfl⟩ (.inl heq)
    unfold InBytes at hx
    rw [heq] at hx
    omega
  have hne : new_len.toNat ≠ old_len.toNat := fun h => heq (BitVec.eq_of_toNat_eq h)
  rw [if_neg heq, or_iff_right heq]
  by_cases hlt : new_len.toNat < old_len.toNat
  · have hless : new_len < old_len := hlt
    have hnot : ¬ old_len.toNat < new_len.toNat := by omega
    rw [if_pos hless, mremap_shrink_iff hfuel ha ho hn hospace hlt]
    simp only [hlt, true_and, hnot, false_and, or_false]
  have hgt : old_len.toNat < new_len.toNat := by omega
  have hnless : ¬ new_len < old_len := hlt
  rw [if_neg hnless]
  simp only [hlt, false_and, false_or, hgt, true_and]
  have hsum : (addr + old_len).toNat = addr.toNat + old_len.toNat :=
    BitVec.toNat_add_of_lt (by omega)
  have hsub : (new_len - old_len).toNat = new_len.toNat - old_len.toNat :=
    BitVec.toNat_sub_of_le (BitVec.le_def.mpr (by omega))
  obtain ⟨space, hfound⟩ := @mapSpace_total (addr + old_len)
    (new_len - old_len) fuel m (by omega) (by omega) (by omega) hfuel.le
  rw [hfound, Option.bind_some]
  by_cases hspace : space = addr + old_len
  · rw [if_pos hspace, if_pos (congrArg some hspace)]
    rw [hspace] at hfound
    exact mremap_inPlace_iff hfuel ha ho hn hopos hnspace hgt hfound
  · have hnotSpace : ¬ some space = some (addr + old_len) := fun h =>
      hspace (Option.some.inj h)
    rw [if_neg hspace, if_neg hnotSpace]
    obtain ⟨r, hr⟩ := @mapSpaceDown_total mmap_base_address _ fuel m rfl hn
      hnpos hfuel.le
    rw [hr, Option.bind_some]
    by_cases hminus : r = -1
    · rw [if_pos hminus]
      exact iff_of_true ⟨_, rfl, trivial⟩ (.inl (congrArg some hminus))
    · have hnotMinus : ¬ some r = some (-1 : Word) := fun h => hminus (Option.some.inj h)
      rw [if_neg hminus, or_iff_right hnotMinus]
      obtain ⟨hraligned, hrlast, hrfree⟩ := mapSpaceDown_spec hr hminus
      have hbase : r.toNat + new_len.toNat ≤ 0xFFFFF000 := by
        change _ ≤ 0xb7fb0000 + 4096 at hrlast
        omega
      have hfree : ∀ x, InBytes r.toNat new_len.toNat x → m.getPage x = none :=
        fun x hx => hrfree x hx.1 hx.2
      have hmoves : addr ≠ r := by
        rintro rfl
        -- the pages behind the region are free, so the region would grow in place
        have hgrow : m.MapSpace fuel (addr + old_len) (new_len - old_len) =
            some (addr + old_len) := by
          refine mapSpace_free (by omega) (by omega) (by omega) (by omega) ?_ hfuel.le
            fun x hx => hfree x ?_
          · intro hcontra
            rw [hcontra] at hsum
            change 0 = _ at hsum
            omega
          · unfold InBytes at hx ⊢
            omega
        rw [hfound] at hgrow
        exact hnotSpace hgrow
      exact mremap_move_iff hfuel ha ho hn hopos hnspace hgt hmoves hraligned hbase hfree

end Mremap

inductive Call where
  | mmap (files : Word → Option HostFile) (args : MmapArgs)
  | munmap (addr size : Word)
  | mremap (addr old_len new_len flags : Word)

/-- The address is that of a page, the length is not zero, and the range stays in the space. -/
def Call.InSpace : Call → Prop
  | .mmap _ args => args.addr.toNat % 4096 = 0 ∧ 0 < args.len.toNat ∧
    args.addr.toNat + args.len.toNat ≤ 2 ^ 32
  | .munmap addr size => addr.toNat % 4096 = 0 ∧ 0 < size.toNat ∧
    addr.toNat + size.toNat ≤ 2 ^ 32
  | .mremap addr old_len new_len _ => addr.toNat % 4096 = 0 ∧ 0 < old_len.toNat ∧
    0 < new_len.toNat ∧ addr.toNat + old_len.toNat ≤ 2 ^ 32 ∧
    addr.toNat + new_len.toNat ≤ 2 ^ 32

def Call.execute (fuel : ℕ) (m : Memory) : Call → Option Result
  | .mmap files args => syscallMmapAux fuel m files args
  | .munmap addr size => executeSyscall_munmap fuel m addr size
  | .mremap addr old_len new_len flags => executeSyscall_mremap fuel m addr old_len new_len flags

/-- What the call has done -/
def Call.Done (m : Memory) : Call → Result → Prop
  | .mmap files args => MmapDone m files args
  | .munmap addr size => MunmapDone m addr size
  | .mremap addr old_len new_len _ => MremapDone m addr old_len new_len

def Call.Fits (fuel : ℕ) (m : Memory) : Call → Prop
  | .mmap files args => MmapFits fuel m files args
  | .munmap addr size => addr.toNat + pageCeil size.toNat ≤ 0xFFFFF000
  | .mremap addr old_len new_len flags => MremapFits fuel m addr old_len new_len flags

lemma call_iff {m : Memory} {call : Call} {fuel : ℕ} (hfuel : 2 ^ 20 < fuel)
    (h : call.InSpace) :
    (∃ result, call.execute fuel m = some result ∧ call.Done m result) ↔ call.Fits fuel m := by
  cases call with
  | mmap files args =>
    obtain ⟨ha, hlen, hspace⟩ := h
    exact mmap_iff hfuel ha hlen hspace
  | munmap addr size =>
    obtain ⟨ha, hlen, hspace⟩ := h
    exact munmap_iff hfuel ha hlen hspace
  | mremap addr old_len new_len flags =>
    obtain ⟨ha, ho, hn, hospace, hnspace⟩ := h
    exact mremap_iff hfuel ha ho hn hospace hnspace

/-- A call ends and does what it has to exactly when `Fits`. -/
theorem call_done_iff {m : Memory} {call : Call} {fuel : ℕ} (hfuel : 2 ^ 20 < fuel)
    (h : call.InSpace) :
    (∃ result, call.execute fuel m = some result ∧ call.Done m result) ↔ call.Fits fuel m :=
  call_iff hfuel h

theorem call_done_munmap :
    (∃ result, (Call.munmap 0x1000 0x1000).execute (2 ^ 21) {} = some result ∧
      (Call.munmap 0x1000 0x1000).Done {} result) ↔ 0x1000 + 0x1000 ≤ 0xFFFFF000 :=
  call_done_iff (by decide) ⟨by decide, by decide, by decide⟩

/-- A region that may only be read grows by a page that may be written. -/
theorem call_not_done : ¬ ∀ (m : Memory) (call : Call) (fuel : ℕ), 2 ^ 20 < fuel →
    call.InSpace → ∃ result, call.execute fuel m = some result ∧ call.Done m result := by
  intro hall
  set m : Memory := Memory.setPage {} 0x1000#32 (some (Page.new 0x1000#32 1)) with hm
  have hspace : (Call.mremap 0x1000 0x1000 0x2000 1).InSpace :=
    ⟨by decide, by decide, by decide, by decide, by decide⟩
  have hfits := (call_iff (by decide) hspace).mp (hall m _ (2 ^ 21) (by decide) hspace)
  have hgrow : m.MapSpace (2 ^ 21) ((0x1000 : Word) + 0x1000) (0x2000 - 0x1000) =
      some (0x1000 + 0x1000) := by
    refine mapSpace_free (by decide) (by decide) (by decide) (by decide) (by decide) (by decide)
      fun x hx => ?_
    have hpage : x.toNat / 4096 = 2 := by
      obtain ⟨hx1, hx2⟩ := hx
      change 0x2000 ≤ x.toNat at hx1
      change x.toNat < 0x2000 + 0x1000 at hx2
      omega
    have hne : pageTag LogPageSize x ≠ pageTag LogPageSize 0x1000#32 := fun htag => by
      have htag' := (pageTag_eq_iff logPageSize_lt).mp htag
      change x.toNat / 4096 = 1 at htag'
      omega
    rw [hm, getPage_setPage_of_ne hne]
    rfl
  rcases hfits.2.2 with hflag | heq | hshrink | hgrows
  · exact absurd hflag (by decide)
  · exact absurd heq (by decide)
  · exact absurd hshrink.1 (by decide)
  · have hcond := hgrows.2
    rw [if_pos hgrow] at hcond
    have huniform : Uniform m (0x1000 : Word).toNat (0x1000 : Word).toNat 1 := by
      intro x hx
      have hpage : x.toNat / 4096 = 1 := by
        obtain ⟨hx1, hx2⟩ := hx
        change 0x1000 ≤ x.toNat at hx1
        change x.toNat < 0x1000 + 0x1000 at hx2
        omega
      have htag : pageTag LogPageSize x = pageTag LogPageSize 0x1000#32 :=
        (pageTag_eq_iff logPageSize_lt).mpr hpage
      exact ⟨Page.new 0x1000#32 1, by rw [hm, getPage_setPage_of_tag htag], rfl⟩
    exact absurd (hcond.2 1 huniform) (by decide)

end OISA.X86.AddressSpace
