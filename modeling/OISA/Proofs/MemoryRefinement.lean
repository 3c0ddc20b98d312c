import OISA.Memory.Memory
import OISA.Memory.FlatMemory

/-!
# The pages as a flat memory
-/

/-!
## Accesses byte by byte

Within a page an access is the access of its first byte and then of the others, so an access of
any size is the sequence of the accesses of its bytes and page boundaries do not show.
-/

namespace OISA.Memory

open OISA.Lib

variable {m : Memory} {a b : BitVec 32} {page : Page} {access : AccessType}

lemma and_not_mask (a : BitVec 32) : a &&& ~~~ (PageSize - 1#32) = pageTag LogPageSize a := rfl

lemma and_mask (a : BitVec 32) : a &&& (PageSize - 1#32) = pageOffset LogPageSize a := rfl

lemma logPageSize_lt : LogPageSize < 32 := by decide

section Pages

lemma getPage_of_tag (h : pageTag LogPageSize a = pageTag LogPageSize b) :
    m.getPage a = m.getPage b := by
  rw [getPage, getPage, and_not_mask, and_not_mask, h]

lemma getPage_setPage_of_tag {p : Option Page}
    (h : pageTag LogPageSize b = pageTag LogPageSize a) : (m.setPage a p).getPage b = p := by
  rw [getPage, and_not_mask, h]
  apply Function.update_self

lemma getPage_setPage_of_ne {p : Option Page}
    (h : pageTag LogPageSize b ≠ pageTag LogPageSize a) :
    (m.setPage a p).getPage b = m.getPage b := by
  apply Function.update_of_ne h

lemma getPage_setPage {p : Option Page} :
    (m.setPage a p).getPage b =
      if pageTag LogPageSize b = pageTag LogPageSize a then p else m.getPage b := by
  split_ifs with h
  · exact getPage_setPage_of_tag h
  · exact getPage_setPage_of_ne h

lemma setPage_setPage_of_tag {p q : Option Page}
    (h : pageTag LogPageSize b = pageTag LogPageSize a) :
    (m.setPage a p).setPage b q = m.setPage a q := by
  unfold setPage
  rw [and_not_mask, and_not_mask, h]
  congr 1
  apply Function.update_idem

lemma setPage_self {p : Option Page} (h : m.getPage a = p) : m.setPage a p = m := by
  unfold setPage
  rw [← h, getPage, Function.update_eq_self]

@[simp] lemma setPage_safe {p : Option Page} : (m.setPage a p).safe = m.safe := rfl

end Pages

section Bytes

lemma memcpy_cons (data : ℕ → UInt8) (offset : ℕ) (x : UInt8) (xs : List UInt8) :
    memcpy data offset (x :: xs) = memcpy (memcpy data offset [x]) (offset + 1) xs := by
  ext i
  by_cases hlt : offset + 1 ≤ i
  · obtain ⟨j, rfl⟩ := Nat.exists_eq_add_of_le hlt
    have hle : offset ≤ offset + 1 + j := by omega
    have hsub : offset + 1 + j - offset = j + 1 := by omega
    simp [memcpy, hle, hsub]
  · by_cases heq : i = offset
    · simp [memcpy, heq]
    · have hnle : ¬ offset ≤ i := by omega
      simp [memcpy, hlt, hnle]

lemma memcpy_singleton (data : ℕ → UInt8) (offset i : ℕ) (x : UInt8) :
    memcpy data offset [x] i = if i = offset then x else data i := by
  unfold memcpy
  by_cases heq : i = offset
  · simp [heq]
  · rw [if_neg heq]
    by_cases hle : offset ≤ i
    · have hpos : i - offset ≠ 0 := by omega
      simp [hle, hpos]
    · rw [if_neg hle]

end Bytes

section Splitting

variable {safe : Bool} {x : UInt8} {xs : List UInt8}

lemma touch_touch : (page.touch access).touch access = page.touch access := by
  unfold Page.touch
  split_ifs with h
  · rw [Page.addPerm, Page.addPerm, BitVec.or_assoc, BitVec.or_self]
  · rfl

lemma touch_setData (data : ℕ → UInt8) :
    (page.setData data).touch access = (page.touch access).setData data := by
  unfold Page.touch
  split_ifs with h <;> rfl

lemma touch_data (page : Page) (access : AccessType) :
    (page.touch access).AllocateData = page.AllocateData := by
  unfold Page.touch
  split_ifs with h <;> rfl

def Page.Denied (page : Page) (safe : Bool) (access : AccessType) : Prop :=
  (safe && !(page.touch access).allows access) = true

lemma Page.access_denied {buffer : List UInt8} (h : page.Denied safe access) :
    page.access safe access a buffer =
      ⟨page.touch access, buffer, some (.PermissionDenied a)⟩ := if_pos h

lemma Page.access_invalid {buffer : List UInt8} (h : ¬ page.Denied safe access)
    (haccess : access = .Invalid ∨ access = .Modified) :
    page.access safe access a buffer = ⟨page.touch access, buffer, some .Abort⟩ := by
  unfold Page.access
  rcases haccess with rfl | rfl <;> exact if_neg h

lemma Page.access_read {buffer : List UInt8} (h : ¬ page.Denied safe access)
    (haccess : access = .Read ∨ access = .Exec) :
    page.access safe access a buffer = ⟨page.touch access, (List.range buffer.length).map fun i =>
      page.AllocateData ((pageOffset LogPageSize a).toNat + i), none⟩ := by
  unfold Page.access
  rw [← touch_data page access]
  unfold Denied at h
  rw [if_neg h, and_mask]
  unfold Page.AllocateData
  rcases haccess with rfl | rfl <;> cases (page.touch _).data <;> simp

lemma Page.access_write {buffer : List UInt8} (h : ¬ page.Denied safe access)
    (haccess : access = .Write ∨ access = .Init) :
    page.access safe access a buffer =
      ⟨(page.touch access).setData
        (memcpy page.AllocateData (pageOffset LogPageSize a).toNat buffer), buffer, none⟩ := by
  unfold Page.access
  rw [← touch_data page access]
  rcases haccess with rfl | rfl <;> exact if_neg h

lemma Page.access_cons (h : (pageOffset LogPageSize a).toNat + 1 < 2 ^ LogPageSize) :
    page.access safe access a (x :: xs) =
      (page.access safe access a [x]).append xs (Page.access safe access (a + 1#32) xs) := by
  have hoffset : (pageOffset LogPageSize (a + 1#32)).toNat =
      (pageOffset LogPageSize a).toNat + 1 := toNat_pageOffset_succ logPageSize_lt h
  by_cases hdenied : page.Denied safe access
  · rw [access_denied hdenied, access_denied hdenied]
    rfl
  · have htouch : ¬ (page.touch access).Denied safe access := by
      rw [Page.Denied, touch_touch]
      exact hdenied
    cases access with
    | Invalid | Modified =>
      rw [access_invalid hdenied (by simp), access_invalid hdenied (by simp)]
      rfl
    | Read | Exec =>
      rw [access_read hdenied (by simp), access_read hdenied (by simp),
        Outcome.append_of_none rfl, access_read htouch (by simp)]
      rw [touch_touch, touch_data, hoffset]
      congr 1
      rw [List.length_cons, List.range_succ_eq_map, List.map_cons, List.map_map]
      congr 1
      apply List.map_congr_left
      intro i _
      rw [Function.comp_apply, Nat.succ_eq_add_one, Nat.add_assoc, Nat.add_comm 1 i]
    | Write | Init =>
      rw [access_write hdenied (by simp), access_write hdenied (by simp),
        Outcome.append_of_none rfl, access_write _ (by simp)]
      · rw [touch_setData, touch_touch, hoffset, memcpy_cons]
        rfl
      · rw [Page.Denied, touch_setData, touch_touch]
        exact hdenied

lemma inside_page {n : ℕ} (h : (pageOffset LogPageSize a).toNat + n ≤ 2 ^ LogPageSize) :
    ¬ PageSize.toNat < (a &&& (PageSize - 1#32)).toNat + n := Nat.not_lt.mpr h

lemma accessAtPageBoundary_of_page {xs : List UInt8} (h : m.getPage a = some page)
    (hlen : (pageOffset LogPageSize a).toNat + xs.length ≤ 2 ^ LogPageSize) :
    AccessAtPageBoundary access a xs m = m.onPage a (page.access m.safe access a xs) := by
  unfold AccessAtPageBoundary
  rw [if_neg (inside_page hlen), h]

lemma accessAtPageBoundary_segfault {xs : List UInt8} (h : m.getPage a = none)
    (hsafe : m.safe = true)
    (hlen : (pageOffset LogPageSize a).toNat + xs.length ≤ 2 ^ LogPageSize) :
    AccessAtPageBoundary access a xs m = ⟨m, xs, some (.SegmentationFault a)⟩ := by
  unfold AccessAtPageBoundary
  rw [if_neg (inside_page hlen), h]
  exact if_pos hsafe

lemma accessAtPageBoundary_zeros {xs : List UInt8} (h : m.getPage a = none)
    (hsafe : m.safe = false) (haccess : access = .Read ∨ access = .Exec)
    (hlen : (pageOffset LogPageSize a).toNat + xs.length ≤ 2 ^ LogPageSize) :
    AccessAtPageBoundary access a xs m = ⟨m, List.replicate xs.length 0, none⟩ := by
  unfold AccessAtPageBoundary
  rw [if_neg (inside_page hlen), h, hsafe]
  rcases haccess with rfl | rfl <;> rfl

lemma accessAtPageBoundary_create {xs : List UInt8} (h : m.getPage a = none)
    (hsafe : m.safe = false) (haccess : access = .Write ∨ access = .Init)
    (hlen : (pageOffset LogPageSize a).toNat + xs.length ≤ 2 ^ LogPageSize) :
    AccessAtPageBoundary access a xs m =
      (m.setPage a (some (Page.new a fullPerm))).onPage a
        ((Page.new a fullPerm).access m.safe access a xs) := by
  have hnot : ¬ m.safe = true := by simp [hsafe]
  unfold AccessAtPageBoundary newPage
  rw [if_neg (inside_page hlen), h]
  rcases haccess with rfl | rfl <;> exact if_neg hnot

lemma accessAtPageBoundary_invalid {xs : List UInt8} (h : m.getPage a = none)
    (hsafe : m.safe = false) (haccess : access = .Invalid ∨ access = .Modified)
    (hlen : (pageOffset LogPageSize a).toNat + xs.length ≤ 2 ^ LogPageSize) :
    AccessAtPageBoundary access a xs m = ⟨m, xs, some .Abort⟩ := by
  unfold AccessAtPageBoundary
  rw [if_neg (inside_page hlen), h, hsafe]
  rcases haccess with rfl | rfl <;> rfl

lemma onPage_cons (h : (pageOffset LogPageSize a).toNat + 1 < 2 ^ LogPageSize)
    (hlen : (pageOffset LogPageSize a).toNat + (xs.length + 1) ≤ 2 ^ LogPageSize) :
    m.onPage a (page.access m.safe access a (x :: xs)) =
      (m.onPage a (page.access m.safe access a [x])).append xs
        (AccessAtPageBoundary access (a + 1#32) xs) := by
  have htag := pageTag_succ logPageSize_lt h
  have hoffset := toNat_pageOffset_succ logPageSize_lt h
  rw [Page.access_cons h]
  cases herror : (page.access m.safe access a [x]).error with
  | some e =>
    have hfirst : (m.onPage a (page.access m.safe access a [x])).error = some e := herror
    rw [Outcome.append_of_error herror, Outcome.append_of_error hfirst]
    rfl
  | none =>
    have hfirst : (m.onPage a (page.access m.safe access a [x])).error = none := herror
    have hnext : (m.onPage a (page.access m.safe access a [x])).state.getPage (a + 1#32) =
        some (page.access m.safe access a [x]).state := getPage_setPage_of_tag htag
    rw [Outcome.append_of_none herror, Outcome.append_of_none hfirst,
      accessAtPageBoundary_of_page hnext (by omega)]
    simp only [onPage, setPage_setPage_of_tag htag, setPage_safe]

lemma splits_access : Splits LogPageSize (AccessAtPageBoundary access) := by
  intro a x xs m hne hlen
  have hpos : 0 < xs.length := List.length_pos_of_ne_nil hne
  have hsucc : (pageOffset LogPageSize a).toNat + 1 < 2 ^ LogPageSize := by omega
  have hfirst : (pageOffset LogPageSize a).toNat + [x].length ≤ 2 ^ LogPageSize := hsucc.le
  have hall : (pageOffset LogPageSize a).toNat + (x :: xs).length ≤ 2 ^ LogPageSize := hlen
  have hrest : (pageOffset LogPageSize (a + 1#32)).toNat + xs.length ≤ 2 ^ LogPageSize := by
    rw [toNat_pageOffset_succ logPageSize_lt hsucc]
    omega
  cases hget : m.getPage a with
  | some page =>
    rw [accessAtPageBoundary_of_page hget hall, accessAtPageBoundary_of_page hget hfirst]
    exact onPage_cons hsucc hlen
  | none =>
    have hnext : m.getPage (a + 1#32) = none := by
      rw [getPage_of_tag (pageTag_succ logPageSize_lt hsucc), hget]
    cases hsafe : m.safe with
    | true =>
      rw [accessAtPageBoundary_segfault hget hsafe hall,
        accessAtPageBoundary_segfault hget hsafe hfirst]
      rfl
    | false =>
      cases access with
      | Invalid | Modified =>
        rw [accessAtPageBoundary_invalid hget hsafe (by simp) hall,
          accessAtPageBoundary_invalid hget hsafe (by simp) hfirst]
        rfl
      | Read | Exec =>
        rw [accessAtPageBoundary_zeros hget hsafe (by simp) hall,
          accessAtPageBoundary_zeros hget hsafe (by simp) hfirst, Outcome.append_of_none rfl,
          accessAtPageBoundary_zeros hnext hsafe (by simp) hrest]
        rfl
      | Write | Init =>
        rw [accessAtPageBoundary_create hget hsafe (by simp) hall,
          accessAtPageBoundary_create hget hsafe (by simp) hfirst]
        exact onPage_cons hsucc hlen

/-- An access of any size is the access of its bytes, one after the other. -/
theorem access_eq_bytewise (m : Memory) (a : BitVec 32) (buffer : List UInt8)
    (access : AccessType) :
    m.Access a buffer access = bytewise (AccessAtPageBoundary access) a buffer m :=
  transfer_eq_bytewise logPageSize_lt splits_access buffer

/-- A page boundary inside an access makes no difference. -/
theorem access_append (m : Memory) (a : BitVec 32) (xs ys : List UInt8) (access : AccessType) :
    m.Access a (xs ++ ys) access = (m.Access a xs access).append ys
      fun m => m.Access (a + BitVec.ofNat 32 xs.length) ys access :=
  transfer_append logPageSize_lt splits_access xs ys

end Splitting

end OISA.Memory

/-!
## Paged memory refines flat memory

Each operation on the pages does to the view of the memory what the operation of the flat memory
does.
-/

namespace OISA.Memory

open OISA.Lib FlatMemory

variable {m m' : Memory} {a b : BitVec 32} {page : Page} {access : AccessType}

def Page.cell (page : Page) (a : BitVec 32) : Cell :=
  ⟨guest page.perm, page.AllocateData (pageOffset LogPageSize a).toNat⟩

/-- The memory as the guest sees it. -/
def view (m : Memory) : FlatMemory := fun a => (m.getPage a).map (Page.cell · a)

def GuestAccess (access : AccessType) : Prop :=
  access = .Read ∨ access = .Write ∨ access = .Init

section Permissions

lemma and_or_of_disjoint {x y z : BitVec 32} (h : y &&& z = 0#32) : (x ||| y) &&& z = x &&& z := by
  ext i hi
  have hyz : (y[i] && z[i]) = false := by
    rw [← BitVec.getElem_and, h, BitVec.getElem_zero]
  simp only [BitVec.getElem_and, BitVec.getElem_or]
  revert hyz
  cases x[i] <;> cases y[i] <;> cases z[i] <;> simp

lemma guest_and (haccess : GuestAccess access) (perm : BitVec 32) :
    guest perm &&& access.bits = perm &&& access.bits := by
  have hmask : ~~~ AccessType.Modified.bits &&& access.bits = access.bits := by
    rcases haccess with rfl | rfl | rfl <;> decide
  rw [guest, BitVec.and_assoc, hmask]

lemma touch_and (haccess : GuestAccess access) :
    (page.touch access).perm &&& access.bits = page.perm &&& access.bits := by
  have hdisjoint : AccessType.Modified.bits &&& access.bits = 0#32 := by
    rcases haccess with rfl | rfl | rfl <;> decide
  unfold Page.touch
  split_ifs
  · exact and_or_of_disjoint hdisjoint
  · rfl

lemma guest_or (perm perm' : BitVec 32) : guest (perm ||| perm') = guest perm ||| guest perm' := by
  unfold guest
  ext i hi
  simp only [BitVec.getElem_and, BitVec.getElem_or]
  exact Bool.and_or_distrib_right _ _ _

lemma touch_cell (page : Page) (access : AccessType) (a : BitVec 32) :
    (page.touch access).cell a = page.cell a := by
  have hperm : guest (page.touch access).perm = guest page.perm := by
    unfold Page.touch
    split_ifs
    · rw [Page.addPerm, guest_or]
      exact BitVec.or_zero
    · rfl
  rw [Page.cell, Page.cell, hperm, touch_data]

lemma allows_iff_of_page (haccess : GuestAccess access) (hget : m.getPage a = some page) :
    m.view.Allows a access ↔ ¬ page.Denied true access := by
  have hview : m.view a = some (page.cell a) := by
    rw [view, hget, Option.map_some]
  have hperm : (page.cell a).perm &&& access.bits = (page.touch access).perm &&& access.bits := by
    rw [touch_and haccess]
    exact guest_and haccess page.perm
  unfold Allows Page.Denied Page.allows
  simp only [hview, Option.some.injEq, exists_eq_left', hperm]
  simp

lemma not_allows_of_none (hget : m.getPage a = none) : ¬ m.view.Allows a access := by
  rintro ⟨cell, hcell, -⟩
  rw [view, hget] at hcell
  cases hcell

end Permissions

section Bytes

lemma view_setPage : (m.setPage a (some page)).view b =
    if pageTag LogPageSize b = pageTag LogPageSize a then some (page.cell b) else m.view b := by
  rw [view, getPage_setPage]
  split_ifs with h
  · rfl
  · rfl

lemma view_touch (hget : m.getPage a = some page) :
    (m.setPage a (some (page.touch access))).view = m.view := by
  funext b
  rw [view_setPage]
  split_ifs with h
  · rw [touch_cell, view, getPage_of_tag h, hget, Option.map_some]
  · rfl

lemma view_store (hget : m.getPage a = some page) (x : UInt8) :
    (m.setPage a (some ((page.touch access).setData
      (memcpy page.AllocateData (pageOffset LogPageSize a).toNat [x])))).view =
      m.view.put a x := by
  funext b
  rw [view_setPage, put]
  split_ifs with h
  · have hcell : ((page.touch access).setData
        (memcpy page.AllocateData (pageOffset LogPageSize a).toNat [x])).cell b =
        ⟨(page.cell b).perm, if b = a then x else (page.cell b).value⟩ := by
      have hoffset :
          (pageOffset LogPageSize b).toNat = (pageOffset LogPageSize a).toNat ↔ b = a := by
        rw [BitVec.toNat_inj]
        constructor
        · exact eq_of_tag_offset h
        · rintro rfl
          rfl
      have htouch := touch_cell page access b
      rw [Page.cell, ← htouch]
      congr 1
      rw [Page.cell, touch_data]
      change memcpy page.AllocateData _ [x] _ = _
      rw [memcpy_singleton]
      simp only [hoffset]
    by_cases hb : b = a
    · rw [hcell, if_pos hb, hb, Function.update_self, view, hget]
      rfl
    · rw [hcell, if_neg hb, Function.update_of_ne hb, view, getPage_of_tag h, hget]
      rfl
  · have hb : b ≠ a := by
      rintro rfl
      exact h rfl
    rw [Function.update_of_ne hb]

lemma read_byte (hsafe : m.safe = true) (x : UInt8) :
    (m.view.Allows a .Read → AccessAtPageBoundary .Read a [x] m = ⟨m, [m.view.value a], none⟩) ∧
    (¬ m.view.Allows a .Read →
      ∃ e, AccessAtPageBoundary .Read a [x] m = ⟨m, [x], some e⟩) := by
  have hlen : (pageOffset LogPageSize a).toNat + [x].length ≤ 2 ^ LogPageSize :=
    pageOffset_lt logPageSize_lt
  cases hget : m.getPage a with
  | none =>
    rw [accessAtPageBoundary_segfault hget hsafe hlen]
    exact ⟨fun h => absurd h (not_allows_of_none hget), fun _ => ⟨_, rfl⟩⟩
  | some page =>
    rw [accessAtPageBoundary_of_page hget hlen, hsafe, allows_iff_of_page (.inl rfl) hget]
    constructor
    · intro h
      have hvalue : m.view.value a = page.AllocateData (pageOffset LogPageSize a).toNat := by
        rw [value, view, hget]
        rfl
      rw [Page.access_read h (.inl rfl), hvalue, onPage]
      simp only [show page.touch .Read = page from rfl, setPage_self hget]
      rfl
    · intro h
      rw [Page.access_denied (not_not.mp h), onPage]
      simp only [show page.touch .Read = page from rfl, setPage_self hget]
      exact ⟨_, rfl⟩

lemma store_byte (hsafe : m.safe = true) (haccess : access = .Write ∨ access = .Init)
    (x : UInt8) :
    (m.view.Allows a access → ∃ m', AccessAtPageBoundary access a [x] m = ⟨m', [x], none⟩ ∧
      m'.safe = true ∧ m'.view = m.view.put a x) ∧
    (¬ m.view.Allows a access → ∃ m' e, AccessAtPageBoundary access a [x] m = ⟨m', [x], some e⟩ ∧
      m'.safe = true ∧ m'.view = m.view) := by
  have hlen : (pageOffset LogPageSize a).toNat + [x].length ≤ 2 ^ LogPageSize :=
    pageOffset_lt logPageSize_lt
  cases hget : m.getPage a with
  | none =>
    rw [accessAtPageBoundary_segfault hget hsafe hlen]
    exact ⟨fun h => absurd h (not_allows_of_none hget), fun _ => ⟨m, _, rfl, hsafe, rfl⟩⟩
  | some page =>
    rw [accessAtPageBoundary_of_page hget hlen, hsafe, allows_iff_of_page (.inr haccess) hget]
    constructor
    · intro h
      rw [Page.access_write h haccess]
      exact ⟨_, rfl, hsafe, view_store hget x⟩
    · intro h
      rw [Page.access_denied (not_not.mp h)]
      exact ⟨_, _, rfl, hsafe, view_touch hget⟩

lemma value_page_access (hget : m.getPage a = some page)
    (haccess : access = .Write ∨ access = .Init)
    {x : UInt8} {safe : Bool} (h : (page.access safe access a [x]).error = none) :
    (m.setPage a (some (page.access safe access a [x]).state)).view.value b =
      if b = a then x else m.view.value b := by
  have hallowed : ¬ page.Denied safe access := by
    intro hdenied
    rw [Page.access_denied hdenied] at h
    cases h
  rw [Page.access_write hallowed haccess, view_store hget]
  apply value_put
  rw [view, hget]
  rfl

lemma value_store_byte (haccess : access = .Write ∨ access = .Init) {x : UInt8}
    (h : (AccessAtPageBoundary access a [x] m).error = none) :
    (AccessAtPageBoundary access a [x] m).state.view.value b =
      if b = a then x else m.view.value b := by
  have hlen : (pageOffset LogPageSize a).toNat + [x].length ≤ 2 ^ LogPageSize :=
    pageOffset_lt logPageSize_lt
  cases hget : m.getPage a with
  | some page =>
    rw [accessAtPageBoundary_of_page hget hlen] at h ⊢
    exact value_page_access hget haccess h
  | none =>
    cases hsafe : m.safe with
    | true =>
      rw [accessAtPageBoundary_segfault hget hsafe hlen] at h
      cases h
    | false =>
      rw [accessAtPageBoundary_create hget hsafe haccess hlen] at h ⊢
      have hnew : (m.setPage a (some (Page.new a fullPerm))).getPage a =
          some (Page.new a fullPerm) := getPage_setPage_of_tag rfl
      refine (value_page_access hnew haccess h).trans ?_
      -- a new page holds zeros, as what is not mapped
      congr 1
      unfold FlatMemory.value
      rw [view_setPage]
      split_ifs with htag
      · rw [view, getPage_of_tag htag, hget]
        rfl
      · rfl

end Bytes

section Accesses

/-- A read returns the bytes of the view if all of them may be read. -/
theorem read_spec (hsafe : m.safe = true) (a : BitVec 32) (buffer : List UInt8) :
    (m.Read a buffer).state = m ∧
      ((m.Read a buffer).error = none ↔
        m.view.AllowsRange a buffer.length .Read) ∧
      ((m.Read a buffer).error = none → (m.Read a buffer).buffer =
        m.view.bytes a buffer.length) := by
  rw [Read, access_eq_bytewise]
  induction buffer generalizing a with
  | nil => simp [bytewise, AllowsRange, bytes]
  | cons x xs ih =>
    obtain ⟨hstate, herror, hbuffer⟩ := ih (a + 1#32)
    obtain ⟨hallowed, hforbidden⟩ := read_byte (a := a) hsafe x
    rw [bytewise, List.length_cons, allowsRange_succ]
    by_cases h : m.view.Allows a .Read
    · rw [hallowed h, Outcome.append_of_none rfl]
      refine ⟨hstate, ?_, ?_⟩
      · rw [and_iff_right h]
        exact herror
      · intro hnone
        simp only [hbuffer hnone]
        rw [bytes_succ, List.singleton_append]
    · obtain ⟨e, he⟩ := hforbidden h
      rw [he, Outcome.append_of_error rfl]
      refine ⟨rfl, ?_, ?_⟩
      · constructor
        · intro hnone
          cases hnone
        · intro hall
          exact absurd hall.1 h
      · intro hnone
        cases hnone

/-- A store stores the bytes in the view up to the first one that may not be stored. -/
theorem store_spec (hsafe : m.safe = true) (haccess : access = .Write ∨ access = .Init)
    (a : BitVec 32) (buffer : List UInt8) :
    (m.Access a buffer access).state.safe = true ∧
      (m.Access a buffer access).state.view = m.view.store access a buffer ∧
      ((m.Access a buffer access).error = none ↔
        m.view.AllowsRange a buffer.length access) := by
  rw [access_eq_bytewise]
  induction buffer generalizing a m with
  | nil => simp [bytewise, store, hsafe, AllowsRange]
  | cons x xs ih =>
    obtain ⟨hallowed, hforbidden⟩ := store_byte (a := a) hsafe haccess x
    rw [bytewise, List.length_cons, allowsRange_succ, store]
    by_cases h : m.view.Allows a access
    · obtain ⟨m', hm', hsafe', hview⟩ := hallowed h
      obtain ⟨ihsafe, ihview, iherror⟩ := ih hsafe' (a + 1#32)
      rw [hm', Outcome.append_of_none rfl, if_pos h, and_iff_right h]
      refine ⟨ihsafe, ?_, ?_⟩
      · rw [← hview]
        exact ihview
      · rw [hview, allowsRange_put] at iherror
        exact iherror
    · obtain ⟨m', e, hm', hsafe', hview⟩ := hforbidden h
      rw [hm', Outcome.append_of_error rfl, if_neg h]
      refine ⟨hsafe', hview, ?_⟩
      constructor
      · intro hnone
        cases hnone
      · intro hall
        exact absurd hall.1 h

/-- A store that succeeds has stored its bytes and no others. -/
theorem value_store (haccess : access = .Write ∨ access = .Init) {buffer : List UInt8}
    (hlen : buffer.length ≤ 2 ^ 32) (h : (m.Access a buffer access).error = none)
    (b : BitVec 32) : (m.Access a buffer access).state.view.value b =
      buffer.getD (b - a).toNat (m.view.value b) := by
  rw [access_eq_bytewise] at h ⊢
  induction buffer generalizing a m with
  | nil => rfl
  | cons x xs ih =>
    rw [bytewise] at h ⊢
    cases hfirst : (AccessAtPageBoundary access a [x] m).error with
    | some e =>
      rw [Outcome.append_of_error hfirst, hfirst] at h
      cases h
    | none =>
      rw [Outcome.append_of_none hfirst] at h ⊢
      rw [List.length_cons] at hlen
      have hrest := ih (by omega) h
      refine hrest.trans ?_
      rw [value_store_byte haccess hfirst]
      by_cases hb : b = a
      · subst hb
        have hpast : xs.length ≤ (b - (b + 1#32)).toNat := by
          have hone : (b - (b + 1#32)).toNat = 2 ^ 32 - 1 := by bv_omega
          omega
        rw [if_pos rfl, List.getD_eq_getElem?_getD, List.getElem?_eq_none hpast, BitVec.sub_self]
        rfl
      · have hsub : (b - a).toNat = (b - (a + 1#32)).toNat + 1 := by
          bv_omega
        rw [if_neg hb, hsub, List.getD_cons_succ]
end Accesses

end OISA.Memory
