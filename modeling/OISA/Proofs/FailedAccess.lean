import OISA.Proofs.MemoryRefinement

/-!
# Accesses that fail

An access is made page by page, and each page is checked when it is its turn.
-/

namespace OISA.Memory

open OISA.Lib FlatMemory

variable {m : Memory} {a x : BitVec 32} {page : Page} {access : AccessType} {buffer : List UInt8}
  {e : Error} {b : UInt8}

/-- The content of a page and its permission flags other than the modified flag. -/
def Page.content (page : Page) : BitVec 32 × (ℕ → UInt8) × BitVec 32 :=
  (page.tag, page.AllocateData, guest page.perm)

section Byte

lemma oneByte (a : BitVec 32) (b : UInt8) :
    (pageOffset LogPageSize a).toNat + [b].length ≤ 2 ^ LogPageSize := pageOffset_lt logPageSize_lt

lemma touch_content (page : Page) (access : AccessType) :
    (page.touch access).content = page.content := by
  unfold Page.content Page.touch
  split_ifs
  · have hperm : guest (page.perm ||| AccessType.Modified.bits) = guest page.perm := by
      rw [guest_or]
      exact BitVec.or_zero
    exact congrArg (fun perm => (page.tag, page.AllocateData, perm)) hperm
  · rfl

lemma byte_failed (hsafe : m.safe = true)
    (h : (AccessAtPageBoundary access a [b] m).error = some e) (hthrown : e ≠ .Abort) :
    (e = .SegmentationFault a ∨ e = .PermissionDenied a) ∧
      (access ≠ .Write → (AccessAtPageBoundary access a [b] m).state = m) ∧
      ∀ x, ((AccessAtPageBoundary access a [b] m).state.getPage x).map Page.content =
        (m.getPage x).map Page.content := by
  cases hget : m.getPage a with
  | none =>
    rw [accessAtPageBoundary_segfault hget hsafe (oneByte a b)] at h ⊢
    exact ⟨.inl (Option.some.inj h).symm, fun _ => rfl, fun _ => rfl⟩
  | some page =>
    rw [accessAtPageBoundary_of_page hget (oneByte a b)] at h ⊢
    by_cases hdenied : page.Denied m.safe access
    · rw [Page.access_denied hdenied] at h ⊢
      refine ⟨.inr (Option.some.inj h).symm, ?_, ?_⟩
      · intro hwrite
        have htouch : page.touch access = page := if_neg hwrite
        rw [onPage, htouch]
        exact setPage_self hget
      · intro x
        rw [onPage, getPage_setPage]
        split_ifs with hx
        · rw [getPage_of_tag hx, hget, Option.map_some, Option.map_some, touch_content]
        · rfl
    · exfalso
      cases access with
      | Invalid | Modified =>
        rw [Page.access_invalid hdenied (by simp)] at h
        exact hthrown (Option.some.inj h).symm
      | Read | Exec =>
        rw [Page.access_read hdenied (by simp)] at h
        cases h
      | Write | Init =>
        rw [Page.access_write hdenied (by simp)] at h
        cases h

lemma byte_next {c : UInt8} (hsafe : m.safe = true)
    (htag : pageTag LogPageSize x = pageTag LogPageSize a)
    (h : (AccessAtPageBoundary access a [b] m).error = none) :
    (AccessAtPageBoundary access x [c] (AccessAtPageBoundary access a [b] m).state).error =
      none := by
  cases hget : m.getPage a with
  | none =>
    rw [accessAtPageBoundary_segfault hget hsafe (oneByte a b)] at h
    cases h
  | some page =>
    rw [accessAtPageBoundary_of_page hget (oneByte a b)] at h ⊢
    by_cases hdenied : page.Denied m.safe access
    · rw [Page.access_denied hdenied] at h
      cases h
    · have hnext : ((m.onPage a (page.access m.safe access a [b])).state).getPage x =
          some (page.access m.safe access a [b]).state := getPage_setPage_of_tag htag
      rw [accessAtPageBoundary_of_page hnext (oneByte x c)]
      have hallowed : ¬ (page.access m.safe access a [b]).state.Denied m.safe access := by
        cases access with
        | Invalid | Modified =>
          rw [Page.access_invalid hdenied (by simp)] at h
          cases h
        | Read | Exec =>
          rw [Page.access_read hdenied (by simp), Page.Denied, touch_touch]
          exact hdenied
        | Write | Init =>
          rw [Page.access_write hdenied (by simp), Page.Denied, touch_setData, touch_touch]
          exact hdenied
      cases access with
      | Invalid | Modified =>
        rw [Page.access_invalid hdenied (by simp)] at h
        cases h
      | Read | Exec => exact congrArg Outcome.error (Page.access_read hallowed (by simp))
      | Write | Init => exact congrArg Outcome.error (Page.access_write hallowed (by simp))

lemma byte_frame (hsafe : m.safe = true) :
    (AccessAtPageBoundary access a [b] m).state.safe = true ∧
      (access = .Read ∨ access = .Exec → (AccessAtPageBoundary access a [b] m).state = m) ∧
      (pageTag LogPageSize x ≠ pageTag LogPageSize a →
        (AccessAtPageBoundary access a [b] m).state.getPage x = m.getPage x) := by
  cases hget : m.getPage a with
  | none =>
    rw [accessAtPageBoundary_segfault hget hsafe (oneByte a b)]
    exact ⟨hsafe, fun _ => rfl, fun _ => rfl⟩
  | some page =>
    rw [accessAtPageBoundary_of_page hget (oneByte a b)]
    refine ⟨hsafe, ?_, fun hx => getPage_setPage_of_ne hx⟩
    intro hread
    have htouch : page.touch access = page := by
      rcases hread with rfl | rfl <;> rfl
    by_cases hdenied : page.Denied m.safe access
    · rw [Page.access_denied hdenied, onPage, htouch]
      exact setPage_self hget
    · rw [Page.access_read hdenied hread, onPage, htouch]
      exact setPage_self hget

end Byte

section Access

lemma bytewise_frame (hsafe : m.safe = true) :
    (m.Access a buffer access).state.safe = true ∧
      (access = .Read ∨ access = .Exec → (m.Access a buffer access).state = m) ∧
      ((∀ i < buffer.length, pageTag LogPageSize x ≠ pageTag LogPageSize (a + .ofNat 32 i)) →
        (m.Access a buffer access).state.getPage x = m.getPage x) := by
  rw [access_eq_bytewise]
  induction buffer generalizing a m with
  | nil => exact ⟨hsafe, fun _ => rfl, fun _ => rfl⟩
  | cons b bs ih =>
    obtain ⟨hsafe₁, hread₁, hframe₁⟩ :=
      byte_frame (a := a) (b := b) (x := x) hsafe
    rw [bytewise]
    cases hfirst : (AccessAtPageBoundary access a [b] m).error with
    | some e =>
      rw [Outcome.append_of_error hfirst]
      refine ⟨hsafe₁, hread₁, ?_⟩
      intro hx
      apply hframe₁
      simpa using hx 0 (Nat.succ_pos _)
    | none =>
      rw [Outcome.append_of_none hfirst]
      obtain ⟨hsafe₂, hread₂, hframe₂⟩ := ih (a := a + 1#32) hsafe₁
      refine ⟨hsafe₂, ?_, ?_⟩
      · intro hread
        exact (hread₂ hread).trans (hread₁ hread)
      · intro hx
        refine (hframe₂ ?_).trans (hframe₁ ?_)
        · intro i hi
          rw [← ofNat_succ]
          exact hx (i + 1) (Nat.succ_lt_succ hi)
        · simpa using hx 0 (Nat.succ_pos _)

lemma starts_page {before : List UInt8} (hsafe : m.safe = true)
    (hnone : (m.Access a before access).error = none)
    (hfails : (AccessAtPageBoundary access (a + .ofNat 32 before.length) [b]
      (m.Access a before access).state).error = some e) :
    before.length = 0 ∨ pageOffset LogPageSize (a + .ofNat 32 before.length) = 0#32 := by
  rcases List.eq_nil_or_concat before with rfl | ⟨front, c, rfl⟩
  · exact .inl rfl
  right
  by_contra hoffset
  rw [List.concat_eq_append] at hnone hfails hoffset
  have hlength : (front ++ [c]).length = front.length + 1 := List.length_append
  have haddr : a + .ofNat 32 (front.length + 1) = a + .ofNat 32 front.length + 1#32 := by
    rw [BitVec.ofNat_add, BitVec.add_assoc]
  rw [hlength, haddr] at hfails hoffset
  rw [access_append] at hnone hfails
  obtain ⟨hsafe', -⟩ := bytewise_frame (a := a) (x := a) hsafe
  cases hfront : (m.Access a front access).error with
  | some e' =>
    rw [Outcome.append_of_error hfront, hfront] at hnone
    cases hnone
  | none =>
    rw [Outcome.append_of_none hfront] at hnone hfails
    generalize (m.Access a front access).state = s at hnone hfails hsafe'
    have hbyte : s.Access (a + .ofNat 32 front.length) [c] access =
        AccessAtPageBoundary access (a + .ofNat 32 front.length) [c] s := by
      rw [access_eq_bytewise]
      exact Outcome.append_nil
    rw [hbyte] at hnone hfails
    have hinside : (pageOffset LogPageSize (a + .ofNat 32 front.length)).toNat + 1 <
        2 ^ LogPageSize := by
      by_contra hlast
      apply hoffset
      apply BitVec.eq_of_toNat_eq
      have hlt := pageOffset_lt (a := a + .ofNat 32 front.length) logPageSize_lt
      rw [toNat_pageOffset logPageSize_lt] at hlt hlast ⊢
      have hpow : 2 ^ LogPageSize = 4096 := rfl
      rw [hpow] at hlt hlast ⊢
      rw [BitVec.toNat_add, BitVec.toNat_ofNat, BitVec.toNat_ofNat]
      omega
    have hnext := byte_next (c := b) hsafe' (pageTag_succ logPageSize_lt hinside) hnone
    rw [hnext] at hfails
    cases hfails

def onePage : Memory :=
  ({} : Memory).setPage 0x1000#32 (some (Page.new 0x1000#32 3#32))

end Access

end OISA.Memory
