import OISA.Proofs.MemoryRefinement

/-!
# Map, Unmap and Protect

The loop over the pages of a range changes the pages between two tags, as long as the last tag is
not the one of the last page of the address space, where the loop never stops.
-/

namespace OISA.Memory

open OISA.Lib FlatMemory

variable {m m' : Memory} {a tag tag2 address size perm : BitVec 32} {fuel : ℕ} {op : Op}

/-- The range ends before the last page, and a range of no bytes starts at a page other than the
first one. -/
def InRange (address size : BitVec 32) : Prop :=
  if size = 0#32 then pageOffset LogPageSize address = 0#32 ∧ address ≠ 0#32
  else address.toNat + size.toNat ≤ 0xFFFFF000

instance : Decidable (InRange address size) := by
  unfold InRange
  infer_instance

/-- What the code handles of the operations on ranges. -/
def Fits : Op → Prop
  | .map address size _ => InRange address size
  | .unmap address size | .protect address size _ =>
    InRange address size ∧ pageOffset LogPageSize address = 0#32 ∧
      pageOffset LogPageSize size = 0#32
  | _ => True

instance : Decidable (Fits op) := by
  unfold Fits
  split <;> infer_instance

section Arithmetic

lemma toNat_tag : (pageTag LogPageSize a).toNat = a.toNat / 4096 * 4096 :=
  toNat_pageTag logPageSize_lt

lemma toNat_mod_of_aligned (h : pageOffset LogPageSize a = 0#32) : a.toNat % 4096 = 0 := by
  have hoffset := toNat_pageOffset (a := a) logPageSize_lt
  rw [h] at hoffset
  exact hoffset.symm

lemma toNat_last (hne : size ≠ 0#32) (h : address.toNat + size.toNat ≤ 0xFFFFF000) :
    (address + size - 1#32).toNat = address.toNat + size.toNat - 1 := by
  have hpos : 0 < size.toNat := by
    rw [Nat.pos_iff_ne_zero]
    intro hzero
    exact hne (BitVec.eq_of_toNat_eq hzero)
  rw [BitVec.toNat_sub, BitVec.toNat_add, BitVec.toNat_ofNat]
  omega

lemma toNat_last_of_empty (h : address ≠ 0#32) :
    (address + 0#32 - 1#32).toNat = address.toNat - 1 := by
  have hpos : 0 < address.toNat := by
    rw [Nat.pos_iff_ne_zero]
    intro hzero
    exact h (BitVec.eq_of_toNat_eq hzero)
  have hlt := address.isLt
  rw [BitVec.add_zero, BitVec.toNat_sub, BitVec.toNat_ofNat]
  omega

lemma touched_iff (h : InRange address size) : Touched address size a ↔
    (pageTag LogPageSize address).toNat ≤ (pageTag LogPageSize a).toNat ∧
      (pageTag LogPageSize a).toNat ≤ (pageTag LogPageSize (address + size - 1#32)).toNat := by
  have hsame : ∀ b : BitVec 32, pageTag LogPageSize b = pageTag LogPageSize a ↔
      b.toNat / 4096 = a.toNat / 4096 := fun b => pageTag_eq_iff logPageSize_lt
  unfold InRange at h
  unfold Touched
  simp only [toNat_tag, hsame]
  split_ifs at h with hsize
  · rw [hsize, toNat_last_of_empty h.2]
    have hmod := toNat_mod_of_aligned h.1
    constructor
    · rintro ⟨i, hi, -⟩
      exact absurd hi (Nat.not_lt_zero i)
    · rintro ⟨hfirst, hlast⟩
      have hpos : 0 < address.toNat := by
        rw [Nat.pos_iff_ne_zero]
        intro hzero
        exact h.2 (BitVec.eq_of_toNat_eq hzero)
      omega
  · rw [toNat_last hsize h]
    have hadd : ∀ i < size.toNat, (address + BitVec.ofNat 32 i).toNat = address.toNat + i := by
      intro i hi
      rw [BitVec.toNat_add, BitVec.toNat_ofNat]
      omega
    constructor
    · rintro ⟨i, hi, hpage⟩
      rw [hadd i hi] at hpage
      omega
    · rintro ⟨hfirst, hlast⟩
      have hpos : 0 < size.toNat := by
        rw [Nat.pos_iff_ne_zero]
        intro hzero
        exact hsize (BitVec.eq_of_toNat_eq hzero)
      -- the first byte of the range that lies in the page of `a`
      by_cases hstart : address.toNat / 4096 = a.toNat / 4096
      · refine ⟨0, hpos, ?_⟩
        rw [hadd 0 hpos]
        exact hstart
      · have hbyte : a.toNat / 4096 * 4096 - address.toNat < size.toNat := by omega
        refine ⟨a.toNat / 4096 * 4096 - address.toNat, hbyte, ?_⟩
        rw [hadd _ hbyte]
        omega

lemma last_tag_lt (h : InRange address size) :
    (pageTag LogPageSize (address + size - 1#32)).toNat ≤ 0xFFFFE000 := by
  unfold InRange at h
  rw [toNat_tag]
  split_ifs at h with hsize
  · rw [hsize, toNat_last_of_empty h.2]
    have hmod := toNat_mod_of_aligned h.1
    have hlt := address.isLt
    omega
  · rw [toNat_last hsize h]
    omega

end Arithmetic

section Loop

/-- The loop over tags changes the pages from `tag` to `tag2`. -/
lemma forTags_spec {body : BitVec 32 → Memory → Option Memory}
    {g : BitVec 32 → Option Page → Option Page}
    (hbody : ∀ t m, body t m = some (m.setPage t (g (pageTag LogPageSize t) (m.getPage t))))
    (hlast : tag2.toNat ≤ 0xFFFFE000) (htag : pageOffset LogPageSize tag = 0#32)
    (hpos : 0 < fuel) (hfuel : tag2.toNat + 8192 ≤ tag.toNat + fuel * 4096) :
    ∃ m', forTags body tag2 fuel tag m = some m' ∧ m'.safe = m.safe ∧
      ∀ a, m'.getPage a =
        if tag.toNat ≤ (pageTag LogPageSize a).toNat ∧ (pageTag LogPageSize a).toNat ≤ tag2.toNat
        then g (pageTag LogPageSize a) (m.getPage a) else m.getPage a := by
  induction fuel generalizing tag m with
  | zero => exact absurd hpos (Nat.lt_irrefl 0)
  | succ fuel ih =>
    have hmod := toNat_mod_of_aligned htag
    rw [forTags]
    by_cases hle : tag ≤ tag2
    · have hle' : tag.toNat ≤ tag2.toNat := hle
      have hsize : PageSize.toNat = 4096 := rfl
      have hnext : (tag + PageSize).toNat = tag.toNat + 4096 := by
        rw [BitVec.toNat_add, hsize]
        omega
      have haligned : pageOffset LogPageSize (tag + PageSize) = 0#32 := by
        apply BitVec.eq_of_toNat_eq
        rw [toNat_pageOffset logPageSize_lt, hnext]
        change (tag.toNat + 4096) % 4096 = 0
        omega
      obtain ⟨m', hm', hsafe, hpages⟩ := ih (m := m.setPage tag
        (g (pageTag LogPageSize tag) (m.getPage tag))) haligned (by omega) (by omega)
      refine ⟨m', ?_, hsafe, ?_⟩
      · rw [if_pos hle, hbody, Option.bind_some]
        exact hm'
      · intro a
        rw [hpages, hnext, getPage_setPage]
        have hself : (pageTag LogPageSize tag).toNat = tag.toNat := by
          rw [toNat_tag]
          omega
        by_cases ha : pageTag LogPageSize a = pageTag LogPageSize tag
        · have hnot : ¬ (tag.toNat + 4096 ≤ (pageTag LogPageSize a).toNat ∧
              (pageTag LogPageSize a).toNat ≤ tag2.toNat) := by
            rw [ha, hself]
            omega
          have hin : tag.toNat ≤ (pageTag LogPageSize a).toNat ∧
              (pageTag LogPageSize a).toNat ≤ tag2.toNat := by
            rw [ha, hself]
            exact ⟨le_rfl, hle'⟩
          rw [if_neg hnot, if_pos ha, if_pos hin, ha, getPage_of_tag ha]
        · rw [if_neg ha]
          have hne : (pageTag LogPageSize a).toNat ≠ tag.toNat := by
            rw [← hself]
            intro heq
            exact ha (BitVec.eq_of_toNat_eq heq)
          have hiff : (tag.toNat + 4096 ≤ (pageTag LogPageSize a).toNat ∧
              (pageTag LogPageSize a).toNat ≤ tag2.toNat) ↔
              (tag.toNat ≤ (pageTag LogPageSize a).toNat ∧
                (pageTag LogPageSize a).toNat ≤ tag2.toNat) := by
            have htag := toNat_tag (a := a)
            omega
          simp only [hiff]
    · have hlt : ¬ tag.toNat ≤ tag2.toNat := hle
      refine ⟨m, if_neg hle, rfl, ?_⟩
      intro a
      rw [if_neg]
      rintro ⟨hfirst, hsecond⟩
      exact hlt (hfirst.trans hsecond)

lemma forTags_view (body : BitVec 32 → Memory → Option Memory)
    (g : BitVec 32 → Option Page → Option Page) (change : Option Cell → Option Cell)
    (hbody : ∀ t m, body t m = some (m.setPage t (g (pageTag LogPageSize t) (m.getPage t))))
    (hchange : ∀ t o a, (g t o).map (Page.cell · a) = change (o.map (Page.cell · a)))
    (h : InRange address size) (hfuel : 2 ^ 20 ≤ fuel) :
    ∃ m', forTags body (pageTag LogPageSize (address + size - 1#32)) fuel
        (pageTag LogPageSize address) m = some m' ∧
      m'.safe = m.safe ∧ m'.view = m.view.onRange address size change := by
  have hlast := last_tag_lt h
  have haligned : pageOffset LogPageSize (pageTag LogPageSize address) = 0#32 := pageOffset_pageTag
  obtain ⟨m', hm', hsafe, hpages⟩ := forTags_spec (m := m) hbody hlast haligned
    (by omega : 0 < fuel) (by omega)
  refine ⟨m', hm', hsafe, ?_⟩
  funext a
  rw [view, hpages, onRange]
  by_cases ha : Touched address size a
  · rw [if_pos ((touched_iff h).mp ha), if_pos ha, hchange]
    rfl
  · rw [if_neg (fun hin => ha ((touched_iff h).mpr hin)), if_neg ha]
    rfl

lemma forTags_forever {body : BitVec 32 → Memory → Option Memory}
    (htag : pageOffset LogPageSize tag = 0#32) (hlast : tag2.toNat = 0xFFFFF000) :
    forTags body tag2 fuel tag m = none := by
  induction fuel generalizing tag m with
  | zero => rfl
  | succ fuel ih =>
    have hmod := toNat_mod_of_aligned htag
    have hlt := tag.isLt
    have hle : tag ≤ tag2 := by
      rw [BitVec.le_def]
      omega
    have hsize : PageSize.toNat = 4096 := rfl
    have haligned : pageOffset LogPageSize (tag + PageSize) = 0#32 := by
      apply BitVec.eq_of_toNat_eq
      rw [toNat_pageOffset logPageSize_lt, BitVec.toNat_add, hsize]
      change (tag.toNat + 4096) % 2 ^ 32 % 4096 = 0
      omega
    rw [forTags, if_pos hle, Option.bind_eq_none_iff]
    intro m' _
    exact ih haligned

end Loop

section Bodies

lemma Page.new_tag : Page.new (pageTag LogPageSize a) perm = Page.new a perm := by
  unfold Page.new
  simp only [and_not_mask, pageTag_pageTag]

lemma map_body (t : BitVec 32) (m : Memory) : Map.body perm t m = some (m.setPage t
    (some (((m.getPage t).getD (Page.new (pageTag LogPageSize t) perm)).addPerm perm))) := by
  unfold Map.body newPage
  rw [Page.new_tag]
  cases m.getPage t with
  | some page => rfl
  | none => exact congrArg some (setPage_setPage_of_tag rfl)

lemma protect_body (t : BitVec 32) (m : Memory) :
    Protect.body perm t m = some (m.setPage t ((m.getPage t).map (Page.setPerm · perm))) := by
  unfold Protect.body
  cases hget : m.getPage t with
  | some page => rfl
  | none =>
    rw [Option.map_none, setPage_self hget]

lemma map_cell (t : BitVec 32) (o : Option Page) (a : BitVec 32) :
    (some ((o.getD (Page.new t perm)).addPerm perm)).map (Page.cell · a) =
      some (FlatMemory.addPerm perm (o.map (Page.cell · a))) := by
  cases o with
  | none =>
    have hperm : perm ||| perm = perm := BitVec.or_self
    simp only [Option.getD_none, Option.map_some, Option.map_none, FlatMemory.addPerm, Page.cell,
      Page.addPerm, Page.new, hperm]
    rfl
  | some page =>
    simp only [Option.getD_some, Option.map_some, FlatMemory.addPerm, Page.cell, Page.addPerm,
      guest_or]
    rfl

lemma protect_cell (o : Option Page) (a : BitVec 32) :
    (o.map (Page.setPerm · perm)).map (Page.cell · a) =
      (o.map (Page.cell · a)).map fun cell => { cell with perm := guest perm } := by
  cases o <;> rfl

end Bodies

section Runs

/-- An operation that fits does to the view what the flat memory does. -/
theorem step_spec (hsafe : m.safe = true) (hfits : Fits op) (hfuel : 2 ^ 20 ≤ fuel) :
    ∃ m', step fuel op m = some m' ∧ m'.safe = true ∧ m'.view = m.view.step op := by
  cases op with
  | map address size perm =>
    obtain ⟨m', hm', hsafe', hview⟩ := forTags_view (m := m) (Map.body perm)
      (fun t o => some ((o.getD (Page.new t perm)).addPerm perm))
      (fun cell => some (FlatMemory.addPerm perm cell)) map_body map_cell hfits hfuel
    exact ⟨m', hm', hsafe'.trans hsafe, hview⟩
  | unmap address size =>
    obtain ⟨hrange, haddress, hsize⟩ := hfits
    obtain ⟨m', hm', hsafe', hview⟩ := forTags_view (m := m) Unmap.body (fun _ _ => none)
      (fun _ => none) (fun _ _ => rfl) (fun _ _ _ => rfl) hrange hfuel
    have hnot : ¬ (address &&& (PageSize - 1#32) ≠ 0 ∨ size &&& (PageSize - 1#32) ≠ 0) := by
      rw [not_or, not_not, not_not]
      exact ⟨haddress, hsize⟩
    refine ⟨m', ?_, hsafe'.trans hsafe, hview⟩
    rw [step, Unmap, if_neg hnot]
    exact hm'
  | protect address size perm =>
    obtain ⟨hrange, haddress, hsize⟩ := hfits
    obtain ⟨m', hm', hsafe', hview⟩ := forTags_view (m := m) (Protect.body perm)
      (fun _ o => o.map (Page.setPerm · perm))
      (Option.map fun cell => { cell with perm := guest perm }) protect_body
      (fun _ o a => protect_cell o a) hrange hfuel
    have hnot : ¬ (address &&& (PageSize - 1#32) ≠ 0 ∨ size &&& (PageSize - 1#32) ≠ 0) := by
      rw [not_or, not_not, not_not]
      exact ⟨haddress, hsize⟩
    refine ⟨m', ?_, hsafe'.trans hsafe, hview⟩
    rw [step, Protect, if_neg hnot]
    exact hm'
  | read address buffer =>
    have hstate := (read_spec hsafe address buffer).1
    refine ⟨_, rfl, ?_, ?_⟩ <;> rw [hstate]
    · exact hsafe
    · rfl
  | write address buffer =>
    obtain ⟨hsafe', hview, -⟩ := store_spec hsafe (.inl rfl) address buffer
    exact ⟨_, rfl, hsafe', hview⟩
  | init address buffer =>
    obtain ⟨hsafe', hview, -⟩ := store_spec hsafe (.inr rfl) address buffer
    exact ⟨_, rfl, hsafe', hview⟩

lemma run_spec (ops : List Op) (hsafe : m.safe = true) (hfits : ∀ op ∈ ops, Fits op)
    (hfuel : 2 ^ 20 ≤ fuel) : ∃ m', run (step fuel) ops m = some m' ∧ m'.safe = true ∧
      m'.view = ops.foldl FlatMemory.step m.view := by
  induction ops generalizing m with
  | nil => exact ⟨m, rfl, hsafe, rfl⟩
  | cons op ops ih =>
    obtain ⟨m₁, hm₁, hsafe₁, hview₁⟩ := step_spec hsafe (hfits op List.mem_cons_self) hfuel
    obtain ⟨m', hm', hsafe', hview'⟩ :=
      ih hsafe₁ (fun op hop => hfits op (List.mem_cons_of_mem _ hop))
    refine ⟨m', ?_, hsafe', ?_⟩
    · rw [run_cons, hm₁, Option.bind_some]
      exact hm'
    · rw [hview', hview₁]
      rfl

/-- A sequence of operations whose ranges fit ends, and then the memory is the flat memory: an
access succeeds exactly when its bytes have the permissions, and a read returns the bytes last
stored. -/
theorem run_refines (ops : List Op) (hfits : ∀ op ∈ ops, Fits op) (hfuel : 2 ^ 20 ≤ fuel) :
    ∃ m, run (step fuel) ops {} = some m ∧ m.view = FlatMemory.run ops ∧
      (∀ a buffer, ((m.Read a buffer).error = none ↔
          (FlatMemory.run ops).AllowsRange a buffer.length .Read) ∧
        ((m.Read a buffer).error = none → (m.Read a buffer).buffer =
          (FlatMemory.run ops).bytes a buffer.length)) ∧
      (∀ a buffer, (m.Write a buffer).error = none ↔
        (FlatMemory.run ops).AllowsRange a buffer.length .Write) ∧
      (∀ a buffer, (m.Init a buffer).error = none ↔
        (FlatMemory.run ops).AllowsRange a buffer.length .Init) ∧
      ∀ a xs ys access, m.Access a (xs ++ ys) access = (m.Access a xs access).append ys
        fun m => m.Access (a + BitVec.ofNat 32 xs.length) ys access := by
  obtain ⟨m, hm, hsafe, hview⟩ := run_spec (m := {}) ops rfl hfits hfuel
  have hview : m.view = FlatMemory.run ops := hview
  refine ⟨m, hm, hview, ?_, ?_, ?_, ?_⟩
  · intro a buffer
    rw [← hview]
    exact (read_spec hsafe a buffer).2
  · intro a buffer
    rw [← hview]
    exact (store_spec hsafe (.inl rfl) a buffer).2.2
  · intro a buffer
    rw [← hview]
    exact (store_spec hsafe (.inr rfl) a buffer).2.2
  · intro a xs ys access
    exact access_append m a xs ys access

end Runs

section Examples

def twoPages : List Op :=
  [.map 0x1FFF#32 2#32 3#32, .write 0x1FFF#32 [1, 2], .protect 0x2000#32 0x1000#32 1#32]

theorem run_refines_twoPages : (∀ op ∈ twoPages, Fits op) ∧
    ∃ m, run (step (2 ^ 20)) twoPages {} = some m ∧ m.view = FlatMemory.run twoPages := by
  have hfits : ∀ op ∈ twoPages, Fits op := by decide
  obtain ⟨m, hm, hview, -⟩ := run_refines twoPages hfits le_rfl
  exact ⟨hfits, m, hm, hview⟩

/-- Mapping the last page never ends. -/
theorem not_refines_lastPage :
    (∀ fuel, Map fuel {} 0xFFFFF000#32 0x1000#32 1#32 = none) ∧
    (∃ m, Map (2 ^ 20) {} 0xFFFFE800#32 0x2000#32 1#32 = some m ∧
      Touched 0xFFFFE800#32 0x2000#32 0xFFFFF000#32 ∧
      (m.Read 0xFFFFF000#32 [0]).error = some (.SegmentationFault 0xFFFFF000#32)) := by
  constructor
  · intro fuel
    apply forTags_forever
    · decide
    · decide
  · refine ⟨{}, rfl, ⟨0x800, by decide, by decide⟩, ?_⟩
    decide

end Examples

end OISA.Memory
