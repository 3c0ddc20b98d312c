import OISA.Proofs.FreeRegions
import OISA.X86.AddressSpace

/-!
# What the system calls do to the address space

The loops over pages end exactly when their range ends before the last page of the space, the
searches always end, and what the calls do to the pages of a range and to the others follows.
-/

namespace OISA.X86.AddressSpace

open OISA.Lib OISA.Memory

def InBytes (r n : ℕ) (x : Word) : Prop := r ≤ x.toNat ∧ x.toNat < r + n

def pageCeil (len : ℕ) : ℕ := (len + 4095) / 4096 * 4096

section Ranges

variable {m m' : Memory} {addr size a x perm : Word} {fuel : ℕ}

lemma mask_eq_zero_iff : a &&& (PageSize - 1) = 0 ↔ a.toNat % 4096 = 0 :=
  ⟨toNat_mod_of_aligned, aligned_of_toNat⟩

lemma toNat_roundUp (len : Word) : (RoundUp len PageSize).toNat =
    if len.toNat ≤ 0xFFFFF000 then pageCeil len.toNat else 0 := by
  have hlt := len.isLt
  have htag : RoundUp len PageSize = pageTag LogPageSize (len + 4095#32) := rfl
  rw [htag, toNat_tag, BitVec.toNat_add]
  change (len.toNat + 4095) % 2 ^ 32 / 4096 * 4096 = _
  unfold pageCeil
  split <;> omega

lemma inPages_iff (ha : addr.toNat % 4096 = 0) (hs : size.toNat % 4096 = 0)
    (hpos : 0 < size.toNat) :
    InPages addr.toNat size.toNat x ↔ InBytes addr.toNat size.toNat x := by
  unfold InPages InBytes
  omega

lemma new_page : Page.new (pageTag LogPageSize x) perm = Page.new x perm := Page.new_tag

lemma map_range (m : Memory) (ha : addr.toNat % 4096 = 0) (hs : size.toNat % 4096 = 0)
    (hpos : 0 < size.toNat) (hlast : addr.toNat + size.toNat ≤ 0xFFFFF000)
    (hfuel : 2 ^ 20 ≤ fuel) (perm : Word) :
    ∃ m', m.Map fuel addr size perm = some m' ∧ ∀ x,
      (InBytes addr.toNat size.toNat x → m'.getPage x =
        some (((m.getPage x).getD (Page.new x perm)).addPerm perm)) ∧
      (¬ InBytes addr.toNat size.toNat x → m'.getPage x = m.getPage x) := by
  obtain ⟨m', hm', hpages⟩ := forTags_pages m addr size (Map.body perm)
    (fun t o => some ((o.getD (Page.new t perm)).addPerm perm)) map_body hpos hlast hfuel
  refine ⟨m', hm', fun x => ?_⟩
  rw [← inPages_iff ha hs hpos, ← new_page (x := x)]
  exact hpages x

lemma unmap_range (m : Memory) (ha : addr.toNat % 4096 = 0) (hs : size.toNat % 4096 = 0)
    (hpos : 0 < size.toNat) (hlast : addr.toNat + size.toNat ≤ 0xFFFFF000)
    (hfuel : 2 ^ 20 ≤ fuel) :
    ∃ m', m.Unmap fuel addr size = some m' ∧ ∀ x,
      (InBytes addr.toNat size.toNat x → m'.getPage x = none) ∧
      (¬ InBytes addr.toNat size.toNat x → m'.getPage x = m.getPage x) := by
  obtain ⟨m', hm', hpages⟩ := forTags_pages m addr size Unmap.body (fun _ _ => none)
    (fun _ _ => rfl) hpos hlast hfuel
  have hassert : ¬ (addr &&& (PageSize - 1#32) ≠ 0 ∨ size &&& (PageSize - 1#32) ≠ 0) := by
    rw [not_or, not_not, not_not]
    exact ⟨mask_eq_zero_iff.mpr ha, mask_eq_zero_iff.mpr hs⟩
  refine ⟨m', ?_, fun x => ?_⟩
  · unfold Memory.Unmap
    rw [if_neg hassert]
    exact hm'
  · rw [← inPages_iff ha hs hpos]
    exact hpages x

lemma last_tag (h : addr + size = 0) :
    (pageTag LogPageSize (addr + size - 1#32)).toNat = 0xFFFFF000 := by
  rw [h]
  rfl

lemma map_forever (h : addr + size = 0) : m.Map fuel addr size perm = none :=
  forTags_forever pageOffset_pageTag (last_tag h)

lemma unmap_forever (h : addr + size = 0) : m.Unmap fuel addr size = none := by
  unfold Memory.Unmap
  split
  · rfl
  · exact forTags_forever pageOffset_pageTag (last_tag h)

lemma add_eq_zero (h : addr.toNat + size.toNat = 2 ^ 32) : addr + size = 0 := by
  apply BitVec.eq_of_toNat_eq
  rw [BitVec.toNat_add, h]
  rfl

end Ranges

section Searches

variable {m : Memory} {address size : Word} {fuel : ℕ}

lemma size_ne_zero (hpos : 0 < size.toNat) : size ≠ 0#32 := by
  rintro rfl
  exact absurd hpos (Nat.lt_irrefl 0)

lemma mapSpaceDown_total (m : Memory) (ha : address.toNat % 4096 = 0)
    (hs : size.toNat % 4096 = 0) (hpos : 0 < size.toNat) (hfuel : 2 ^ 20 ≤ fuel) :
    ∃ r, m.MapSpaceDown fuel address size = some r := by
  obtain ⟨r, hr, -⟩ := mapSpaceDown_last (m := m) (aligned_of_toNat ha) (aligned_of_toNat hs)
    (size_ne_zero hpos)
  exact ⟨r, mapSpaceDown_mono hfuel hr⟩

lemma mapSpaceDown_hint (ha : address.toNat % 4096 = 0) (hs : size.toNat % 4096 = 0)
    (hpos : 0 < size.toNat) (h : m.MapSpaceDown fuel address size = some address) :
    size = PageSize ∧ m.getPage address = none := by
  have hne : address ≠ -1 := by
    rintro rfl
    revert ha
    decide
  obtain ⟨-, hle, hfree⟩ := mapSpaceDown_spec h hne
  constructor
  · apply BitVec.eq_of_toNat_eq
    change size.toNat = 4096
    omega
  · exact hfree address le_rfl (by omega)

lemma mapSpaceDown_free (ha : address.toNat % 4096 = 0) (hzero : address ≠ 0)
    (hfree : m.getPage address = none) (hfuel : 0 < fuel) :
    m.MapSpaceDown fuel address PageSize = some address := by
  obtain ⟨fuel, rfl⟩ := Nat.exists_eq_succ_of_ne_zero hfuel.ne'
  have hzero' : ¬ address = 0#32 := hzero
  rw [mapSpaceDown_eq _ (aligned_of_toNat ha) rfl, MapSpaceDown.loop, if_neg hzero', hfree,
    if_neg (by simp), if_pos (by simp)]

lemma mapSpace_total (m : Memory) (ha : address.toNat % 4096 = 0)
    (hs : size.toNat % 4096 = 0) (hpos : 0 < size.toNat) (hfuel : 2 ^ 20 ≤ fuel) :
    ∃ r, m.MapSpace fuel address size = some r := by
  obtain ⟨r, hr, -⟩ := mapSpace_first (m := m) (aligned_of_toNat ha) (aligned_of_toNat hs)
    (size_ne_zero hpos)
  exact ⟨r, mapSpace_mono hfuel hr⟩

lemma mapSpaceDown_loop_empty (ha : address.toNat % 4096 = 0) (hfuel : address.toNat < fuel * 4096) :
    (∃ r, MapSpaceDown.loop m 0 fuel address address = some r) ↔
      ∀ x : Word, 4096 ≤ x.toNat → x.toNat < address.toNat + 4096 → (m.getPage x).isSome = true := by
  induction fuel generalizing address with
  | zero => omega
  | succ fuel ih =>
    have hsize : PageSize.toNat = 4096 := rfl
    rw [MapSpaceDown.loop]
    by_cases hzero : address = 0#32
    · rw [if_pos hzero]
      refine iff_of_true ⟨_, rfl⟩ fun x hx hlt => ?_
      rw [hzero] at hlt
      change x.toNat < 0 + 4096 at hlt
      omega
    · have hnat : address.toNat ≠ 0 := fun hcontra => hzero (BitVec.eq_of_toNat_eq hcontra)
      have hdown : (address - PageSize).toNat = address.toNat - 4096 := by
        rw [BitVec.toNat_sub, hsize]
        omega
      rw [if_neg hzero]
      by_cases hmapped : (m.getPage address).isSome = true
      · rw [if_pos hmapped, ih (by omega) (by omega)]
        refine ⟨fun hall x hx hlt => ?_, fun hall x hx hlt => hall x hx (by omega)⟩
        by_cases hpage : x.toNat < address.toNat
        · exact hall x hx (by omega)
        · have hsame : m.getPage x = m.getPage address := getPage_of_page (by omega)
          rw [hsame]
          exact hmapped
      · have hnone : ¬ address - address + PageSize = 0 := by
          rw [BitVec.sub_self, BitVec.zero_add]
          decide
        have hnot : ¬ address - address + PageSize < 0 := by
          rw [BitVec.lt_def]
          exact Nat.not_lt_zero _
        rw [if_neg hmapped, if_neg hnone, if_neg hnot]
        refine iff_of_false (fun hex => by obtain ⟨r, hr⟩ := hex; cases hr) fun hall => ?_
        exact hmapped (hall address (by omega) (by omega))

end Searches

section Files

variable {m m' : Memory} {a x size : Word} {fuel : ℕ}

lemma init_page {page : Page} (ha : a.toNat % 4096 = 0) (hget : m.getPage a = some page)
    (hperm : page.perm &&& AccessType.Init.bits = AccessType.Init.bits) {buf : List UInt8}
    (hlen : buf.length = 4096) :
    (m.Access a buf .Init).error = none ∧ (m.Access a buf .Init).state =
      m.setPage a (some (page.setData (memcpy page.AllocateData 0 buf))) := by
  have hoffset : (pageOffset LogPageSize a).toNat = 0 := by
    rw [toNat_pageOffset logPageSize_lt]
    exact ha
  have hchunk : min buf.length (2 ^ LogPageSize - (pageOffset LogPageSize a).toNat) = 4096 := by
    rw [hlen, hoffset]
    rfl
  have hallowed : ¬ page.Denied m.safe .Init := by
    have hallows : (page.touch .Init).allows .Init = true := decide_eq_true hperm
    rw [Page.Denied, hallows]
    simp
  have hone : AccessAtPageBoundary .Init a buf m =
      ⟨m.setPage a (some (page.setData (memcpy page.AllocateData 0 buf))), buf, none⟩ := by
    rw [accessAtPageBoundary_of_page hget (by rw [hoffset, hlen]; rfl),
      Page.access_write hallowed (.inr rfl), hoffset]
    rfl
  have hloop : m.Access a buf .Init =
      ⟨m.setPage a (some (page.setData (memcpy page.AllocateData 0 buf))), buf, none⟩ := by
    unfold Memory.Access transfer
    rw [hlen, transferLoop, if_neg (List.ne_nil_of_length_pos (by omega)), hchunk]
    dsimp only
    rw [List.take_of_length_le hlen.le, List.drop_of_length_le hlen.le, hone,
      Outcome.append_of_none rfl]
    simp [transferLoop]
  rw [hloop]
  exact ⟨rfl, rfl⟩

def fileByte (bytes : List UInt8) (pos i : ℕ) : UInt8 := bytes.getD (pos + i) 0

lemma memcpy_page {data : ℕ → UInt8} {buf : List UInt8} {i : ℕ} (hi : i < buf.length) :
    memcpy data 0 buf i = buf.getD i 0 := by
  unfold memcpy
  rw [if_pos (Nat.zero_le i), Nat.sub_zero, List.getD_eq_getElem?_getD,
    List.getElem?_eq_getElem hi]
  rfl

/-- The loop fills the pages of a range with the bytes of the file. -/
lemma readPages_spec (bytes : List UInt8) (pos k : ℕ) (ha : a.toNat % 4096 = 0)
    (hk : size.toNat = k * 4096) (hsmall : size.toNat < 2 ^ 31)
    (hlast : a.toNat + size.toNat ≤ 2 ^ 32) (hfuel : k < fuel)
    (hpages : ∀ x, InBytes a.toNat size.toNat x → ∃ page, m.getPage x = some page ∧
      page.perm &&& AccessType.Init.bits = AccessType.Init.bits ∧
      page.AllocateData = fun _ => 0) :
    ∃ m', readPages bytes fuel size pos a m = some m' ∧ ∀ x,
      (InBytes a.toNat size.toNat x → ∃ page page', m.getPage x = some page ∧
        m'.getPage x = some page' ∧ page'.perm = page.perm ∧
        page'.AllocateData (x.toNat % 4096) = fileByte bytes pos (x.toNat - a.toNat)) ∧
      (¬ InBytes a.toNat size.toNat x → m'.getPage x = m.getPage x) := by
  induction k generalizing fuel size pos a m with
  | zero =>
    obtain ⟨fuel, rfl⟩ := Nat.exists_eq_succ_of_ne_zero (by omega : fuel ≠ 0)
    have hnot : ¬ 0 < size.toInt := by
      rw [BitVec.toInt_eq_toNat_of_lt (by omega)]
      omega
    refine ⟨m, by rw [readPages, if_neg hnot], fun x => ⟨fun hx => ?_, fun _ => rfl⟩⟩
    unfold InBytes at hx
    omega
  | succ k ih =>
    obtain ⟨fuel, rfl⟩ := Nat.exists_eq_succ_of_ne_zero (by omega : fuel ≠ 0)
    have hpos : 0 < size.toInt := by
      rw [BitVec.toInt_eq_toNat_of_lt (by omega)]
      omega
    have hsize : PageSize.toNat = 4096 := rfl
    have hrest : (size - PageSize).toNat = k * 4096 := by
      rw [BitVec.toNat_sub, hsize]
      omega
    set data := (bytes.drop pos).take PageSize.toNat with hdata
    have hlen : data.length ≤ 4096 := by
      rw [hdata, List.length_take, hsize]
      omega
    have hlenEq : data.length = min 4096 (bytes.length - pos) := by
      rw [hdata, List.length_take, List.length_drop, hsize]
    set buf := data ++ List.replicate (PageSize.toNat - data.length) 0 with hbuf
    have hbufLen : buf.length = 4096 := by
      rw [hbuf, List.length_append, List.length_replicate, hsize]
      omega
    have hbyte : ∀ i < 4096, buf.getD i 0 = fileByte bytes pos i := by
      intro i hi
      unfold fileByte
      rw [List.getD_eq_getElem?_getD, List.getD_eq_getElem?_getD, hbuf]
      by_cases hin : i < data.length
      · rw [List.getElem?_append_left hin, hdata, List.getElem?_take, if_pos (by omega),
          List.getElem?_drop]
      · rw [List.getElem?_append_right (by omega), List.getElem?_replicate,
          List.getElem?_eq_none (by omega : bytes.length ≤ pos + i)]
        split <;> rfl
    have hstart : InBytes a.toNat size.toNat a := by
      unfold InBytes
      omega
    obtain ⟨page, hget, hperm, hzero⟩ := hpages a hstart
    -- the memory after this page
    set m₁ := if data.length ≠ 0 then
      m.setPage a (some (page.setData (memcpy page.AllocateData 0 buf))) else m with hm₁
    have hstep : readPages bytes (fuel + 1) size pos a m =
        readPages bytes fuel (size - PageSize) (pos + data.length) (a + PageSize) m₁ := by
      rw [readPages, if_pos hpos]
      dsimp only
      rw [← hdata, ← hbuf]
      by_cases hempty : data.length ≠ 0
      · obtain ⟨herror, hstate⟩ := init_page ha hget hperm hbufLen
        rw [if_pos hempty, herror, hstate, hm₁, if_pos hempty]
      · rw [if_neg hempty, hm₁, if_neg hempty]
    have hfirst : ∀ x : Word, x.toNat / 4096 = a.toNat / 4096 → ∃ page', m₁.getPage x = some page' ∧
        page'.perm = page.perm ∧
        page'.AllocateData (x.toNat % 4096) = fileByte bytes pos (x.toNat - a.toNat) := by
      intro x hx
      have hi : x.toNat - a.toNat = x.toNat % 4096 := by omega
      have hilt : x.toNat % 4096 < 4096 := Nat.mod_lt _ (by omega)
      rw [getPage_of_page hx, hi]
      by_cases hempty : data.length ≠ 0
      · refine ⟨page.setData (memcpy page.AllocateData 0 buf), ?_, rfl, ?_⟩
        · rw [hm₁, if_pos hempty, getPage_setPage_of_tag rfl]
        · change memcpy page.AllocateData 0 buf _ = _
          rw [memcpy_page (by omega), hbyte _ hilt]
      · refine ⟨page, ?_, rfl, ?_⟩
        · rw [hm₁, if_neg hempty]
          exact hget
        · unfold fileByte
          rw [hzero, List.getD_eq_getElem?_getD, List.getElem?_eq_none (by omega)]
          rfl
    have hother : ∀ x : Word, x.toNat / 4096 ≠ a.toNat / 4096 → m₁.getPage x = m.getPage x := by
      intro x hx
      rw [hm₁]
      split
      · refine getPage_setPage_of_ne fun htag => hx ?_
        exact (pageTag_eq_iff logPageSize_lt).mp htag
      · rfl
    by_cases hlastPage : k = 0
    · subst hlastPage
      obtain ⟨n, rfl⟩ := Nat.exists_eq_succ_of_ne_zero (by omega : fuel ≠ 0)
      have hnot : ¬ 0 < (size - PageSize).toInt := by
        rw [BitVec.toInt_eq_toNat_of_lt (by omega)]
        omega
      refine ⟨m₁, by rw [hstep, readPages, if_neg hnot], fun x => ⟨fun hx => ?_, fun hx => ?_⟩⟩
      · have hpage : x.toNat / 4096 = a.toNat / 4096 := by
          unfold InBytes at hx
          omega
        obtain ⟨page', hget', hperm', hdata'⟩ := hfirst x hpage
        exact ⟨page, page', by rw [getPage_of_page hpage, hget], hget', hperm', hdata'⟩
      · apply hother
        intro hpage
        apply hx
        unfold InBytes
        omega
    · have hnext : (a + PageSize).toNat = a.toNat + 4096 := by
        rw [BitVec.toNat_add, hsize]
        omega
      obtain ⟨m', hm', hall⟩ := @ih m₁ (a + PageSize) (size - PageSize) fuel
        (pos + data.length) (by omega) (by omega) (by omega) (by omega)
        (by omega) (fun x hx => by
          unfold InBytes at hx
          rw [hother x (by omega)]
          refine hpages x ?_
          unfold InBytes
          omega)
      refine ⟨m', by rw [hstep]; exact hm', fun x => ⟨fun hx => ?_, fun hx => ?_⟩⟩
      · unfold InBytes at hx
        by_cases hpage : x.toNat / 4096 = a.toNat / 4096
        · obtain ⟨page', hget', hperm', hdata'⟩ := hfirst x hpage
          have hout : ¬ InBytes (a + PageSize).toNat (size - PageSize).toNat x := by
            unfold InBytes
            omega
          refine ⟨page, page', by rw [getPage_of_page hpage, hget], ?_, hperm', hdata'⟩
          rw [(hall x).2 hout, hget']
        · have hin : InBytes (a + PageSize).toNat (size - PageSize).toNat x := by
            unfold InBytes
            omega
          obtain ⟨p, p', hp, hp', hperm', hdata'⟩ := (hall x).1 hin
          refine ⟨p, p', by rw [← hother x hpage, hp], hp', hperm', hdata'.trans ?_⟩
          unfold fileByte
          by_cases hfull : data.length = 4096
          · have heq : pos + data.length + (x.toNat - (a + PageSize).toNat) =
                pos + (x.toNat - a.toNat) := by omega
            rw [heq]
          · rw [List.getD_eq_getElem?_getD, List.getD_eq_getElem?_getD,
              List.getElem?_eq_none (by omega), List.getElem?_eq_none (by omega)]
      · have hout : ¬ InBytes (a + PageSize).toNat (size - PageSize).toNat x := by
          intro hin
          apply hx
          unfold InBytes at hin ⊢
          omega
        rw [(hall x).2 hout]
        apply hother
        intro hpage
        apply hx
        unfold InBytes
        omega

end Files

def protection (perm : Word) : Word := perm &&& 7

def Maps (m m' : Memory) (r n : ℕ) (prot : Word) (content : ℕ → UInt8) : Prop :=
  ∀ x, (InBytes r n x → ∃ page, m'.getPage x = some page ∧ protection page.perm = prot ∧
      page.AllocateData (x.toNat % 4096) = content (x.toNat - r)) ∧
    (¬ InBytes r n x → m'.getPage x = m.getPage x)

/-- The contents that `mmap` is asked for: the bytes of the file from the offset on -/
def MmapArgs.content (args : MmapArgs) (files : Word → Option HostFile) (i : ℕ) : UInt8 :=
  match args.file files with
  | none => 0
  | some file => fileByte file.bytes args.offset.toNat i

/-- What `mmap` has done: it returns a range that is free unless the address is fixed, and maps
it. -/
def MmapDone (m : Memory) (files : Word → Option HostFile) (args : MmapArgs) :
    Result → Prop
  | .error _ => True
  | .returns r m' =>
    let n := pageCeil args.len.toNat
    r.toNat % 4096 = 0 ∧ r.toNat + n ≤ 2 ^ 32 ∧
    (args.flags &&& MAP_FIXED ≠ 0 → r = args.addr) ∧
    (args.flags &&& MAP_FIXED = 0 → ∀ x, InBytes r.toNat n x → m.getPage x = none) ∧
    Maps m m' r.toNat n (protection args.prot) (args.content files)

/-- The contents that `mmap` reads: it reads no more than `INT_MAX` bytes. -/
def MmapArgs.read (args : MmapArgs) (files : Word → Option HostFile) (n i : ℕ) : UInt8 :=
  match args.file files with
  | none => 0
  | some file => if n < 2 ^ 31 then fileByte file.bytes (file.lseek args.offset) i else 0

section Mmap

variable {m m' : Memory} {files : Word → Option HostFile} {args : MmapArgs} {r size : Word}
  {fuel : ℕ}

lemma bit_eq {prot mask : Word} (h : mask = 1 ∨ mask = 2 ∨ mask = 4) :
    (if prot &&& mask ≠ 0 then mask else 0) = prot &&& mask := by
  by_cases hzero : prot &&& mask = 0
  · rw [if_neg (not_not.mpr hzero), hzero]
  · rw [if_pos hzero]
    have hbit : ∃ k < 32, mask = BitVec.twoPow 32 k := by
      rcases h with rfl | rfl | rfl
      · exact ⟨0, by decide, rfl⟩
      · exact ⟨1, by decide, rfl⟩
      · exact ⟨2, by decide, rfl⟩
    obtain ⟨k, -, rfl⟩ := hbit
    rw [BitVec.and_twoPow] at hzero ⊢
    split
    · rfl
    · rw [if_neg ‹_›] at hzero
      exact absurd rfl hzero

lemma mmapPerm_spec (prot : Word) : protection (mmapPerm prot) = protection prot ∧
    mmapPerm prot &&& AccessType.Init.bits = AccessType.Init.bits := by
  have hperm : mmapPerm prot = 8 ||| (prot &&& 1) ||| (prot &&& 2) ||| (prot &&& 4) := by
    rw [← @bit_eq prot 1 (.inl rfl),
      ← @bit_eq prot 2 (.inr (.inl rfl)),
      ← @bit_eq prot 4 (.inr (.inr rfl))]
    rfl
  have hseven : (prot &&& 1) ||| (prot &&& 2) ||| (prot &&& 4) = prot &&& 7 := by
    ext i hi
    have hbits : ((1 : Word) ||| 2 ||| 4)[i] = (7 : Word)[i] := rfl
    simp only [BitVec.getElem_and, BitVec.getElem_or] at hbits ⊢
    rw [← hbits]
    cases prot[i] <;> rfl
  rw [BitVec.or_assoc, BitVec.or_assoc, ← BitVec.or_assoc (prot &&& 1), hseven] at hperm
  constructor
  · unfold protection
    rw [hperm]
    ext i hi
    have hbits : ((8 : Word) &&& 7)[i] = false := by
      have hzero : (8 : Word) &&& 7 = 0#32 := rfl
      rw [hzero, BitVec.getElem_zero]
    simp only [BitVec.getElem_and, BitVec.getElem_or] at hbits ⊢
    cases prot[i] <;> cases h7 : (7 : Word)[i] <;> simp_all
  · rw [hperm]
    change _ &&& (8 : Word) = 8
    ext i hi
    simp only [BitVec.getElem_and, BitVec.getElem_or]
    cases (8 : Word)[i] <;> simp

/-- A free range, mapped and read -/
lemma mapRange_spec (ha : r.toNat % 4096 = 0) (hs : size.toNat % 4096 = 0)
    (hpos : 0 < size.toNat) (hlast : r.toNat + size.toNat ≤ 0xFFFFF000) (hfuel : 2 ^ 20 < fuel)
    (hfree : ∀ x, InBytes r.toNat size.toNat x → m.getPage x = none) :
    ∃ m', mapRange fuel files args size r m = some (.returns r m') ∧
      Maps m m' r.toNat size.toNat (protection args.prot) (args.read files size.toNat) := by
  obtain ⟨hprot, hinit⟩ := mmapPerm_spec args.prot
  obtain ⟨m₁, hm₁, hpages⟩ := map_range m ha hs hpos hlast hfuel.le (mmapPerm args.prot)
  have hnew : ∀ x, InBytes r.toNat size.toNat x → ∃ page, m₁.getPage x = some page ∧
      page.perm = mmapPerm args.prot ∧ page.AllocateData = fun _ => 0 := by
    intro x hx
    have hget := (hpages x).1 hx
    rw [hfree x hx, Option.getD_none] at hget
    refine ⟨_, hget, ?_, rfl⟩
    change mmapPerm args.prot ||| mmapPerm args.prot = _
    exact BitVec.or_self
  have hzero : ∀ (m' : Memory), m' = m₁ → (args.read files size.toNat = fun _ => 0) →
      Maps m m' r.toNat size.toNat (protection args.prot) (args.read files size.toNat) := by
    intro m' hm' hread x
    rw [hm']
    refine ⟨fun hx => ?_, (hpages x).2⟩
    obtain ⟨page, hget, hperm, hdata⟩ := hnew x hx
    exact ⟨page, hget, by rw [hperm, hprot], by rw [hdata, hread]⟩
  unfold mapRange
  rw [hm₁, Option.bind_some]
  cases hfile : args.file files with
  | none =>
    refine ⟨m₁, rfl, hzero m₁ rfl ?_⟩
    funext i
    rw [MmapArgs.read, hfile]
  | some file =>
    dsimp only
    by_cases hsmall : size.toNat < 2 ^ 31
    · obtain ⟨m', hm', hall⟩ := @readPages_spec m₁ r size fuel
        file.bytes (file.lseek args.offset) (size.toNat / 4096) ha (by omega) hsmall (by omega)
        (by omega) (fun x hx => by
          obtain ⟨page, hget, hperm, hdata⟩ := hnew x hx
          exact ⟨page, hget, by rw [hperm, hinit], hdata⟩)
      refine ⟨m', by rw [hm', Option.map_some], fun x => ⟨fun hx => ?_, fun hx => ?_⟩⟩
      · obtain ⟨page, page', hget, hget', hperm', hdata'⟩ := (hall x).1 hx
        obtain ⟨page₁, hget₁, hperm₁, -⟩ := hnew x hx
        rw [hget, Option.some.injEq] at hget₁
        refine ⟨page', hget', by rw [hperm', hget₁, hperm₁, hprot], ?_⟩
        rw [hdata', MmapArgs.read, hfile]
        dsimp only
        rw [if_pos hsmall]
      · rw [(hall x).2 hx, (hpages x).2 hx]
    · obtain ⟨n, rfl⟩ := Nat.exists_eq_succ_of_ne_zero (by omega : fuel ≠ 0)
      have hnot : ¬ 0 < size.toInt := by
        have hlt := size.isLt
        rw [BitVec.toInt_eq_toNat_cond]
        split <;> omega
      refine ⟨m₁, by rw [readPages, if_neg hnot, Option.map_some], hzero m₁ rfl ?_⟩
      funext i
      rw [MmapArgs.read, hfile]
      dsimp only
      rw [if_neg hsmall]

lemma mapRange_forever (h : r + size = 0) : mapRange fuel files args size r m = none := by
  unfold mapRange
  rw [map_forever h, Option.bind_none]

lemma Maps.content_eq {n p : ℕ} {prot : Word} {f g : ℕ → UInt8} (hspace : p + n ≤ 2 ^ 32)
    (hf : Maps m m' p n prot f) (hg : Maps m m' p n prot g) : ∀ i < n, f i = g i := by
  intro i hi
  have hx : (BitVec.ofNat 32 (p + i)).toNat = p + i := by
    rw [BitVec.toNat_ofNat]
    omega
  have hin : InBytes p n (BitVec.ofNat 32 (p + i)) := by
    unfold InBytes
    omega
  obtain ⟨page, hget, -, hdata⟩ := (hf _).1 hin
  obtain ⟨page', hget', -, hdata'⟩ := (hg _).1 hin
  rw [hget, Option.some.injEq] at hget'
  rw [← hget', hdata, hx, Nat.add_sub_cancel_left] at hdata'
  exact hdata'

lemma Maps.congr {n p : ℕ} {prot : Word} {f g : ℕ → UInt8} (hf : Maps m m' p n prot f)
    (h : ∀ i < n, f i = g i) : Maps m m' p n prot g := by
  intro x
  refine ⟨fun hx => ?_, (hf x).2⟩
  obtain ⟨page, hget, hprot, hdata⟩ := (hf x).1 hx
  refine ⟨page, hget, hprot, hdata.trans (h _ ?_)⟩
  unfold InBytes at hx
  omega

/-- When a call of `mmap` does what it has to do: the program is told of an error, or the range
ends before the last page of the space and the file can be read from the offset. -/
def MmapFits (fuel : ℕ) (m : Memory) (files : Word → Option HostFile) (args : MmapArgs) : Prop :=
  let n := pageCeil args.len.toNat
  let readable := ∀ i < n, args.read files n i = args.content files i
  0 < args.guest_fd.toInt ∧ (files args.guest_fd).isNone = true ∨
  args.offset.toNat % 4096 ≠ 0 ∨
  if args.flags &&& MAP_FIXED ≠ 0 then
    args.addr = 0 ∨ args.addr.toNat + n ≤ 0xFFFFF000 ∧ readable
  else if args.len.toNat ≤ 0xFFFFF000 then
    findSpace fuel m args.addr (RoundUp args.len PageSize) = some (-1) ∨
      ¬ (args.addr.toNat = 0xFFFFF000 ∧ n = 4096 ∧ m.getPage args.addr = none) ∧ readable
  else ∀ x : Word, 4096 ≤ x.toNat → x.toNat < mmap_base_address.toNat + 4096 →
    (m.getPage x).isSome = true

/-- The search for a free range -/
lemma findSpace_spec (ha : args.addr.toNat % 4096 = 0) (hs : size.toNat % 4096 = 0)
    (hpos : 0 < size.toNat) (hfuel : 2 ^ 20 < fuel) :
    ∃ r, findSpace fuel m args.addr size = some r ∧ (r = -1 ∨
      r.toNat % 4096 = 0 ∧ (∀ x, InBytes r.toNat size.toNat x → m.getPage x = none) ∧
      (r.toNat + size.toNat ≤ 0xFFFFF000 ∨ r = args.addr ∧ args.addr.toNat = 0xFFFFF000 ∧
        size.toNat = 4096 ∧ m.getPage args.addr = none)) ∧
      (args.addr.toNat = 0xFFFFF000 → size.toNat = 4096 → m.getPage args.addr = none →
        r = args.addr) := by
  obtain ⟨hint, hhint⟩ := mapSpaceDown_total m ha hs hpos hfuel.le
  have hbase : mmap_base_address.toNat % 4096 = 0 := rfl
  have hsize : PageSize.toNat = 4096 := rfl
  unfold findSpace
  rw [hhint, Option.bind_eq_bind, Option.bind_some]
  by_cases hcond : args.addr = 0 ∨ hint ≠ args.addr
  · rw [if_pos hcond]
    obtain ⟨r, hr⟩ := mapSpaceDown_total m hbase hs hpos hfuel.le
    refine ⟨r, hr, ?_, fun hlast hpage hfree => ?_⟩
    · by_cases hne : r = -1
      · exact .inl hne
      · have hspec := mapSpaceDown_spec hr hne
        refine .inr ⟨hspec.1, fun x hx => hspec.2.2 x hx.1 hx.2, .inl ?_⟩
        have hle := hspec.2.1
        change _ ≤ 0xb7fb0000 + 4096 at hle
        omega
    · have hzero : args.addr ≠ 0 := by
        intro heq
        rw [heq] at hlast
        cases hlast
      have hsz : size = PageSize := BitVec.eq_of_toNat_eq (hpage.trans hsize.symm)
      rw [hsz, mapSpaceDown_free ha hzero hfree (by omega), Option.some.injEq] at hhint
      exact absurd hhint.symm (hcond.resolve_left hzero)
  · rw [if_neg hcond]
    rw [not_or, not_not] at hcond
    obtain ⟨hzero, heq⟩ := hcond
    rw [heq] at hhint
    obtain ⟨hsz, hfree⟩ := mapSpaceDown_hint ha hs hpos hhint
    have hn : size.toNat = 4096 := by rw [hsz, hsize]
    refine ⟨args.addr, hhint, .inr ⟨ha, fun x hx => ?_, ?_⟩, fun _ _ _ => rfl⟩
    · unfold InBytes at hx
      rw [← hfree]
      exact getPage_of_page (by omega)
    · have hlt := args.addr.isLt
      by_cases hlast : args.addr.toNat = 0xFFFFF000
      · exact .inr ⟨rfl, hlast, hn, hfree⟩
      · left
        omega

lemma mmapDone_returns_iff {n : ℕ} (hn : n = pageCeil args.len.toNat) (ha : r.toNat % 4096 = 0)
    (hspace : r.toNat + n ≤ 2 ^ 32) (hfixed : args.flags &&& MAP_FIXED ≠ 0 → r = args.addr)
    (hfree : args.flags &&& MAP_FIXED = 0 → ∀ x, InBytes r.toNat n x → m.getPage x = none)
    (hmaps : Maps m m' r.toNat n (protection args.prot) (args.read files n)) :
    MmapDone m files args (.returns r m') ↔ ∀ i < n, args.read files n i = args.content files i := by
  unfold MmapDone
  rw [← hn]
  constructor
  · rintro ⟨-, -, -, -, hdone⟩
    exact hmaps.content_eq hspace hdone
  · intro hread
    exact ⟨ha, hspace, hfixed, hfree, hmaps.congr hread⟩

lemma mmap_fixed_iff (hfuel : 2 ^ 20 < fuel) (haligned : args.addr.toNat % 4096 = 0)
    (hlen : 0 < args.len.toNat) (hspace : args.addr.toNat + args.len.toNat ≤ 2 ^ 32)
    (hflag : args.flags &&& MAP_FIXED ≠ 0) (hzero : args.addr ≠ 0) :
    (∃ result, (m.Unmap fuel args.addr (RoundUp args.len PageSize)).bind
        (mapRange fuel files args (RoundUp args.len PageSize) args.addr) = some result ∧
      MmapDone m files args result) ↔
      args.addr.toNat + pageCeil args.len.toNat ≤ 0xFFFFF000 ∧
        ∀ i < pageCeil args.len.toNat,
          args.read files (pageCeil args.len.toNat) i = args.content files i := by
  have hnat : args.addr.toNat ≠ 0 := fun hcontra => hzero (BitVec.eq_of_toNat_eq hcontra)
  have hround := toNat_roundUp args.len
  rw [if_pos (by omega)] at hround
  set n := pageCeil args.len.toNat with hn
  have hmod : n % 4096 = 0 ∧ 0 < n ∧ args.addr.toNat + n ≤ 2 ^ 32 := by
    rw [hn]
    unfold pageCeil
    omega
  by_cases hlast : args.addr.toNat + n ≤ 0xFFFFF000
  · obtain ⟨m₁, hm₁, hpages⟩ := @unmap_range _ _ fuel m haligned
      (by omega : (RoundUp args.len PageSize).toNat % 4096 = 0) (by omega) (by omega) hfuel.le
    obtain ⟨m', hm', hmaps⟩ := @mapRange_spec m₁ files args _ _ _ haligned
      (by omega : (RoundUp args.len PageSize).toNat % 4096 = 0) (by omega) (by omega) hfuel
      (fun x hx => (hpages x).1 hx)
    rw [hm₁, Option.bind_some, hm']
    rw [hround] at hmaps hpages
    have hmaps' : Maps m m' args.addr.toNat n (protection args.prot) (args.read files n) :=
      fun x => ⟨(hmaps x).1, fun hx => ((hmaps x).2 hx).trans ((hpages x).2 hx)⟩
    simp only [Option.some.injEq, exists_eq_left', hlast, true_and]
    exact mmapDone_returns_iff hn haligned hmod.2.2 (fun _ => rfl) (fun h => absurd h hflag) hmaps'
  · have hend : args.addr + RoundUp args.len PageSize = 0 := add_eq_zero (by omega)
    rw [unmap_forever hend]
    simp [hlast]

lemma mmap_hint_iff (hfuel : 2 ^ 20 < fuel) (haligned : args.addr.toNat % 4096 = 0)
    (hlen : 0 < args.len.toNat) (hsmall : args.len.toNat ≤ 0xFFFFF000)
    (hflag : args.flags &&& MAP_FIXED = 0) :
    (∃ result, ((findSpace fuel m args.addr (RoundUp args.len PageSize)).bind fun addr =>
        if addr = -1 then some (.error "mmap: Out of guest memory")
        else mapRange fuel files args (RoundUp args.len PageSize) addr m) = some result ∧
      MmapDone m files args result) ↔
      findSpace fuel m args.addr (RoundUp args.len PageSize) = some (-1) ∨
      ¬ (args.addr.toNat = 0xFFFFF000 ∧ pageCeil args.len.toNat = 4096 ∧
        m.getPage args.addr = none) ∧
        ∀ i < pageCeil args.len.toNat,
          args.read files (pageCeil args.len.toNat) i = args.content files i := by
  have hround := toNat_roundUp args.len
  rw [if_pos hsmall] at hround
  set n := pageCeil args.len.toNat with hn
  have hmod : n % 4096 = 0 ∧ 0 < n := by
    rw [hn]
    unfold pageCeil
    omega
  obtain ⟨r, hr, hfound, hhint⟩ := @findSpace_spec m args
    (RoundUp args.len PageSize) _ haligned (by omega) (by omega) hfuel
  rw [hr, Option.bind_some]
  rcases hfound with rfl | ⟨ha, hfree, hends⟩
  · rw [if_pos rfl]
    exact iff_of_true ⟨_, rfl, trivial⟩ (.inl rfl)
  · have hne : r ≠ -1 := by
      rintro rfl
      revert ha
      decide
    have hnot : ¬ some r = some (-1 : Word) := fun heq => hne (Option.some.inj heq)
    rw [if_neg hne, or_iff_right hnot]
    rcases hends with hlast | ⟨hraddr, hlast, hpage, hnone⟩
    · obtain ⟨m', hm', hmaps⟩ := @mapRange_spec m files args _ _ _ ha
        (by omega : (RoundUp args.len PageSize).toNat % 4096 = 0) (by omega) hlast hfuel hfree
      rw [hm']
      rw [hround] at hmaps hfree hlast hhint
      have hin : ¬ (args.addr.toNat = 0xFFFFF000 ∧ n = 4096 ∧ m.getPage args.addr = none) := by
        rintro ⟨haddr, hpage, hnone⟩
        have heq := hhint haddr hpage hnone
        rw [heq] at hlast
        omega
      simp only [Option.some.injEq, exists_eq_left', hin, not_false_eq_true, true_and]
      exact mmapDone_returns_iff hn ha (by omega) (fun h => absurd hflag h) (fun _ => hfree) hmaps
    · have hend : r + RoundUp args.len PageSize = 0 := add_eq_zero (by rw [hraddr]; omega)
      rw [mapRange_forever hend]
      refine iff_of_false (fun hex => ?_) fun hfits => hfits.1 ⟨hlast, by omega, hnone⟩
      obtain ⟨result, hresult, -⟩ := hex
      cases hresult

lemma mmap_huge_iff (hfuel : 2 ^ 20 < fuel) (haddr : args.addr = 0)
    (hhuge : ¬ args.len.toNat ≤ 0xFFFFF000) :
    (∃ result, ((findSpace fuel m args.addr (RoundUp args.len PageSize)).bind fun addr =>
        if addr = -1 then some (.error "mmap: Out of guest memory")
        else mapRange fuel files args (RoundUp args.len PageSize) addr m) = some result ∧
      MmapDone m files args result) ↔
      ∀ x : Word, 4096 ≤ x.toNat → x.toNat < mmap_base_address.toNat + 4096 →
        (m.getPage x).isSome = true := by
  have hround : RoundUp args.len PageSize = 0 := by
    apply BitVec.eq_of_toNat_eq
    rw [toNat_roundUp, if_neg hhuge]
    rfl
  have hdown : ∀ a : Word, a.toNat % 4096 = 0 → m.MapSpaceDown fuel a 0 =
      MapSpaceDown.loop m 0 fuel a a := fun a ha =>
    mapSpaceDown_eq fuel (aligned_of_toNat ha) rfl
  have hfirst : m.MapSpaceDown fuel 0 0 = some (-1) := by
    obtain ⟨k, rfl⟩ := Nat.exists_eq_succ_of_ne_zero (by omega : fuel ≠ 0)
    rw [hdown 0 rfl, MapSpaceDown.loop]
    rfl
  have hspace : findSpace fuel m args.addr (RoundUp args.len PageSize) =
      MapSpaceDown.loop m 0 fuel mmap_base_address mmap_base_address := by
    unfold findSpace
    rw [hround, haddr, hfirst, Option.bind_eq_bind, Option.bind_some, if_pos (.inl rfl),
      hdown _ rfl]
  rw [hspace, ← @mapSpaceDown_loop_empty m mmap_base_address fuel rfl
    (by change 0xb7fb0000 < _; omega)]
  constructor
  · rintro ⟨result, hresult, -⟩
    obtain ⟨r, hr, -⟩ := Option.bind_eq_some_iff.mp hresult
    exact ⟨r, hr⟩
  · rintro ⟨r, hr⟩
    have hminus : r = -1 := mapSpaceDown_empty hr
    rw [hr, Option.bind_some, if_pos hminus]
    exact ⟨_, rfl, trivial⟩

lemma mmap_iff (hfuel : 2 ^ 20 < fuel) (haligned : args.addr.toNat % 4096 = 0)
    (hlen : 0 < args.len.toNat) (hspace : args.addr.toNat + args.len.toNat ≤ 2 ^ 32) :
    (∃ result, syscallMmapAux fuel m files args = some result ∧ MmapDone m files args result) ↔
      MmapFits fuel m files args := by
  unfold syscallMmapAux MmapFits
  by_cases hfd : 0 < args.guest_fd.toInt ∧ (files args.guest_fd).isNone = true
  · rw [if_pos hfd]
    exact iff_of_true ⟨_, rfl, trivial⟩ (.inl hfd)
  rw [if_neg hfd, or_iff_right hfd]
  by_cases hoffset : args.offset.toNat % 4096 = 0
  · have hmask : ¬ args.offset &&& (PageSize - 1) ≠ 0 := not_not.mpr (mask_eq_zero_iff.mpr hoffset)
    have hmask' : ¬ args.addr &&& (PageSize - 1) ≠ 0 := not_not.mpr (mask_eq_zero_iff.mpr haligned)
    rw [if_neg hmask, if_neg hmask', or_iff_right (not_not.mpr hoffset)]
    dsimp only
    by_cases hflag : args.flags &&& MAP_FIXED ≠ 0
    · rw [if_pos hflag, if_pos hflag]
      by_cases hzero : args.addr = 0
      · rw [if_pos hzero]
        exact iff_of_true ⟨_, rfl, trivial⟩ (.inl hzero)
      · rw [if_neg hzero, or_iff_right hzero]
        exact mmap_fixed_iff hfuel haligned hlen hspace hflag hzero
    · rw [if_neg hflag, if_neg hflag]
      by_cases hsmall : args.len.toNat ≤ 0xFFFFF000
      · rw [if_pos hsmall]
        exact mmap_hint_iff hfuel haligned hlen hsmall (not_not.mp hflag)
      · rw [if_neg hsmall]
        have haddr : args.addr = 0 := by
          apply BitVec.eq_of_toNat_eq
          change args.addr.toNat = 0
          omega
        exact mmap_huge_iff hfuel haddr hsmall
  · have hmask : args.offset &&& (PageSize - 1) ≠ 0 := fun h => hoffset (mask_eq_zero_iff.mp h)
    rw [if_pos hmask]
    exact iff_of_true ⟨_, rfl, trivial⟩ (.inl hoffset)

end Mmap

def MunmapDone (m : Memory) (addr size : Word) : Result → Prop
  | .error _ => True
  | .returns r m' => r = 0 ∧ ∀ x,
    (InBytes addr.toNat (pageCeil size.toNat) x → m'.getPage x = none) ∧
      (¬ InBytes addr.toNat (pageCeil size.toNat) x → m'.getPage x = m.getPage x)

lemma munmap_iff {m : Memory} {addr size : Word} {fuel : ℕ} (hfuel : 2 ^ 20 < fuel)
    (haligned : addr.toNat % 4096 = 0) (hlen : 0 < size.toNat)
    (hspace : addr.toNat + size.toNat ≤ 2 ^ 32) :
    (∃ result, executeSyscall_munmap fuel m addr size = some result ∧
      MunmapDone m addr size result) ↔
      addr.toNat + pageCeil size.toNat ≤ 0xFFFFF000 := by
  have hmask : ¬ addr &&& (PageSize - 1) ≠ 0 := not_not.mpr (mask_eq_zero_iff.mpr haligned)
  unfold executeSyscall_munmap
  rw [if_neg hmask]
  have hround := toNat_roundUp size
  have hceil : pageCeil size.toNat % 4096 = 0 ∧ size.toNat ≤ pageCeil size.toNat ∧
      addr.toNat + pageCeil size.toNat ≤ 2 ^ 32 := by
    unfold pageCeil
    omega
  by_cases hlast : addr.toNat + pageCeil size.toNat ≤ 0xFFFFF000
  · rw [if_pos (by omega)] at hround
    obtain ⟨m', hm', hpages⟩ := @unmap_range _ _ fuel m haligned
      (by omega : (RoundUp size PageSize).toNat % 4096 = 0) (by omega) (by omega) hfuel.le
    rw [hround] at hpages
    rw [hm', Option.map_some]
    exact iff_of_true ⟨_, rfl, rfl, hpages⟩ hlast
  · have hend : addr + RoundUp size PageSize = 0 := by
      apply BitVec.eq_of_toNat_eq
      rw [BitVec.toNat_add, hround]
      change _ = 0
      split <;> omega
    rw [unmap_forever hend, Option.map_none]
    refine iff_of_false (fun hex => ?_) hlast
    obtain ⟨result, hresult, -⟩ := hex
    cases hresult

end OISA.X86.AddressSpace
