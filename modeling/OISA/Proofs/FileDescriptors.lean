import OISA.Lib.Runs
import OISA.X86.FileTable

/-!
# File descriptors

A table is a partial map from guest indices to descriptors, each of them stored under its own
guest index.
-/

namespace OISA.X86.FileTable

def entry (t : FileTable) (index : ℤ) : Option FileDescriptor :=
  if 0 ≤ index then t.descriptors[index.toNat]?.join else none

lemma entry_natCast (t : FileTable) (i : ℕ) : t.entry i = t.descriptors[i]?.join := by
  rw [entry, if_pos (Int.natCast_nonneg i), Int.toNat_natCast]

lemma entry_of_neg {t : FileTable} {index : ℤ} (h : index < 0) : t.entry index = none :=
  if_neg (not_le.mpr h)

lemma entry_of_size_le {t : FileTable} {index : ℤ} (h : t.size ≤ index) :
    t.entry index = none := by
  have hlen : t.descriptors.length ≤ index.toNat := by
    unfold size at h
    omega
  rw [entry, List.getElem?_eq_none hlen]
  split <;> rfl

lemma lt_size_of_entry {t : FileTable} {index : ℤ} {desc : FileDescriptor}
    (h : t.entry index = some desc) : 0 ≤ index ∧ index < t.size := by
  constructor
  · by_contra hneg
    rw [entry_of_neg (not_le.mp hneg)] at h
    cases h
  · by_contra hsize
    rw [entry_of_size_le (not_lt.mp hsize)] at h
    cases h

theorem getFileDescriptor_eq (t : FileTable) (index : ℤ) :
    t.getFileDescriptor index = t.entry index := by
  unfold getFileDescriptor inRange
  by_cases h : 0 ≤ index ∧ index ≤ t.size - 1
  · rw [decide_eq_true h, if_pos rfl, entry, if_pos h.1]
  · rw [decide_eq_false h, if_neg Bool.false_ne_true]
    by_cases hneg : index < 0
    · exact (entry_of_neg hneg).symm
    · exact (entry_of_size_le (by omega)).symm

/-- What `getHostIndex` is for: the host index of the entry, read inside the table. -/
def HostIndexRight (t : FileTable) (index : ℤ) : Prop :=
  t.getHostIndex index = some ((t.entry index).elim (-1) (·.host_index))

lemma hostIndexRight_iff (t : FileTable) (index : ℤ) :
    t.HostIndexRight index ↔ index ≠ t.size := by
  unfold HostIndexRight getHostIndex inRange
  by_cases h : 0 ≤ index ∧ index ≤ t.size
  · obtain ⟨i, rfl⟩ := Int.eq_ofNat_of_zero_le h.1
    rw [decide_eq_true h, if_neg (by decide), entry_natCast, Int.toNat_natCast]
    cases hget : t.descriptors[i]? with
    | none =>
      have hlen := List.getElem?_eq_none_iff.mp hget
      have hsize : (i : ℤ) = t.size := by
        have := h.2
        unfold size at this ⊢
        omega
      simp [hsize]
    | some desc =>
      have hlen := (List.getElem?_eq_some_iff.mp hget).1
      have hsize : (i : ℤ) ≠ t.size := by
        unfold size
        omega
      cases desc <;> simp [hsize]
  · have hne : index ≠ t.size := by
      rintro rfl
      exact h ⟨Int.natCast_nonneg _, le_rfl⟩
    have hentry : t.entry index = none := by
      by_cases hneg : index < 0
      · exact entry_of_neg hneg
      · exact entry_of_size_le (by omega)
    rw [decide_eq_false h, if_pos (by decide), hentry]
    exact iff_of_true rfl hne

def guestIndices (t : FileTable) (host_index : ℤ) : Set ℤ :=
  {index | ∃ desc, t.entry index = some desc ∧ desc.host_index = host_index}

/-- The smallest guest index of a host index, or -1 where there is none. -/
def GuestIndexRight (t : FileTable) (host_index : ℤ) : Prop :=
  IsLeast (t.guestIndices host_index) (t.getGuestIndex host_index) ∨
    t.guestIndices host_index = ∅ ∧ t.getGuestIndex host_index = -1

lemma mem_guestIndices_natCast {t : FileTable} {host_index : ℤ} {i : ℕ} :
    (i : ℤ) ∈ t.guestIndices host_index ↔
      ∃ h : i < t.descriptors.length,
        t.descriptors[i].any (·.host_index == host_index) = true := by
  unfold guestIndices
  rw [Set.mem_ofPred_eq, entry_natCast]
  by_cases h : i < t.descriptors.length
  · rw [List.getElem?_eq_getElem h, Option.join_some]
    cases hdesc : t.descriptors[i] with
    | none => simp [hdesc]
    | some desc => simp [h, hdesc]
  · rw [List.getElem?_eq_none (not_lt.mp h)]
    simp [h]

theorem guestIndexRight (t : FileTable) (host_index : ℤ) : t.GuestIndexRight host_index := by
  have hnonneg : ∀ index ∈ t.guestIndices host_index, ∃ i : ℕ, index = i := by
    rintro index ⟨desc, hdesc, -⟩
    exact Int.eq_ofNat_of_zero_le (lt_size_of_entry hdesc).1
  unfold GuestIndexRight getGuestIndex
  cases hfind : t.descriptors.findIdx? (·.any (·.host_index == host_index)) with
  | none =>
    refine .inr ⟨?_, rfl⟩
    rw [Set.eq_empty_iff_forall_notMem]
    intro index hmem
    obtain ⟨i, rfl⟩ := hnonneg index hmem
    obtain ⟨hi, hhost⟩ := mem_guestIndices_natCast.mp hmem
    have hnone := List.findIdx?_eq_none_iff.mp hfind _ (List.getElem_mem hi)
    rw [hhost] at hnone
    cases hnone
  | some k =>
    obtain ⟨hk, hhost, hbefore⟩ := List.findIdx?_eq_some_iff_getElem.mp hfind
    refine .inl ⟨mem_guestIndices_natCast.mpr ⟨hk, hhost⟩, ?_⟩
    intro index hmem
    obtain ⟨i, rfl⟩ := hnonneg index hmem
    obtain ⟨hi, hhost'⟩ := mem_guestIndices_natCast.mp hmem
    by_contra hlt
    have hik : i < k := by
      change ¬(k : ℤ) ≤ i at hlt
      omega
    exact hbefore i hik hhost'

def freeIndices (t : FileTable) : Set ℤ := {index | 0 ≤ index ∧ t.entry index = none}

/-- `newFileDescriptor` stores the entry that it returns at the index asked for, or at the
smallest free one, and changes no other entry. -/
def NewRight (t : FileTable) (type : FileDescriptorType) (guest_index host_index : ℤ)
    (path : String) (flags : ℤ) : Prop :=
  ∀ desc t', t.newFileDescriptor type guest_index host_index path flags = some (desc, t') →
    (if guest_index < 0 then IsLeast t.freeIndices desc.guest_index
      else desc.guest_index = guest_index) ∧
    desc = ⟨type, desc.guest_index, host_index, flags, path⟩ ∧
    t'.entry = Function.update t.entry desc.guest_index (some desc)

def FreeRight (t : FileTable) (index : ℤ) : Prop :=
  (t.freeFileDescriptor index).1.entry = Function.update t.entry index none

def CallRight (t : FileTable) : Call → Prop
  | .new type guest_index host_index path flags =>
    t.NewRight type guest_index host_index path flags
  | .free index => t.FreeRight index

lemma mem_freeIndices_natCast {t : FileTable} {i : ℕ} :
    (i : ℤ) ∈ t.freeIndices ↔
      ∀ h : i < t.descriptors.length, t.descriptors[i].isNone = true := by
  unfold freeIndices
  rw [Set.mem_ofPred_eq, entry_natCast, and_iff_right (Int.natCast_nonneg i)]
  by_cases h : i < t.descriptors.length
  · rw [List.getElem?_eq_getElem h, Option.join_some]
    simp [h]
  · rw [List.getElem?_eq_none (not_lt.mp h)]
    simp [h]

def newIndex (t : FileTable) (guest_index : ℤ) : ℤ :=
  if guest_index < 0 then
    (t.descriptors.findIdx? (·.isNone)).elim t.size (↑·)
  else guest_index

lemma newIndex_nonneg (t : FileTable) (guest_index : ℤ) : 0 ≤ t.newIndex guest_index := by
  unfold newIndex size
  split
  · cases t.descriptors.findIdx? (·.isNone) with
    | none => exact Int.natCast_nonneg _
    | some i => exact Int.natCast_nonneg i
  · omega

lemma isLeast_newIndex {t : FileTable} {guest_index : ℤ} (h : guest_index < 0) :
    IsLeast t.freeIndices (t.newIndex guest_index) := by
  rw [newIndex, if_pos h]
  have hnat : ∀ index ∈ t.freeIndices, ∃ i : ℕ, index = i :=
    fun index hmem => Int.eq_ofNat_of_zero_le hmem.1
  cases hfind : t.descriptors.findIdx? (·.isNone) with
  | none =>
    have hused := List.findIdx?_eq_none_iff.mp hfind
    refine ⟨mem_freeIndices_natCast.mpr fun hlt => absurd hlt (lt_irrefl _), ?_⟩
    intro index hmem
    obtain ⟨i, rfl⟩ := hnat index hmem
    by_contra hlt
    have hi : i < t.descriptors.length := by
      change ¬(t.descriptors.length : ℤ) ≤ i at hlt
      omega
    have hfree := mem_freeIndices_natCast.mp hmem hi
    rw [hused _ (List.getElem_mem hi)] at hfree
    cases hfree
  | some k =>
    obtain ⟨hk, hfree, hbefore⟩ := List.findIdx?_eq_some_iff_getElem.mp hfind
    refine ⟨mem_freeIndices_natCast.mpr fun _ => hfree, ?_⟩
    intro index hmem
    obtain ⟨i, rfl⟩ := hnat index hmem
    by_contra hlt
    have hik : i < k := by
      change ¬(k : ℤ) ≤ i at hlt
      omega
    exact hbefore i hik (mem_freeIndices_natCast.mp hmem (hik.trans hk))

lemma entry_append_holes (t : FileTable) (n : ℕ) :
    entry ⟨t.descriptors ++ List.replicate n none⟩ = t.entry := by
  funext index
  unfold entry
  split
  · by_cases h : index.toNat < t.descriptors.length
    · rw [List.getElem?_append_left h]
    · rw [List.getElem?_append_right (not_lt.mp h), List.getElem?_eq_none (not_lt.mp h),
        List.getElem?_replicate]
      split <;> rfl
  · rfl

lemma entry_set {descriptors : List (Option FileDescriptor)} {i : ℕ}
    (h : i < descriptors.length) (desc : Option FileDescriptor) :
    entry ⟨descriptors.set i desc⟩ = Function.update (entry ⟨descriptors⟩) i desc := by
  funext index
  by_cases hi : index = i
  · subst hi
    rw [Function.update_self, entry_natCast, List.getElem?_set_self h, Option.join_some]
  · rw [Function.update_of_ne hi]
    unfold entry
    split
    · rw [List.getElem?_set_ne (by omega)]
    · rfl

lemma newFileDescriptor_eq (t : FileTable) (type : FileDescriptorType)
    (guest_index host_index : ℤ) (path : String) (flags : ℤ) :
    t.newFileDescriptor type guest_index host_index path flags =
      if INT_MAX ≤ t.newIndex guest_index then none
      else
        let desc : FileDescriptor :=
          ⟨type, t.newIndex guest_index, host_index, flags, path⟩
        some (desc, ⟨(t.descriptors ++ List.replicate
          ((t.newIndex guest_index).toNat + 1 - t.descriptors.length) none).set
            (t.newIndex guest_index).toNat (some desc)⟩) := by
  unfold newFileDescriptor newIndex
  by_cases hneg : guest_index < 0
  · cases hfind : t.descriptors.findIdx? (·.isNone) with
    | none =>
      simp only [if_pos hneg, Option.elim_none, size, Int.toNat_natCast, List.length_append,
        List.length_singleton, Nat.sub_self, List.replicate_zero, List.append_nil,
        Nat.add_sub_cancel_left, List.replicate_one]
    | some k =>
      have hk : ¬((k : ℤ) < 0) := by omega
      simp only [if_pos hneg, Option.elim_some, if_neg hk]
  · simp only [if_neg hneg]

theorem newRight (t : FileTable) (type : FileDescriptorType) (guest_index host_index : ℤ)
    (path : String) (flags : ℤ) : t.NewRight type guest_index host_index path flags := by
  intro desc t' hnew
  rw [newFileDescriptor_eq] at hnew
  split at hnew
  · cases hnew
  · obtain ⟨rfl, rfl⟩ := Prod.mk.inj (Option.some.inj hnew)
    refine ⟨?_, rfl, ?_⟩
    · split
      · exact isLeast_newIndex ‹_›
      · exact if_neg ‹_›
    · obtain ⟨i, hi⟩ := Int.eq_ofNat_of_zero_le (t.newIndex_nonneg guest_index)
      rw [hi, Int.toNat_natCast, entry_set, entry_append_holes]
      rw [List.length_append, List.length_replicate]
      omega

theorem freeRight (t : FileTable) (index : ℤ) : t.FreeRight index := by
  have hsame : t.entry index = none → t.entry = Function.update t.entry index none := by
    intro hnone
    rw [← hnone, Function.update_eq_self]
  unfold FreeRight freeFileDescriptor inRange
  by_cases h : 0 ≤ index ∧ index ≤ t.size - 1
  · obtain ⟨i, rfl⟩ := Int.eq_ofNat_of_zero_le h.1
    have hi : i < t.descriptors.length := by
      have := h.2
      unfold size at this
      omega
    rw [decide_eq_true h, if_neg (by decide), Int.toNat_natCast, ← entry_natCast]
    cases hentry : t.entry i with
    | none => exact hsame hentry
    | some desc => exact entry_set hi none
  · rw [decide_eq_false h, if_pos (by decide)]
    refine hsame ?_
    by_cases hneg : index < 0
    · exact entry_of_neg hneg
    · exact entry_of_size_le (by omega)

/-- Every entry is stored at its own guest index. -/
def Positioned (t : FileTable) : Prop :=
  ∀ index desc, t.entry index = some desc → desc.guest_index = index

lemma init_positioned : init.Positioned := by
  intro index desc hentry
  obtain ⟨h0, hlt⟩ := lt_size_of_entry hentry
  obtain ⟨i, rfl⟩ := Int.eq_ofNat_of_zero_le h0
  have hi : i < 3 := by
    change (i : ℤ) < 3 at hlt
    omega
  rw [entry_natCast] at hentry
  interval_cases i <;>
    · obtain rfl := Option.some.inj hentry
      rfl

lemma Positioned.update {t t' : FileTable} {index : ℤ} {desc : Option FileDescriptor}
    (h : t.Positioned) (hentry : t'.entry = Function.update t.entry index desc)
    (hdesc : ∀ d, desc = some d → d.guest_index = index) : t'.Positioned := by
  intro i d hd
  rw [hentry] at hd
  by_cases hi : i = index
  · subst hi
    rw [Function.update_self] at hd
    exact hdesc d hd
  · rw [Function.update_of_ne hi] at hd
    exact h i d hd

theorem Positioned.call {t t' : FileTable} (h : t.Positioned) (c : Call)
    (hcall : FileTable.call c t = some t') : t'.Positioned := by
  cases c with
  | new type guest_index host_index path flags =>
    obtain ⟨⟨desc, t₁⟩, hnew, rfl⟩ := Option.map_eq_some_iff.mp hcall
    obtain ⟨-, -, hentry⟩ := t.newRight type guest_index host_index path flags desc t₁ hnew
    refine h.update hentry ?_
    rintro d ⟨⟩
    rfl
  | free index =>
    obtain rfl := Option.some.inj hcall
    exact h.update (t.freeRight index) (fun d hd => nomatch hd)

/-- After any calls the table is right in everything but the host index right after its last
entry, which is read from outside the table. -/
theorem file_table_iff {calls : List Call} {t : FileTable} (hrun : Lib.run call calls init = some t)
    (c : Call) (index host_index : ℤ) :
    t.Positioned ∧ t.CallRight c ∧ t.HostIndexRight index ∧ t.GuestIndexRight host_index ↔
      index ≠ t.size := by
  have hpositioned : t.Positioned :=
    Lib.run_invariant (fun c t t' h _ => Positioned.call h c) init_positioned
      (Lib.along_of_forall (fun _ _ => trivial) calls init) hrun
  have hcall : t.CallRight c := by
    cases c with
    | new type guest_index host_index path flags =>
      exact t.newRight type guest_index host_index path flags
    | free index => exact t.freeRight index
  rw [and_iff_right hpositioned, and_iff_right hcall,
    and_iff_left (t.guestIndexRight host_index), hostIndexRight_iff]

theorem file_table_reused :
    let t : FileTable := ⟨[some ⟨.standard, 0, 0, 0, ""⟩, some ⟨.regular, 1, 7, 0, "a"⟩,
      some ⟨.standard, 2, 2, 0, ""⟩]⟩
    t.Positioned ∧ t.CallRight (.free 2) ∧ t.HostIndexRight 1 ∧ t.GuestIndexRight 7 ↔
      (1 : ℤ) ≠ t.size :=
  file_table_iff (show Lib.run call [.free 1, .new .regular (-1) 7 "a" 0] init = _ from rfl)
    (.free 2) 1 7

/-- The three standard descriptors are open, and the host index of the fourth is asked for. -/
theorem getHostIndex_at_size : ¬ init.HostIndexRight 3 := by
  rw [hostIndexRight_iff]
  exact fun h => h rfl

end OISA.X86.FileTable
