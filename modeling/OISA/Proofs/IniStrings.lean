import OISA.Cpp.IniFile

/-!
# Spaces, lines and tokens

The strings that `lib/cpp/String.cc` leaves as they are: without spaces at their ends, or with
single spaces only.
-/

namespace OISA.Cpp

variable {s t a : List UInt8} {c : UInt8}

theorem singleSpaces_unstarted (was : Bool) (s : List UInt8) :
    singleSpaces was false s = singleSpaces false false s := by
  cases s <;> simp [singleSpaces]

theorem singleSpaces_idem (was started : Bool) (s : List UInt8) :
    singleSpaces was started (singleSpaces was started s) = singleSpaces was started s := by
  induction s generalizing was started with
  | nil => rfl
  | cons c s ih =>
    by_cases hc : isSpace c
    · cases started
      · simp only [singleSpaces, hc, if_true, Bool.and_false, Bool.false_eq_true, if_false]
        rw [singleSpaces_unstarted was, ← singleSpaces_unstarted true, ih]
      · cases was
        · have h32 : isSpace 32 = true := by decide
          simp [singleSpaces, hc, h32, ih]
        · simp [singleSpaces, hc, ih]
    · simp [singleSpaces, hc, ih]

theorem singleSpaces_char {was started : Bool} {s : List UInt8}
    (h : c ∈ singleSpaces was started s) : c = 32 ∨ isSpace c = false := by
  induction s generalizing was started with
  | nil => simp [singleSpaces] at h
  | cons d s ih =>
    rw [singleSpaces] at h
    split at h
    · split at h
      · rcases List.mem_cons.mp h with rfl | h
        · exact .inl rfl
        · exact ih h
      · exact ih h
    · next hd =>
      rcases List.mem_cons.mp h with rfl | h
      · exact .inr (by simpa using hd)
      · exact ih h

theorem singleSpaces_spaces (h : ∀ c ∈ t, isSpace c) : singleSpaces true true t = [] := by
  induction t with
  | nil => rfl
  | cons c t ih =>
    simp only [List.forall_mem_cons] at h
    simp [singleSpaces, h.1, ih h.2]

/-- Spaces at the end become one space. -/
theorem singleSpaces_append_spaces (was started : Bool) (hc : isSpace c = false)
    (ht : ∀ c ∈ t, isSpace c) : singleSpaces was started (a ++ c :: t) =
      singleSpaces was started (a ++ [c]) ++ (if t = [] then [] else [32]) := by
  induction a generalizing was started with
  | nil =>
    cases t with
    | nil => simp
    | cons d t =>
      simp only [List.forall_mem_cons] at ht
      simp [singleSpaces, hc, ht.1, singleSpaces_spaces ht.2]
  | cons d a ih =>
    simp only [List.cons_append, singleSpaces]
    split
    · split
      · rw [ih, List.cons_append]
      · exact ih _ _
    · rw [ih, List.cons_append]

theorem singleSpaces_concat (was started : Bool) (a : List UInt8) (hc : isSpace c = false) :
    ∃ b, singleSpaces was started (a ++ [c]) = b ++ [c] := by
  induction a generalizing was started with
  | nil => exact ⟨[], by simp [singleSpaces, hc]⟩
  | cons d a ih =>
    simp only [List.cons_append, singleSpaces]
    split
    · obtain ⟨b, hb⟩ := ih true started
      split
      · exact ⟨32 :: b, by rw [hb]; rfl⟩
      · exact ⟨b, hb⟩
    · obtain ⟨b, hb⟩ := ih false true
      exact ⟨d :: b, by rw [hb]; rfl⟩

/-- No spaces, or text that ends in one that is none, before spaces -/
theorem spaces_or_concat (s : List UInt8) : (∀ c ∈ s, isSpace c) ∨
    ∃ a c t, s = a ++ c :: t ∧ isSpace c = false ∧ ∀ c ∈ t, isSpace c := by
  induction s using List.reverseRecOn with
  | nil => simp
  | append_singleton s d ih =>
    by_cases hd : isSpace d
    · rcases ih with h | ⟨a, c, t, rfl, hc, ht⟩
      · refine .inl fun c hc => ?_
        rcases List.mem_append.mp hc with hc | hc
        · exact h c hc
        · rwa [List.mem_singleton.mp hc]
      · refine .inr ⟨a, c, t ++ [d], by simp, hc, fun c hc => ?_⟩
        rcases List.mem_append.mp hc with hc | hc
        · exact ht c hc
        · rwa [List.mem_singleton.mp hc]
    · exact .inr ⟨s, d, [], rfl, by simpa using hd, by simp⟩

def Single (s : List UInt8) : Prop :=
  singleSpaces false false s = s ∧ (s = [] ∨ ∃ b c, s = b ++ [c] ∧ isSpace c = false)

theorem singleSpaces_all (h : ∀ c ∈ s, isSpace c) : singleSpaces false false s = [] := by
  induction s with
  | nil => rfl
  | cons c s ih =>
    simp only [List.forall_mem_cons] at h
    simp [singleSpaces, h.1, singleSpaces_unstarted true, ih h.2]

theorem StringSingleSpaces_concat (hc : isSpace c = false) (ht : ∀ c ∈ t, isSpace c) :
    StringSingleSpaces (a ++ c :: t) = singleSpaces false false (a ++ [c]) := by
  obtain ⟨b, hb⟩ := singleSpaces_concat false false a hc
  simp only [StringSingleSpaces, singleSpaces_append_spaces false false hc ht]
  cases t using List.reverseRecOn with
  | nil => simp [hc]
  | append_singleton t d =>
    have hd : isSpace d := ht d (by simp)
    have hlast : (a ++ c :: (t ++ [d])).getLast?.any isSpace = true := by
      rw [← List.cons_append, ← List.append_assoc, List.getLast?_concat]
      exact hd
    rw [if_pos ⟨by simp, hlast⟩]
    simp

theorem single_StringSingleSpaces (s : List UInt8) : Single (StringSingleSpaces s) := by
  rcases spaces_or_concat s with h | ⟨a, c, t, rfl, hc, ht⟩
  · exact ⟨by simp [StringSingleSpaces, singleSpaces_all h, singleSpaces],
      .inl (by simp [StringSingleSpaces, singleSpaces_all h])⟩
  · rw [StringSingleSpaces_concat hc ht]
    obtain ⟨b, hb⟩ := singleSpaces_concat false false a hc
    exact ⟨singleSpaces_idem .., .inr ⟨b, c, hb, hc⟩⟩

theorem Single.eq (h : Single s) : StringSingleSpaces s = s := by
  obtain ⟨hs, rfl | ⟨b, c, rfl, hc⟩⟩ := h
  · rfl
  · rw [StringSingleSpaces_concat hc (by simp), hs]

theorem Single.padded (h : Single s) : StringSingleSpaces (32 :: s ++ [32]) = s := by
  have h32 : isSpace 32 = true := by decide
  obtain ⟨hs, rfl | ⟨b, c, rfl, hc⟩⟩ := h
  · decide
  · have hpad : 32 :: (b ++ [c]) ++ [32] = (32 :: b) ++ c :: [32] := by simp
    rw [hpad, StringSingleSpaces_concat hc (by simp [h32])]
    simp only [List.cons_append, singleSpaces, h32, if_true, Bool.and_false, Bool.false_eq_true,
      if_false, singleSpaces_unstarted true, hs]

theorem Single.newline (h : Single s) : 10 ∉ s := by
  intro hm
  rw [← h.1] at hm
  rcases singleSpaces_char hm with h | h
  · exact absurd h (by decide)
  · exact absurd h (by decide)

def Trimmed (s : List UInt8) : Prop :=
  (∀ c ∈ s.head?, isSpace c = false) ∧ ∀ c ∈ s.getLast?, isSpace c = false

theorem StringTrimLeft_eq (h : ∀ c ∈ s.head?, isSpace c = false) : StringTrimLeft s = s := by
  cases s with
  | nil => rfl
  | cons c s => simp [StringTrimLeft, h c rfl]

theorem StringTrimRight_eq (h : ∀ c ∈ s.getLast?, isSpace c = false) : StringTrimRight s = s := by
  cases s using List.reverseRecOn with
  | nil => rfl
  | append_singleton s c => simp [StringTrimRight, h c (by simp)]

theorem Trimmed.eq (h : Trimmed s) : StringTrim s = s := by
  rw [StringTrim, StringTrimLeft_eq h.1, StringTrimRight_eq h.2]

theorem StringTrimRight_concat (hc : isSpace c = false) (ht : ∀ c ∈ t, isSpace c) :
    StringTrimRight (a ++ c :: t) = a ++ [c] := by
  induction t using List.reverseRecOn with
  | nil => simp [StringTrimRight, hc]
  | append_singleton t d ih =>
    have hd : isSpace d := ht d (by simp)
    rw [← List.cons_append, ← List.append_assoc, StringTrimRight,
      List.rdropWhile_concat_pos _ _ _ hd]
    exact ih fun c hc => ht c (by simp [hc])

theorem trimmed_StringTrim (s : List UInt8) : Trimmed (StringTrim s) := by
  have hhead : ∀ c ∈ (StringTrimLeft s).head?, isSpace c = false := by
    intro c hc
    have h := List.head?_dropWhile_not isSpace s
    rw [StringTrimLeft, Option.mem_def] at hc
    rwa [hc] at h
  rw [StringTrim]
  rcases spaces_or_concat (StringTrimLeft s) with h | ⟨a, c, t, hs, hc, ht⟩
  · cases hs : StringTrimLeft s with
    | nil => simp [StringTrimRight, Trimmed]
    | cons c t =>
      rw [hs] at h hhead
      have hc : isSpace c = true := h c (by simp)
      rw [hhead c rfl] at hc
      cases hc
  · rw [hs] at hhead ⊢
    rw [StringTrimRight_concat hc ht]
    refine ⟨fun d hd => hhead d ?_, by simp [hc]⟩
    cases a with
    | nil => simpa using hd
    | cons e a => simpa using hd

/-- Trimming keeps the first character, if it is not a space. -/
theorem head?_StringTrim (hc : isSpace c = false) (s : List UInt8) :
    (StringTrim (c :: s)).head? = some c := by
  rw [StringTrim, StringTrimLeft_eq (by simp [hc])]
  rcases spaces_or_concat (c :: s) with h | ⟨a, d, t, hs, hd, ht⟩
  · have h := h c (by simp)
    rw [hc] at h
    cases h
  · rw [hs, StringTrimRight_concat hd ht]
    cases a with
    | nil => exact (congrArg List.head? hs).symm
    | cons e a => exact (congrArg List.head? hs).symm

/-- Trimming keeps the last character, if it is not a space. -/
theorem getLast?_StringTrim (hc : isSpace c = false) (s : List UInt8) :
    (StringTrim (s ++ [c])).getLast? = some c := by
  have hleft : ∃ t, StringTrimLeft (s ++ [c]) = t ++ [c] := by
    induction s with
    | nil => exact ⟨[], by simp [StringTrimLeft, hc]⟩
    | cons d s ih =>
      by_cases hd : isSpace d
      · simpa [StringTrimLeft, hd] using ih
      · exact ⟨d :: s, by simp [StringTrimLeft, hd]⟩
  obtain ⟨t, ht⟩ := hleft
  rw [StringTrim, ht, StringTrimRight_eq (by simp [hc])]
  simp

theorem StringTrim_cons_space (s : List UInt8) : StringTrim (32 :: s) = StringTrim s := by
  have h32 : isSpace 32 = true := by decide
  simp [StringTrim, StringTrimLeft, h32]

theorem Trimmed.append_space (h : Trimmed s) : StringTrim (s ++ [32]) = s := by
  have h32 : isSpace 32 = true := by decide
  cases s with
  | nil => decide
  | cons c s =>
    have hc : isSpace c = false := h.1 c rfl
    rw [StringTrim, StringTrimLeft_eq (by simp [hc]), StringTrimRight,
      List.rdropWhile_concat_pos _ _ _ h32]
    exact StringTrimRight_eq h.2

theorem mem_of_mem_trim (h : c ∈ StringTrim s) : c ∈ s :=
  (List.dropWhile_suffix _).subset ((List.rdropWhile_prefix _ _).subset h)

/-- A line is read from the text that starts with it. -/
theorem getlines_append (h : 10 ∉ s) (t : List UInt8) :
    getlines (s ++ 10 :: t) = s :: getlines t := by
  induction s with
  | nil => simp [getlines]
  | cons c s ih =>
    simp only [List.mem_cons, not_or] at h
    have hc : c ≠ 10 := fun hc => h.1 hc.symm
    simp [getlines, hc, ih h.2]

theorem newline_not_mem_of_mem_getlines {line : List UInt8} (h : line ∈ getlines s) :
    10 ∉ line := by
  induction s generalizing line with
  | nil => simp [getlines] at h
  | cons c s ih =>
    rw [getlines] at h
    split at h
    · rcases List.mem_cons.mp h with rfl | h
      · simp
      · exact ih h
    · next hc =>
      have hc : 10 ≠ c := fun h => hc h.symm
      split at h
      · rw [List.mem_singleton.mp h]
        simp [hc]
      · next l ls hl =>
        rcases List.mem_cons.mp h with rfl | h
        · simp [hc, ih (hl ▸ List.mem_cons_self)]
        · exact ih (hl ▸ List.mem_cons_of_mem _ h)

theorem tokenize_open {sep : UInt8} (token : List UInt8) (h : sep ∉ s) (ht : s ≠ [] ∨ token ≠ []) :
    tokenize sep token s = [token ++ s] := by
  induction s generalizing token with
  | nil => simpa [tokenize] using ht
  | cons c s ih =>
    simp only [List.mem_cons, not_or] at h
    have hc : c ≠ sep := fun hc => h.1 hc.symm
    simp [tokenize, hc, ih (token ++ [c]) h.2 (.inr (by simp))]

theorem tokenize_append {sep : UInt8} (token : List UInt8) (h : sep ∉ s)
    (hne : s ≠ [] ∨ token ≠ []) (t : List UInt8) :
    tokenize sep token (s ++ sep :: t) = (token ++ s) :: tokenize sep [] t := by
  induction s generalizing token with
  | nil =>
    have hne : token ≠ [] := by simpa using hne
    simp [tokenize, hne]
  | cons c s ih =>
    simp only [List.mem_cons, not_or] at h
    have hc : c ≠ sep := fun hc => h.1 hc.symm
    simp [tokenize, hc, ih (token ++ [c]) h.2 (.inr (by simp))]

theorem mem_of_mem_tokenize {sep : UInt8} {token x : List UInt8} (hx : x ∈ tokenize sep token s)
    (hc : c ∈ x) : c ∈ token ∨ c ∈ s ∧ c ≠ sep := by
  induction s generalizing token with
  | nil =>
    rw [tokenize] at hx
    split at hx
    · cases hx
    · rw [List.mem_singleton] at hx
      exact .inl (hx ▸ hc)
  | cons d s ih =>
    have hrest : ∀ token, x ∈ tokenize sep token s → c ∈ token ∨ c ∈ d :: s ∧ c ≠ sep :=
      fun token hx => (ih hx).imp_right fun h => ⟨List.mem_cons_of_mem _ h.1, h.2⟩
    rw [tokenize] at hx
    split at hx
    · split at hx
      · exact (hrest [] hx).imp_left (absurd · List.not_mem_nil)
      · rcases List.mem_cons.mp hx with rfl | hx
        · exact .inl hc
        · exact (hrest [] hx).imp_left (absurd · List.not_mem_nil)
    · next hd =>
      rcases hrest _ hx with h | h
      · rcases List.mem_append.mp h with h | h
        · exact .inl h
        · rw [List.mem_singleton.mp h]
          exact .inr ⟨List.mem_cons_self, hd⟩
      · exact .inr h

/-- Two strings without the separator are the tokens of what they are joined to. -/
theorem StringTokenize_pair {sep : UInt8} (hs : sep ∉ s) (ht : sep ∉ t) (hs0 : s ≠ [])
    (ht0 : t ≠ []) : StringTokenize (s ++ sep :: t) sep = [s, t] := by
  rw [StringTokenize, tokenize_append _ hs (.inl hs0), tokenize_open _ ht (.inl ht0)]
  rfl

end OISA.Cpp
