import OISA.Proofs.IniRecords

/-!
# Dumped INI files

A file that was parsed is dumped, and the dump is parsed.
-/

namespace OISA.Cpp.IniFile

open Record

variable {file file' : IniFile} {s t sec var value line text : List UInt8}
  {lines : List (List UInt8)} {n : ℕ}

/-- Every variable and section of the text is found again in its item: no `|` in a variable or its
section, other names of one or two parts, and what a section shows are its variables and comments.
-/
structure Splits (text : List UInt8) : Prop where
  plain : ∀ sec var value, .entry sec var value ∈ records [] (getlines text) →
    124 ∉ sec ∧ 124 ∉ var
  parts : ∀ name, .header name ∈ records [] (getlines text) → (ItemToSectionVar name).isSome
  apart : ∀ name, .header name ∈ records [] (getlines text) →
    ∀ r ∈ records [] (getlines text), ∀ p ∈ ItemToSectionVar r.item.1,
      inSection name r.item.1 p.1 → (∃ var value, r = .entry name var value) ∨
        readLine (entryLine (p.2, r.item.2)) = .skip

theorem Splits.isSome (hc : Splits text) (hgood : ∀ r ∈ records [] (getlines text), r.Good)
    {r : Record} (hr : r ∈ records [] (getlines text)) : (ItemToSectionVar r.item.1).isSome := by
  cases r with
  | header name => exact hc.parts name hr
  | entry name var value =>
    obtain ⟨-, h0, he⟩ := hgood _ hr
    obtain ⟨hs, hv⟩ := hc.plain _ _ _ hr
    rw [item, ItemToSectionVar_entry hs hv h0 he.var_ne]
    rfl

/-- A record has lines in its own section, and comments in the others. -/
theorem Splits.recordLines (hc : Splits text)
    (hgood : ∀ r ∈ records [] (getlines text), r.Good)
    (hsec : .header sec ∈ records [] (getlines text)) {r : Record}
    (hr : r ∈ records [] (getlines text)) :
    (∀ line ∈ recordLines sec r, Accepted line) ∧
      (recordLines sec r).filterMap lineVar = (r.varOf sec).toList := by
  by_cases hown : ∃ var value, r = .entry sec var value
  · obtain ⟨var, value, rfl⟩ := hown
    obtain ⟨-, h0, he⟩ := hgood _ hr
    obtain ⟨hs, hv⟩ := hc.plain _ _ _ hr
    have hread := readLine_entryLine he
    rw [recordLines_entry hs hv h0 he.var_ne]
    refine ⟨?_, by simp [lineVar, hread, varOf]⟩
    rintro line (_ | ⟨_, h⟩)
    · exact .inr ⟨_, hread, he⟩
    · cases h
  · have hnone : r.varOf sec = none := varOf_eq_none fun var value h => hown ⟨var, value, h⟩
    obtain ⟨p, hp⟩ := Option.isSome_iff_exists.mp (hc.isSome hgood hr)
    simp only [IniFile.recordLines, hp, hnone]
    split
    · next hin =>
      have hskip := (hc.apart sec hsec r hr p hp hin).resolve_left hown
      refine ⟨?_, by simp [lineVar, hskip]⟩
      rintro line (_ | ⟨_, h⟩)
      · exact .inl hskip
      · cases h
    · simp

/-- A dump of a file, with its items in any order, is parsed to the file that was dumped: it has
the same sections and finds the same values. -/
def RoundTrip (file : IniFile) : Prop :=
  ∀ items, items.Perm file.items → ∃ text file', Dump file items = some text ∧
    Parse text = .ok file' ∧ file'.sections = file.sections ∧
    (∀ sec var, Exists file' sec var = Exists file sec var) ∧
    ∀ sec var default, ReadString file' sec var default = ReadString file sec var default

/-- A file that has the items of some records, each with a key of its own -/
structure Found (rs : List Record) (file : IniFile) : Prop where
  items : file.items = rs.map item
  sections : file.sections = rs.filterMap header?
  keyed : Keyed file.items
  good : ∀ r ∈ rs, r.Good
  mem : ∀ sec var value, .entry sec var value ∈ rs → sec ∈ file.sections

theorem Parse_found (h : Parse text = .ok file) : Found (records [] (getlines text)) file := by
  have hlines : ∀ line ∈ getlines text, 10 ∉ line := fun line => newline_not_mem_of_mem_getlines
  have hempty : Single [] := ⟨rfl, .inl rfl⟩
  have hkeyed : Keyed ({} : IniFile).items := List.nodup_nil
  obtain ⟨hitems, hsecs, hk, hgood, hsec⟩ := parseLines_ok hempty hlines hkeyed h
  simp only [List.nil_append] at hitems hsecs
  refine ⟨hitems, hsecs, hk, hgood, fun sec var value hr => ?_⟩
  rw [hsecs, mem_headers]
  rcases hsec _ _ _ hr with rfl | hr'
  · exact absurd rfl (hgood _ hr).2.1
  · exact hr'

namespace Found

variable {rs : List Record}

theorem perm (h : Found rs file) : file.items.Perm (file.sections.map (·, []) ++ varItems rs) := by
  rw [h.items, h.sections]
  exact map_item_perm rs

theorem nodup_keys (h : Found rs file) :
    (file.sections.map KeyHash ++ (varItems rs).map fun it => KeyHash it.1).Nodup := by
  have hk := (keyed_of_perm h.perm).mp h.keyed
  simpa [Keyed, Function.comp_def] using hk

theorem nodup (h : Found rs file) : file.sections.Nodup :=
  List.Nodup.of_map KeyHash h.nodup_keys.of_append_left

theorem mem_sections (h : Found rs file) : sec ∈ file.sections ↔ .header sec ∈ rs := by
  rw [h.sections, mem_headers]

theorem single (h : Found rs file) (hsec : sec ∈ file.sections) : Single sec :=
  h.good _ (h.mem_sections.mp hsec)

/-- Names that are split are not empty. -/
theorem ne_nil (h : Found rs file) (hsplit : ∀ r ∈ rs, (ItemToSectionVar r.item.1).isSome)
    (hsec : sec ∈ file.sections) : sec ≠ [] := by
  rintro rfl
  exact absurd (hsplit _ (h.mem_sections.mp hsec)) (by decide)

theorem newline (h : Found rs file) {rs' : List Record} (hp : rs'.Perm rs) :
    ∀ line ∈ file.sections.flatMap (dumpLines rs'), 10 ∉ line := by
  intro line hline
  obtain ⟨sec, hsec, hline⟩ := List.mem_flatMap.mp hline
  exact dumpLines_newline (fun r hr => h.good r (hp.subset hr)) (h.single hsec) hline

end Found

theorem roundTrip_of_splits (hc : Splits text) (h : Parse text = .ok file) : RoundTrip file := by
  have hfound := Parse_found h
  intro items hp
  rw [hfound.items] at hp
  obtain ⟨rs, hrs, rfl⟩ := exists_perm_of_map hp
  have hsplit : ∀ r ∈ rs, (ItemToSectionVar r.item.1).isSome := fun r hr =>
    hc.isSome hfound.good (hrs.subset hr)
  have hne : ∀ sec ∈ file.sections, Single sec ∧ sec ≠ [] := fun sec hsec =>
    ⟨hfound.single hsec, hfound.ne_nil (fun r hr => hsplit r (hrs.symm.subset hr)) hsec⟩
  have hlines : ∀ sec ∈ file.sections, ∀ r ∈ rs, (∀ line ∈ recordLines sec r, Accepted line) ∧
      (recordLines sec r).filterMap lineVar = (r.varOf sec).toList := fun sec hsec r hr =>
    hc.recordLines hfound.good (hfound.mem_sections.mp hsec) (hrs.subset hr)
  have haccepted : ∀ sec ∈ file.sections, ∀ line ∈ bodyLines rs sec, Accepted line := by
    intro sec hsec line hline
    obtain ⟨r, hr, hline⟩ := List.mem_flatMap.mp hline
    exact (hlines sec hsec r hr).1 line hline
  have hvars : ∀ sec ∈ file.sections, (bodyLines rs sec).filterMap lineVar = varsOf rs sec := by
    intro sec hsec
    rw [bodyLines, List.filterMap_flatMap, varsOf, List.filterMap_eq_flatMap_toList]
    exact List.flatMap_congr fun r hr => (hlines sec hsec r hr).2
  have hsecs := hfound.sections
  have hperm := flatMap_dumpItems_perm hrs (hsecs ▸ hfound.nodup) (hsecs ▸ hfound.mem)
    (hsecs ▸ hvars)
  rw [← hsecs, ← hfound.items] at hperm
  have hk : Keyed (file.sections.flatMap (dumpItems rs)) := (keyed_of_perm hperm).mpr hfound.keyed
  have hparse := parseLines_dumpLines rs file.sections hne haccepted 1 {} [] (by simpa using hk)
  have hfind : ∀ s, find (file.sections.flatMap (dumpItems rs)) s = find file.items s :=
    find_of_perm hperm hk
  refine ⟨_, { items := file.sections.flatMap (dumpItems rs), sections := file.sections },
    Dump_eq hsplit, ?_, ?_⟩
  · rw [Parse, getlines_textOf (hfound.newline hrs), hparse]
    simp
  · refine ⟨rfl, fun sec var => ?_, fun sec var default => ?_⟩
    · simp only [Exists, hfind]
    · simp only [ReadString, hfind]

theorem isSome_of_mapM {α β : Type*} {f : α → Option β} {l : List α} {m : List β}
    (h : l.mapM f = some m) : ∀ a ∈ l, ∃ b, f a = some b := by
  induction l generalizing m with
  | nil => simp
  | cons a l ih =>
    rw [List.mapM_cons] at h
    cases ha : f a with
    | none => simp [ha] at h
    | some b =>
      cases hl : l.mapM f with
      | none => simp [ha, hl] at h
      | some m =>
        rw [List.forall_mem_cons]
        exact ⟨⟨b, ha⟩, ih hl⟩

/-- What is dumped was split. -/
theorem Found.isSome_of_dump {rs : List Record} (hf : Found rs file)
    (h : Dump file file.items = some text) : ∀ r ∈ rs, (ItemToSectionVar r.item.1).isSome := by
  intro r hr
  have hsec : ∃ sec, sec ∈ file.sections := by
    cases r with
    | header name => exact ⟨name, hf.mem_sections.mpr hr⟩
    | entry name var value => exact ⟨name, hf.mem _ _ _ hr⟩
  obtain ⟨sec, hsec⟩ := hsec
  simp only [Dump, Option.bind_eq_bind, Option.bind_eq_some_iff] at h
  obtain ⟨dumped, hdumped, -⟩ := h
  obtain ⟨out, hout⟩ := isSome_of_mapM hdumped sec hsec
  simp only [dumpSection, Option.bind_eq_bind, Option.bind_eq_some_iff] at hout
  obtain ⟨lines, hlines, -⟩ := hout
  have hitem : r.item ∈ file.items := by
    rw [hf.items]
    exact List.mem_map_of_mem hr
  obtain ⟨line, hline⟩ := isSome_of_mapM hlines _ hitem
  simp only [dumpItem, Option.bind_eq_bind, Option.bind_eq_some_iff] at hline
  obtain ⟨p, hp, -⟩ := hline
  simp [hp]

def lineHeader (line : List UInt8) : Option (List UInt8) :=
  match readLine line with
  | .section name => some name
  | _ => none

theorem headers_records (sec : List UInt8) (lines : List (List UInt8)) :
    (records sec lines).filterMap header? = lines.filterMap lineHeader := by
  induction lines generalizing sec with
  | nil => rfl
  | cons line lines ih =>
    rw [records]
    split
    · next h => rw [ih, List.filterMap_cons_none (by simp [lineHeader, h])]
    · next name h =>
      rw [List.filterMap_cons_some (f := header?) (b := name) rfl, ih,
        List.filterMap_cons_some (b := name) (by simp [lineHeader, h])]
    · next h => rw [ih, List.filterMap_cons_none (by simp [lineHeader, h])]
    · next h =>
      rw [List.filterMap_cons_none rfl, ih, List.filterMap_cons_none (by simp [lineHeader, h])]

theorem items_records_append (sec : List UInt8) {body : List (List UInt8)}
    (h : ∀ line ∈ body, lineHeader line = none) (lines : List (List UInt8)) :
    (records sec (body ++ lines)).map item =
      (body.filterMap lineVar).map (varItem sec) ++ (records sec lines).map item := by
  induction body with
  | nil => rfl
  | cons line body ih =>
    simp only [List.forall_mem_cons] at h
    rw [List.cons_append, records]
    split
    · next hl => rw [ih h.2, List.filterMap_cons_none (by simp [lineVar, hl])]
    · next hl =>
      have hnone := h.1
      simp [lineHeader, hl] at hnone
    · next hl => rw [ih h.2, List.filterMap_cons_none (by simp [lineVar, hl])]
    · next var value hl =>
      rw [List.filterMap_cons_some (b := (var, value)) (by simp [lineVar, hl]), List.map_cons,
        ih h.2]
      rfl

theorem items_records_dumpLines {rs : List Record} {secs : List (List UInt8)}
    (hs : ∀ sec ∈ secs, Single sec)
    (h : ∀ sec ∈ secs, ∀ line ∈ bodyLines rs sec, lineHeader line = none) (sec : List UInt8) :
    (records sec (secs.flatMap (dumpLines rs))).map item = secs.flatMap (dumpItems rs) := by
  induction secs generalizing sec with
  | nil => rfl
  | cons name secs ih =>
    simp only [List.forall_mem_cons] at hs h
    have hblank : readLine [] = .skip := rfl
    simp only [List.flatMap_cons, dumpLines, List.cons_append, List.append_assoc, records,
      readLine_headerLine hs.1, List.map_cons, items_records_append name h.1, List.nil_append,
      hblank, ih hs.2 h.2, dumpItems, item]

/-- No line that is dumped for an item is the name of a section, if the sections are the same. -/
theorem lineHeader_bodyLines {rs : List Record} (hs : ∀ sec ∈ file.sections, Single sec)
    (h : (records [] (file.sections.flatMap (dumpLines rs))).filterMap header? = file.sections) :
    ∀ sec ∈ file.sections, ∀ line ∈ bodyLines rs sec, lineHeader line = none := by
  have hlines : ∀ sec ∈ file.sections, (dumpLines rs sec).filterMap lineHeader =
      sec :: (bodyLines rs sec).filterMap lineHeader := by
    intro sec hsec
    have hblank : lineHeader [] = none := rfl
    have hheader : lineHeader (headerLine sec) = some sec := by
      simp [lineHeader, readLine_headerLine (hs sec hsec)]
    simp [dumpLines, hheader, hblank]
  rw [headers_records, List.filterMap_flatMap, List.flatMap_congr hlines] at h
  have hlength := (List.map_append_flatMap_perm file.sections id fun sec =>
    (bodyLines rs sec).filterMap lineHeader).length_eq
  rw [List.map_id] at hlength
  have hnil : (file.sections.flatMap fun sec => (bodyLines rs sec).filterMap lineHeader) = [] := by
    refine List.eq_nil_of_length_eq_zero ?_
    have hh := congrArg List.length h
    simp only [id_eq] at hlength
    rw [List.length_append] at hlength
    omega
  rw [List.flatMap_eq_nil_iff] at hnil
  intro sec hsec
  exact List.filterMap_eq_nil_iff.mp (hnil sec hsec)

/-- Lines that are accepted have no invalid entries. -/
theorem readLine_ne_of_parseLines (h : parseLines n file sec lines = .ok file') :
    ∀ line ∈ lines, readLine line ≠ .entry none := by
  induction lines generalizing n file sec with
  | nil => simp
  | cons line lines ih =>
    rw [parseLines] at h
    split at h
    · next hl => exact List.forall_mem_cons.mpr ⟨by simp [hl], ih h⟩
    · next hl =>
      simp only at h
      split at h
      · exact List.forall_mem_cons.mpr ⟨by simp [hl], ih h⟩
      · cases h
    · next hl =>
      split at h
      · cases h
      · split at h
        · cases h
        · next hv =>
          split at h
          · cases h
          · split at h
            · exact List.forall_mem_cons.mpr ⟨by simp [hl], ih h⟩
            · cases h

theorem StringTrim_append_equals (a b : List UInt8) :
    ∃ a' b', StringTrim (a ++ 61 :: b) = a' ++ 61 :: b' ∧ a' ⊆ a := by
  have h61 : isSpace 61 = false := by decide
  have hleft : StringTrimLeft (a ++ 61 :: b) = a.dropWhile isSpace ++ 61 :: b := by
    rw [StringTrimLeft, List.dropWhile_append]
    split
    · next h =>
      rw [List.isEmpty_iff.mp h]
      simp [h61]
    · rfl
  have hright : ∃ b', StringTrimRight (a.dropWhile isSpace ++ 61 :: b) =
      a.dropWhile isSpace ++ 61 :: b' := by
    rcases spaces_or_concat (61 :: b) with h | ⟨p, c, t, hp, hc, ht⟩
    · exact absurd (h 61 List.mem_cons_self) (by decide)
    · rw [hp, ← List.append_assoc, StringTrimRight_concat hc ht]
      cases p with
      | nil => exact ⟨[], by simp [(List.cons.inj hp).1]⟩
      | cons d p => exact ⟨p ++ [c], by simp [(List.cons.inj hp).1]⟩
  obtain ⟨b', hb'⟩ := hright
  exact ⟨_, b', by rw [StringTrim, hleft, hb'], (List.dropWhile_suffix _).subset⟩

/-- A variable is found in what is printed for it. -/
theorem lineVar_subset {p q : List UInt8 × List UInt8} (h : lineVar (entryLine p) = some q) :
    ∀ c ∈ q.1, c ∈ p.1 ∨ c = 32 := by
  have hget : getVarValue (StringTrim (entryLine p)) = some (q.1, q.2) := by
    simp only [lineVar, readLine] at h
    split at h
    · next heq =>
      split at heq
      · cases heq
      · split at heq
        · cases heq
        · exact (Line.entry.inj heq).trans h
    · cases h
  obtain ⟨pre, post, hline, hpre, -, hvar, -⟩ := getVarValue_eq hget
  have hentry : entryLine p = (p.1 ++ [32]) ++ 61 :: 32 :: p.2 := by simp [entryLine]
  obtain ⟨a, b, htrim, ha⟩ := StringTrim_append_equals (p.1 ++ [32]) (32 :: p.2)
  rw [hentry, htrim] at hline
  have hsub : pre ⊆ a := by
    rcases List.append_eq_append_iff.mp hline with ⟨t, rfl, ht⟩ | ⟨t, rfl, -⟩
    · cases t with
      | nil => simp
      | cons d t =>
        have hd : d = 61 := (List.cons.inj ht).1.symm
        exact absurd (by simp [hd]) hpre
    · exact List.subset_append_left _ _
  intro c hc
  rw [← hvar] at hc
  simpa using ha (hsub (mem_of_mem_trim hc))

theorem count_KeyHash (s : List UInt8) : (KeyHash s).count 124 = s.count 124 := by
  rw [KeyHash, StringToLower, List.count_eq_countP, List.countP_map, List.count_eq_countP]
  refine List.countP_congr fun c _ => ?_
  simp [toLower_eq_iff (d := 124) (.inr (by decide)) c]

theorem KeyHash_eq_of_sameString (hs : 0 ∉ s) (ht : 0 ∉ t) (h : sameString s t) :
    KeyHash s = KeyHash t := by
  have htake : ∀ u : List UInt8, 0 ∉ u → u.takeWhile (· ≠ 0) = u := fun u hu =>
    List.takeWhile_eq_self_iff.mpr fun c hc => decide_eq_true fun h0 => hu (h0 ▸ hc)
  simpa only [KeyHash, sameString, htake s hs, htake t ht, decide_eq_true_eq] using h

theorem Found.keyHash_injective {rs : List Record} (h : Found rs file) (hs : s ∈ file.sections)
    (ht : t ∈ file.sections) (he : KeyHash s = KeyHash t) : s = t :=
  List.inj_on_of_nodup_map h.nodup_keys.of_append_left hs ht he

theorem Found.keyHash_ne {rs : List Record} (h : Found rs file) (hs : s ∈ file.sections)
    (hr : .entry sec var value ∈ rs) : KeyHash s ≠ KeyHash (sec ++ 124 :: var) := by
  have hmem : (sec ++ 124 :: var, value) ∈ varItems rs := List.mem_filterMap.mpr ⟨_, hr, rfl⟩
  exact List.nodup_append.mp h.nodup_keys |>.2.2 _ (List.mem_map_of_mem hs) _
    (List.mem_map_of_mem hmem)

/-- Where names have no zero byte, a section that shows an item has the name that is split off. -/
theorem Found.key_of_inSection {rs : List Record} (hf : Found rs file)
    (hz : ∀ r ∈ rs, 0 ∉ r.item.1) (hsec : sec ∈ file.sections) {r : Record} (hr : r ∈ rs)
    {p : List UInt8 × List UInt8} (hp : ItemToSectionVar r.item.1 = some p)
    (hin : inSection sec r.item.1 p.1) : KeyHash sec = KeyHash p.1 := by
  have hsec0 : 0 ∉ sec := hz _ (hf.mem_sections.mp hsec)
  have hp0 : 0 ∉ p.1 := fun h0 => hz r hr ((ItemToSectionVar_mem hp).1 0 h0).1
  simp only [inSection, decide_eq_true_eq] at hin
  exact KeyHash_eq_of_sameString hsec0 hp0 hin.1

/-- What has been read back from a dump that keeps the sections and the items -/
structure ReadBack (rs : List Record) (file file' : IniFile) : Prop where
  split : ∀ r ∈ rs, (ItemToSectionVar r.item.1).isSome
  sections : file'.sections = file.sections
  items : file'.items = file.sections.flatMap (dumpItems rs)
  keyed : Keyed file'.items
  lines : ∀ sec ∈ file.sections, ∀ line ∈ bodyLines rs sec,
    readLine line = .skip ∨ ∃ p, lineVar line = some p
  keys : ∀ r ∈ rs, KeyHash r.item.1 ∈ file'.items.map fun it => KeyHash it.1
  keys' : ∀ it ∈ file'.items, KeyHash it.1 ∈ file.items.map fun it => KeyHash it.1

/-- An item that is in one of two files which have the same variables is in the other. -/
theorem key_mem_of_exists {f f' : IniFile} (h : ∀ sec var, Exists f' sec var = Exists f sec var)
    {r : Record} (hr : r.Good) (hne : ∀ name, r = .header name → name ≠ [])
    (hm : KeyHash r.item.1 ∈ f.items.map fun it => KeyHash it.1) :
    KeyHash r.item.1 ∈ f'.items.map fun it => KeyHash it.1 := by
  have hitem : ∃ sec var, SectionVarToItem sec var = some r.item.1 := by
    cases r with
    | header name =>
      refine ⟨name, [], ?_⟩
      have htrim : StringTrim [] = [] := rfl
      simp [SectionVarToItem, Single.eq hr, htrim, hne name rfl, item]
    | entry sec var value =>
      obtain ⟨hs, h0, he⟩ := hr
      exact ⟨sec, var, SectionVarToItem_eq hs h0 he.var_trimmed he.var_ne⟩
  obtain ⟨sec, var, hitem⟩ := hitem
  have hexists := h sec var
  simp only [Exists, hitem, Option.map_some, Option.some.injEq] at hexists
  rw [← find_isSome_iff] at hm ⊢
  rw [hexists, hm]

theorem readBack_of_roundTrip {rs : List Record} (hf : Found rs file) (h : RoundTrip file) :
    ∃ file', ReadBack rs file file' := by
  obtain ⟨text, file', hdump, hparse, hsecs, hexists, -⟩ := h _ (.refl _)
  have hsplit := hf.isSome_of_dump hdump
  have hlines : getlines text = file.sections.flatMap (dumpLines rs) := by
    rw [hf.items, Dump_eq hsplit, Option.some.injEq] at hdump
    rw [← hdump, getlines_textOf (hf.newline (.refl _))]
  have hf' := Parse_found hparse
  rw [hlines] at hf'
  have hheader : ∀ sec ∈ file.sections, ∀ line ∈ bodyLines rs sec, lineHeader line = none :=
    lineHeader_bodyLines (fun sec hsec => hf.single hsec) (hf'.sections.symm.trans hsecs)
  have hne : ∀ name ∈ file.sections, name ≠ [] := fun name hname => hf.ne_nil hsplit hname
  refine ⟨file', hsplit, hsecs, ?_, hf'.keyed, ?_, ?_, ?_⟩
  · rw [hf'.items]
    exact items_records_dumpLines (fun sec hsec => hf.single hsec) hheader []
  · intro sec hsec line hline
    have hnone := hheader sec hsec line hline
    have hvalid : readLine line ≠ .entry none := by
      rw [Parse, hlines] at hparse
      refine readLine_ne_of_parseLines hparse line (List.mem_flatMap.mpr ⟨sec, hsec, ?_⟩)
      simp [dumpLines, hline]
    cases hread : readLine line with
    | skip => exact .inl rfl
    | «section» name => simp [lineHeader, hread] at hnone
    | entry p =>
      cases p with
      | none => exact absurd hread hvalid
      | some p => exact .inr ⟨p, by simp [lineVar, hread]⟩
  · intro r hr
    refine key_mem_of_exists hexists (hf.good r hr) ?_ ?_
    · rintro name rfl
      exact hne name (hf.mem_sections.mpr hr)
    · rw [hf.items]
      exact List.mem_map_of_mem (List.mem_map_of_mem hr)
  · intro it hit
    have hrecord := hit
    rw [hf'.items] at hrecord
    obtain ⟨r, hr, rfl⟩ := List.mem_map.mp hrecord
    refine key_mem_of_exists (fun sec var => (hexists sec var).symm) (hf'.good r hr) ?_
      (List.mem_map_of_mem hit)
    rintro name rfl
    exact hne name (hsecs ▸ hf'.mem_sections.mpr hr)

namespace ReadBack

variable {rs : List Record}

/-- A variable that is read back has one `|` in its item. -/
theorem count_varItem (h : ReadBack rs file file') (hf : Found rs file)
    (hz : ∀ r ∈ rs, 0 ∉ r.item.1) (hsec : sec ∈ file.sections) (hline : line ∈ bodyLines rs sec)
    {q : List UInt8 × List UInt8} (hq : lineVar line = some q) :
    (varItem sec q).1.count 124 = 1 := by
  obtain ⟨r, hr, hline⟩ := List.mem_flatMap.mp hline
  obtain ⟨p, hp⟩ := Option.isSome_iff_exists.mp (h.split r hr)
  have hbars := ItemToSectionVar_mem hp
  simp only [recordLines, hp] at hline
  split at hline
  · next hin =>
    rw [List.mem_singleton] at hline
    subst hline
    have hsec1 : sec.count 124 = 0 := by
      rw [← count_KeyHash, hf.key_of_inSection hz hsec hr hp hin, count_KeyHash]
      exact List.count_eq_zero.mpr fun hbar => (hbars.1 _ hbar).2 rfl
    have hvar : q.1.count 124 = 0 := by
      refine List.count_eq_zero.mpr fun hbar => ?_
      rcases lineVar_subset hq _ hbar with hbar | hbar
      · exact (hbars.2 _ hbar).2 rfl
      · exact absurd hbar (by decide)
    simp [varItem, hsec1, hvar]
  · cases hline

theorem plain (h : ReadBack rs file file') (hf : Found rs file) (hz : ∀ r ∈ rs, 0 ∉ r.item.1)
    (hr : .entry sec var value ∈ rs) : 124 ∉ sec ∧ 124 ∉ var := by
  have hkey := h.keys _ hr
  obtain ⟨it, hit, hhash⟩ := List.mem_map.mp hkey
  rw [h.items] at hit
  obtain ⟨name, hname, hit⟩ := List.mem_flatMap.mp hit
  rcases List.mem_cons.mp hit with rfl | hit
  · exact absurd hhash (hf.keyHash_ne hname hr)
  · obtain ⟨q, hq, rfl⟩ := List.mem_map.mp hit
    obtain ⟨line, hline, hq⟩ := List.mem_filterMap.mp hq
    have hcount := h.count_varItem hf hz hname hline hq
    rw [← count_KeyHash, hhash, count_KeyHash, item, List.count_append, List.count_cons_self]
      at hcount
    exact ⟨List.count_eq_zero.mp (by omega), List.count_eq_zero.mp (by omega)⟩

def extraVars (rs : List Record) (sec : List UInt8) : List (List UInt8 × List UInt8) :=
  rs.flatMap fun
    | .header name => (recordLines sec (.header name)).filterMap lineVar
    | .entry .. => []

/-- Where variables have no `|`, they are read back, and what is read back of sections is extra. -/
theorem perm_extra (h : ReadBack rs file file') (hf : Found rs file)
    (hz : ∀ r ∈ rs, 0 ∉ r.item.1) : file'.items.Perm (file.items ++
      file.sections.flatMap fun sec => (extraVars rs sec).map (varItem sec)) := by
  have hbody : ∀ sec ∈ file.sections,
      ((bodyLines rs sec).filterMap lineVar).Perm (varsOf rs sec ++ extraVars rs sec) := by
    intro sec hsec
    rw [bodyLines, List.filterMap_flatMap, varsOf, List.filterMap_eq_flatMap_toList]
    refine List.Perm.trans (.of_eq ?_) (List.flatMap_append_perm _ _ _).symm
    refine List.flatMap_congr fun r hr => ?_
    cases r with
    | header name => rfl
    | entry name var value =>
      obtain ⟨hs, hv⟩ := h.plain hf hz hr
      obtain ⟨-, h0, he⟩ := hf.good _ hr
      rw [List.append_nil]
      by_cases hname : name = sec
      · subst hname
        rw [recordLines_entry hs hv h0 he.var_ne]
        simp [lineVar, readLine_entryLine he, varOf]
      · have hp := ItemToSectionVar_entry hs hv h0 he.var_ne
        have hnot : inSection sec (name ++ 124 :: var) name = false := by
          rw [← Bool.not_eq_true]
          intro hin
          have hkey := hf.key_of_inSection hz hsec hr hp hin
          exact hname (hf.keyHash_injective (hf.mem _ _ _ hr) hsec hkey.symm)
        simp [recordLines, item, hp, hnot, varOf, hname]
  have hvars := flatMap_vars_perm hf.nodup hf.mem
  have hread : (file.sections.flatMap fun sec =>
      ((bodyLines rs sec).filterMap lineVar).map (varItem sec)).Perm (varItems rs ++
        file.sections.flatMap fun sec => (extraVars rs sec).map (varItem sec)) := by
    refine (List.Perm.flatMap_left _ fun sec hsec => (hbody sec hsec).map (varItem sec)).trans ?_
    simp only [List.map_append]
    exact (List.flatMap_append_perm _ _ _).symm.trans (hvars.append_right _)
  rw [h.items]
  refine (List.map_append_flatMap_perm _ _ _).symm.trans ((hread.append_left _).trans ?_)
  rw [← List.append_assoc]
  exact hf.perm.symm.append_right _

/-- What is shown of a section in another one is a comment. -/
theorem apart (h : ReadBack rs file file') (hf : Found rs file) (hz : ∀ r ∈ rs, 0 ∉ r.item.1)
    (hsec : sec ∈ file.sections) {r : Record} (hr : r ∈ rs) {p : List UInt8 × List UInt8}
    (hp : ItemToSectionVar r.item.1 = some p) (hin : inSection sec r.item.1 p.1) :
    (∃ var value, r = .entry sec var value) ∨ readLine (entryLine (p.2, r.item.2)) = .skip := by
  have hkey := hf.key_of_inSection hz hsec hr hp hin
  cases r with
  | entry name var value =>
    obtain ⟨hs, hv⟩ := h.plain hf hz hr
    obtain ⟨-, h0, he⟩ := hf.good _ hr
    obtain rfl := Option.some.inj (hp.symm.trans (ItemToSectionVar_entry hs hv h0 he.var_ne))
    exact .inl ⟨var, value, by rw [hf.keyHash_injective hsec (hf.mem _ _ _ hr) hkey]⟩
  | header name =>
    have hlines : recordLines sec (.header name) = [entryLine (p.2, [])] := by
      rw [item] at hp hin
      simp [recordLines, item, hp, hin]
    have hline : entryLine (p.2, []) ∈ bodyLines rs sec :=
      List.mem_flatMap.mpr ⟨_, hr, by simp [hlines]⟩
    rcases h.lines sec hsec _ hline with hskip | ⟨q, hq⟩
    · exact .inr hskip
    · -- an extra variable would have the key of an item
      have hextra : varItem sec q ∈
          file.sections.flatMap fun sec => (extraVars rs sec).map (varItem sec) := by
        refine List.mem_flatMap.mpr ⟨sec, hsec, List.mem_map_of_mem ?_⟩
        exact List.mem_flatMap.mpr ⟨_, hr, by simp [hlines, hq]⟩
      have hperm := h.perm_extra hf hz
      have hmem := h.keys' _ (hperm.symm.subset (List.mem_append_right _ hextra))
      have hnodup := (keyed_of_perm hperm).mp h.keyed
      rw [Keyed, List.map_append] at hnodup
      exact absurd rfl (List.nodup_append.mp hnodup |>.2.2 _ hmem _ (List.mem_map_of_mem hextra))

end ReadBack

theorem splits_of_roundTrip (hz : ∀ r ∈ records [] (getlines text), 0 ∉ r.item.1)
    (h : Parse text = .ok file) (hr : RoundTrip file) : Splits text := by
  have hf := Parse_found h
  obtain ⟨file', hback⟩ := readBack_of_roundTrip hf hr
  exact {
    plain := fun sec var value hr => hback.plain hf hz hr
    parts := fun name hr => hback.split _ hr
    apart := fun name hname r hr p hp hin =>
      hback.apart hf hz (hf.mem_sections.mpr hname) hr hp hin }

/-- Files are read back from their dumps where all items are split as they were joined. -/
theorem roundTrip_of_accepted (h : Parse text = .ok file) : (Splits text → RoundTrip file) ∧
    ((∀ r ∈ records [] (getlines text), 0 ∉ r.item.1) → RoundTrip file → Splits text) :=
  ⟨fun hc => roundTrip_of_splits hc h, fun hz => splits_of_roundTrip hz h⟩

def plainText : List UInt8 := [91, 97, 93, 10, 120, 61, 49, 10]

theorem records_plainText : records [] (getlines plainText) =
    [.header [97], .entry [97] [120] [49]] := rfl

theorem splits_plainText : Splits plainText := by
  constructor
  · rw [records_plainText]
    rintro sec var value (_ | ⟨_, _ | ⟨_, h⟩⟩)
    · decide
    · cases h
  · rw [records_plainText]
    rintro name (_ | ⟨_, _ | ⟨_, h⟩⟩)
    · decide
    · cases h
  · rw [records_plainText]
    rintro name (_ | ⟨_, _ | ⟨_, h⟩⟩) r hr p hp hin
    · rcases hr with _ | ⟨_, _ | ⟨_, hr⟩⟩
      · obtain rfl : ([97], []) = p := Option.some.inj hp
        exact absurd hin (by decide)
      · exact .inl ⟨_, _, rfl⟩
      · cases hr
    · cases h

theorem roundTrip_plainText : RoundTrip
      { items := [([97], []), ([97, 124, 120], [49])], sections := [[97]] } ∧ Splits plainText := by
  have h := roundTrip_of_accepted
    (show Parse plainText = .ok
      { items := [([97], []), ([97, 124, 120], [49])], sections := [[97]] } from rfl)
  have hfile := h.1 splits_plainText
  exact ⟨hfile, h.2 (by rw [records_plainText]; decide) hfile⟩

/-- The variable `x|y` is split in two when its item is dumped. -/
theorem barVariable_not_dumped : ¬ ∀ text file, Parse text = .ok file → RoundTrip file := by
  intro h
  obtain ⟨text, file', hdump, -⟩ := h [91, 97, 93, 10, 120, 124, 121, 61, 49, 10]
    { items := [([97], []), ([97, 124, 120, 124, 121], [49])], sections := [[97]] } rfl _ (.refl _)
  cases hdump

end OISA.Cpp.IniFile
