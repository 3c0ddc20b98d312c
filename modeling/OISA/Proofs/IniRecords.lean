import OISA.Proofs.IniStrings

/-!
# Records of INI files

Parsing finds records in the lines of a text: names of sections, and variables with their section
and value.
-/

namespace OISA.Cpp.IniFile

inductive Record
  | header (name : List UInt8)
  | entry (sec var value : List UInt8)

namespace Record

def item : Record → List UInt8 × List UInt8
  | header name => (name, [])
  | entry sec var value => (sec ++ 124 :: var, value)

def header? : Record → Option (List UInt8)
  | header name => some name
  | entry _ _ _ => none

def varOf (name : List UInt8) : Record → Option (List UInt8 × List UInt8)
  | header _ => none
  | entry sec var value => if sec = name then some (var, value) else none

end Record

open Record

def entryLine (p : List UInt8 × List UInt8) : List UInt8 := p.1 ++ [32, 61, 32] ++ p.2

/-- The records of lines that follow the name of a section -/
def records (sec : List UInt8) : List (List UInt8) → List Record
  | [] => []
  | line :: lines =>
    match readLine line with
    | .skip => records sec lines
    | .section name => .header name :: records name lines
    | .entry none => records sec lines
    | .entry (some (var, value)) => .entry sec var value :: records sec lines

variable {file file' : IniFile} {items items' : List (List UInt8 × List UInt8)}
  {s t sec var value line : List UInt8} {lines : List (List UInt8)} {n : ℕ}

def Keyed (items : List (List UInt8 × List UInt8)) : Prop :=
  (items.map fun it => KeyHash it.1).Nodup

/-- No other character becomes one that is not a letter. -/
theorem toLower_eq_iff {d : UInt8} (hd : d.toNat < 65 ∨ 122 < d.toNat) (c : UInt8) :
    (if 65 ≤ c ∧ c ≤ 90 then c + 32 else c) = d ↔ c = d := by
  split
  · next h =>
    have h1 : 65 ≤ c.toNat := UInt8.le_iff_toNat_le.mp h.1
    have h2 : c.toNat ≤ 90 := UInt8.le_iff_toNat_le.mp h.2
    have hadd : (c + 32).toNat = c.toNat + 32 := by
      have h32 : (32 : UInt8).toNat = 32 := rfl
      rw [UInt8.toNat_add, h32]
      omega
    constructor
    · rintro rfl
      omega
    · rintro rfl
      omega
  · rfl

theorem toLower_takeWhile (s : List UInt8) :
    StringToLower (s.takeWhile (· ≠ 0)) = (StringToLower s).takeWhile (· ≠ 0) := by
  induction s with
  | nil => rfl
  | cons c s ih =>
    have hzero := toLower_eq_iff (d := 0) (.inl (by decide)) c
    simp only [StringToLower, List.map_cons, List.takeWhile_cons, ne_eq, decide_not] at ih ⊢
    by_cases hc : c = 0
    · simp [hc]
    · simp [hc, hzero, ih]

theorem sameKey_iff : sameKey s t ↔ KeyHash s = KeyHash t := by
  simp only [sameKey, decide_eq_true_eq, and_iff_left_iff_imp, KeyHash, KeyCompare, sameString]
  intro h
  rw [toLower_takeWhile, toLower_takeWhile, h]

theorem find_isSome_iff : (find items s).isSome ↔ KeyHash s ∈ items.map fun it => KeyHash it.1 := by
  simp only [find, List.find?_isSome, sameKey_iff, List.mem_map]

theorem keyed_of_perm (hp : items.Perm items') : Keyed items ↔ Keyed items' :=
  (hp.map fun it : List UInt8 × List UInt8 => KeyHash it.1).nodup_iff

theorem keyed_append_iff : Keyed (items ++ [(s, t)]) ↔
    Keyed items ∧ (find items s).isSome = false := by
  have hmem : (find items s).isSome = false ↔ KeyHash s ∉ items.map fun it => KeyHash it.1 := by
    rw [← find_isSome_iff, Bool.not_eq_true]
  rw [Keyed, List.map_append, List.nodup_append_comm, hmem]
  simp only [List.map_cons, List.map_nil, List.singleton_append, List.nodup_cons]
  exact and_comm

theorem Keyed.of_append (h : Keyed (items ++ items')) : Keyed items := by
  rw [Keyed, List.map_append] at h
  exact h.of_append_left

theorem set_of_isNone (h : (find items s).isSome = false) : set items s t = items ++ [(s, t)] := by
  simp [set, h]

/-- Items are found in any order of them. -/
theorem find_of_perm (hp : items.Perm items') (h : Keyed items) (s : List UInt8) :
    find items s = find items' s := by
  induction hp with
  | nil => rfl
  | cons a _ ih =>
    simp only [find, List.find?_cons] at ih ⊢
    split
    · rfl
    · exact ih (List.nodup_cons.mp h).2
  | swap a b l =>
    have hne : KeyHash b.1 ≠ KeyHash a.1 := by
      intro he
      simp [Keyed, he] at h
    simp only [find, List.find?_cons]
    by_cases ha : sameKey a.1 s
    · have hb : sameKey b.1 s = false := by
        rw [← Bool.not_eq_true, sameKey_iff, ← sameKey_iff.mp ha]
        exact hne
      simp [ha, hb]
    · simp [ha]
  | trans hp _ ih ih' =>
    rw [ih h]
    exact ih' ((keyed_of_perm hp).mp h)

theorem SectionVarToItem_eq (hs : Single sec) (h0 : sec ≠ []) (hv : Trimmed var) (hv0 : var ≠ []) :
    SectionVarToItem sec var = some (sec ++ 124 :: var) := by
  simp [SectionVarToItem, hs.eq, hv.eq, h0, hv0]

/-- A new section is added at the end. -/
theorem InsertSection_new (hs : Single sec) (h : (find file.items sec).isSome = false) :
    InsertSection file sec =
      ({ items := file.items ++ [(sec, [])], sections := file.sections ++ [sec] }, true) := by
  simp [InsertSection, hs.eq, h, set_of_isNone h]

theorem InsertSection_snd (hs : Single sec) (h : (InsertSection file sec).2) :
    (find file.items sec).isSome = false := by
  simpa [InsertSection, hs.eq] using h

structure Entry (var value : List UInt8) : Prop where
  var_trimmed : Trimmed var
  var_ne : var ≠ []
  value_trimmed : Trimmed value
  equals : 61 ∉ var
  newline : 10 ∉ var ∧ 10 ∉ value
  comment : var.head? ≠ some 59 ∧ var.head? ≠ some 35
  bracket : ¬ (var.head? = some 91 ∧ value.getLast? = some 93)

theorem getVarValue_append (hpre : 61 ∉ s) (h0 : s ≠ []) (t : List UInt8) :
    getVarValue (s ++ 61 :: t) = some (StringTrim s, StringTrim t) := by
  have htake : (s ++ 61 :: t).takeWhile (· ≠ 61) = s := by
    have hne : ∀ c ∈ s, decide (c ≠ 61) = true := fun c hc =>
      decide_eq_true fun h => hpre (h ▸ hc)
    rw [List.takeWhile_append_of_pos hne]
    simp
  have hcond : ¬ (61 ∉ s ++ 61 :: t ∨ s = []) := by simp [h0]
  have hdrop : (s ++ 61 :: t).drop (s.length + 1) = t := by simp
  rw [getVarValue]
  simp only [htake]
  rw [if_neg hcond, hdrop]

theorem getVarValue_eq (h : getVarValue s = some (var, value)) :
    ∃ pre post, s = pre ++ 61 :: post ∧ 61 ∉ pre ∧ pre ≠ [] ∧ StringTrim pre = var ∧
      StringTrim post = value := by
  have hmem : 61 ∈ s := by
    by_contra hn
    simp [getVarValue, hn] at h
  obtain ⟨pre, post, rfl, hpre⟩ := List.eq_append_cons_of_mem hmem
  have h0 : pre ≠ [] := by
    rintro rfl
    simp [getVarValue] at h
  rw [getVarValue_append hpre h0] at h
  cases h
  exact ⟨pre, post, rfl, hpre, h0, rfl, rfl⟩

theorem readLine_section {name : List UInt8} (h : readLine line = .section name) :
    Single name := by
  simp only [readLine] at h
  split at h
  · cases h
  · split at h
    · cases h
      exact single_StringSingleSpaces _
    · cases h

/-- A line that is no comment and no section has an entry. -/
theorem readLine_entry (hn : 10 ∉ line) (h : readLine line = .entry (some (var, value))) :
    Entry var value := by
  have htrim := trimmed_StringTrim line
  have hn : 10 ∉ StringTrim line := fun h => hn (mem_of_mem_trim h)
  simp only [readLine] at h
  split at h
  · cases h
  · next hcomment =>
    split at h
    · cases h
    · next hbracket =>
      obtain ⟨pre, post, hline, hpre, h0, rfl, rfl⟩ := getVarValue_eq (Line.entry.inj h)
      rw [hline] at htrim hn hcomment hbracket
      obtain ⟨c, pre, rfl⟩ := List.exists_cons_of_ne_nil h0
      have hc : isSpace c = false := htrim.1 c rfl
      have hhead := head?_StringTrim hc pre
      refine ⟨trimmed_StringTrim _, ?_, trimmed_StringTrim _, fun h => hpre (mem_of_mem_trim h), ?_,
        ?_, ?_⟩
      · intro h
        rw [h] at hhead
        cases hhead
      · exact ⟨fun h => hn (List.mem_append_left _ (mem_of_mem_trim h)),
          fun h => hn (List.mem_append_right _ (List.mem_cons_of_mem _ (mem_of_mem_trim h)))⟩
      · rw [hhead]
        simpa using hcomment
      · rw [hhead]
        rintro ⟨hc91, hlast⟩
        cases post using List.reverseRecOn with
        | nil => cases hlast
        | append_singleton post d =>
          have hend : (c :: pre ++ 61 :: (post ++ [d])).getLast? = some d := by
            rw [← List.cons_append, ← List.append_assoc, List.getLast?_concat]
          rw [getLast?_StringTrim (htrim.2 d hend)] at hlast
          exact hbracket ⟨hc91, hend.trans hlast⟩

theorem readLine_entryLine (h : Entry var value) :
    readLine (entryLine (var, value)) = .entry (some (var, value)) := by
  obtain ⟨c, v, rfl⟩ := List.exists_cons_of_ne_nil h.var_ne
  have hc : isSpace c = false := h.var_trimmed.1 c rfl
  have h61 : isSpace 61 = false := by decide
  have hnot : (61 : UInt8) ∉ c :: v ++ [32] := by
    rw [List.mem_append, not_or]
    exact ⟨h.equals, by decide⟩
  -- a value that is not empty follows a space
  have htrim : ∃ t, StringTrim (entryLine (c :: v, value)) = (c :: v ++ [32]) ++ 61 :: t ∧
      StringTrim t = value ∧ ((61 :: t).getLast? = some 93 → value.getLast? = some 93) := by
    by_cases h0 : value = []
    · subst h0
      refine ⟨[], ?_, rfl, by decide⟩
      have ht : Trimmed (c :: v ++ [32] ++ [61]) := by
        refine ⟨by simp [hc], ?_⟩
        rw [List.getLast?_concat]
        simp [h61]
      simpa [entryLine] using ht.append_space
    · have hend : (61 :: 32 :: value).getLast? = value.getLast? := by
        rw [← List.singleton_append, ← List.singleton_append (x := 32), ← List.append_assoc,
          List.getLast?_append_of_ne_nil _ h0]
      refine ⟨32 :: value, ?_, ?_, fun h => hend ▸ h⟩
      · have ht : Trimmed (c :: v ++ [32] ++ 61 :: 32 :: value) := by
          refine ⟨by simp [hc], ?_⟩
          rw [List.getLast?_append_of_ne_nil _ (by simp), hend]
          exact h.value_trimmed.2
        simpa [entryLine] using ht.eq
      · rw [StringTrim_cons_space, h.value_trimmed.eq]
  obtain ⟨t, ht, hvalue, hlast⟩ := htrim
  have hget := getVarValue_append hnot (by simp) t
  rw [h.var_trimmed.append_space, hvalue] at hget
  have hcomment := h.comment
  have hbracket := h.bracket
  simp only [List.head?_cons] at hcomment hbracket
  simp only [readLine, ht]
  rw [if_neg (by simpa using hcomment), if_neg, hget]
  rintro ⟨hc91, h93⟩
  refine hbracket ⟨by simpa using hc91, hlast ?_⟩
  rwa [List.getLast?_append_of_ne_nil _ (by simp)] at h93

/-- A new variable is added at the end. -/
theorem InsertVariable_new (hs : Single sec) (h0 : sec ≠ []) (he : Entry var value)
    (h : (find file.items (sec ++ 124 :: var)).isSome = false) :
    InsertVariable file sec var value =
      some ({ file with items := file.items ++ [(sec ++ 124 :: var, value)] }, true) := by
  simp only [InsertVariable, SectionVarToItem_eq hs h0 he.var_trimmed he.var_ne,
    Option.bind_eq_bind, Option.bind_some, h, set_of_isNone h, Bool.not_false]

theorem InsertVariable_snd (hs : Single sec) (h0 : sec ≠ []) (he : Entry var value)
    (h : InsertVariable file sec var value = some (file', true)) :
    (find file.items (sec ++ 124 :: var)).isSome = false := by
  simp only [InsertVariable, SectionVarToItem_eq hs h0 he.var_trimmed he.var_ne,
    Option.bind_eq_bind, Option.bind_some, Option.some.injEq, Prod.mk.injEq] at h
  simpa using h.2

def headerLine (name : List UInt8) : List UInt8 := [91, 32] ++ name ++ [32, 93]

theorem readLine_headerLine (h : Single s) : readLine (headerLine s) = .section s := by
  have h91 : isSpace 91 = false := by decide
  have h93 : isSpace 93 = false := by decide
  have hlast : (headerLine s).getLast? = some 93 := by
    rw [headerLine, show [32, 93] = [32] ++ [(93 : UInt8)] from rfl, ← List.append_assoc,
      List.getLast?_concat]
  have ht : Trimmed (headerLine s) := ⟨by simp [headerLine, h91], by simp [hlast, h93]⟩
  have hin : ((headerLine s).drop 1).take ((headerLine s).length - 2) = 32 :: s ++ [32] := by
    have hlen : (headerLine s).length - 2 = (32 :: s ++ [32]).length := by simp [headerLine]
    rw [hlen, show (headerLine s).drop 1 = (32 :: s ++ [32]) ++ [93] by simp [headerLine],
      List.take_left]
  simp only [readLine, ht.eq]
  rw [if_neg (by simp [headerLine]), if_pos ⟨by simp [headerLine], hlast⟩, hin, h.padded]

def Record.Good : Record → Prop
  | header name => Single name
  | entry sec var value => Single sec ∧ sec ≠ [] ∧ Entry var value

/-- Accepted lines add their records to the file, each with a key of its own. -/
theorem parseLines_ok (hs : Single sec) (hn : ∀ line ∈ lines, 10 ∉ line) (hk : Keyed file.items)
    (h : parseLines n file sec lines = .ok file') :
    file'.items = file.items ++ (records sec lines).map item ∧
      file'.sections = file.sections ++ (records sec lines).filterMap header? ∧
      Keyed file'.items ∧ (∀ r ∈ records sec lines, r.Good) ∧
      ∀ name var value, .entry name var value ∈ records sec lines →
        name = sec ∨ .header name ∈ records sec lines := by
  induction lines generalizing n file sec with
  | nil =>
    cases h
    simp [records, hk]
  | cons line lines ih =>
    have hline : 10 ∉ line := hn line (by simp)
    replace hn : ∀ line ∈ lines, 10 ∉ line := fun l hl => hn l (by simp [hl])
    rw [parseLines] at h
    cases hread : readLine line with
    | skip =>
      simp only [hread] at h
      simpa only [records, hread] using ih hs hn hk h
    | «section» name =>
      have hname := readLine_section hread
      simp only [hread] at h
      split at h
      · next hok =>
        have hnew := InsertSection_snd hname hok
        rw [InsertSection_new hname hnew] at h
        obtain ⟨hitems, hsecs, hk', hgood, hsec⟩ := ih hname hn (keyed_append_iff.mpr ⟨hk, hnew⟩) h
        simp only [records, hread]
        refine ⟨by simp [hitems, item], by simp [hsecs, header?], hk', ?_, ?_⟩
        · rintro r (_ | ⟨_, hr⟩)
          · exact hname
          · exact hgood r hr
        · rintro s v w (_ | ⟨_, hr⟩)
          rcases hsec s v w hr with rfl | hr
          · exact .inr (by simp)
          · exact .inr (by simp [hr])
      · cases h
    | entry p =>
      simp only [hread] at h
      split at h
      · cases h
      · next h0 =>
        cases p with
        | none => cases h
        | some p =>
          obtain ⟨var, value⟩ := p
          have hentry := readLine_entry hline hread
          simp only at h
          split at h
          · cases h
          · next f ok hinsert =>
            split at h
            · next hok =>
              subst hok
              have hnew := InsertVariable_snd hs h0 hentry hinsert
              rw [InsertVariable_new hs h0 hentry hnew] at hinsert
              cases hinsert
              obtain ⟨hitems, hsecs, hk', hgood, hsec⟩ :=
                ih hs hn (keyed_append_iff.mpr ⟨hk, hnew⟩) h
              simp only [records, hread]
              refine ⟨by simp [hitems, item], ?_, hk', ?_, ?_⟩
              · rw [hsecs, List.filterMap_cons_none rfl]
              · rintro r (_ | ⟨_, hr⟩)
                · exact ⟨hs, h0, hentry⟩
                · exact hgood r hr
              · rintro s v w (_ | ⟨_, hr⟩)
                · exact .inl rfl
                · exact (hsec s v w hr).imp_right fun h => List.mem_cons_of_mem _ h
            · cases h

def varItem (sec : List UInt8) (p : List UInt8 × List UInt8) : List UInt8 × List UInt8 :=
  (sec ++ 124 :: p.1, p.2)

def lineVar (line : List UInt8) : Option (List UInt8 × List UInt8) :=
  match readLine line with
  | .entry p => p
  | _ => none

def Accepted (line : List UInt8) : Prop :=
  readLine line = .skip ∨ ∃ p, readLine line = .entry (some p) ∧ Entry p.1 p.2

/-- Lines of new variables are accepted. -/
theorem parseLines_vars (hs : Single sec) (h0 : sec ≠ []) (n : ℕ) (file : IniFile)
    (vars : List (List UInt8)) (he : ∀ line ∈ vars, Accepted line)
    (hk : Keyed (file.items ++ (vars.filterMap lineVar).map (varItem sec)))
    (lines : List (List UInt8)) :
    parseLines n file sec (vars ++ lines) =
      parseLines (n + vars.length)
        { file with items := file.items ++ (vars.filterMap lineVar).map (varItem sec) } sec
        lines := by
  induction vars generalizing n file with
  | nil => simp
  | cons line vars ih =>
    simp only [List.forall_mem_cons] at he
    rw [show n + (line :: vars).length = n + 1 + vars.length by simp; omega]
    rcases he.1 with hskip | ⟨p, hp, hentry⟩
    · have hnone : lineVar line = none := by simp [lineVar, hskip]
      rw [List.filterMap_cons_none hnone] at hk ⊢
      simp only [List.cons_append, parseLines, hskip]
      exact ih (n + 1) file he.2 hk
    · have hsome : lineVar line = some p := by simp [lineVar, hp]
      have hassoc : file.items ++ ((line :: vars).filterMap lineVar).map (varItem sec) =
          (file.items ++ [varItem sec p]) ++ (vars.filterMap lineVar).map (varItem sec) := by
        simp [hsome]
      rw [hassoc] at hk ⊢
      have hnew : (find file.items (sec ++ 124 :: p.1)).isSome = false :=
        (keyed_append_iff.mp hk.of_append).2
      simp only [List.cons_append, parseLines, hp, if_neg h0,
        InsertVariable_new hs h0 hentry hnew, if_true]
      exact ih (n + 1) { file with items := file.items ++ [varItem sec p] } he.2 hk

def varsOf (rs : List Record) (sec : List UInt8) : List (List UInt8 × List UInt8) :=
  rs.filterMap (varOf sec)

def recordLines (sec : List UInt8) (r : Record) : List (List UInt8) :=
  match ItemToSectionVar r.item.1 with
  | none => []
  | some p => if inSection sec r.item.1 p.1 then [entryLine (p.2, r.item.2)] else []

def bodyLines (rs : List Record) (sec : List UInt8) : List (List UInt8) :=
  rs.flatMap (recordLines sec)

def dumpLines (rs : List Record) (sec : List UInt8) : List (List UInt8) :=
  headerLine sec :: (bodyLines rs sec ++ [[]])

def dumpItems (rs : List Record) (sec : List UInt8) : List (List UInt8 × List UInt8) :=
  (sec, []) :: ((bodyLines rs sec).filterMap lineVar).map (varItem sec)

/-- Lines of new sections are accepted. -/
theorem parseLines_dumpLines (rs : List Record) (secs : List (List UInt8))
    (hs : ∀ sec ∈ secs, Single sec ∧ sec ≠ [])
    (he : ∀ sec ∈ secs, ∀ line ∈ bodyLines rs sec, Accepted line)
    (n : ℕ) (file : IniFile) (sec : List UInt8)
    (hk : Keyed (file.items ++ secs.flatMap (dumpItems rs))) :
    parseLines n file sec (secs.flatMap (dumpLines rs)) =
      .ok
        { items := file.items ++ secs.flatMap (dumpItems rs)
          sections := file.sections ++ secs } := by
  induction secs generalizing n file sec with
  | nil => simp [parseLines]
  | cons name secs ih =>
    simp only [List.forall_mem_cons] at hs he
    obtain ⟨hname, h0⟩ := hs.1
    have hassoc : file.items ++ (name :: secs).flatMap (dumpItems rs) =
        (file.items ++ [(name, [])] ++
          ((bodyLines rs name).filterMap lineVar).map (varItem name)) ++
            secs.flatMap (dumpItems rs) := by simp [dumpItems]
    rw [hassoc] at hk ⊢
    have hvars : Keyed (file.items ++ [(name, [])] ++
        ((bodyLines rs name).filterMap lineVar).map (varItem name)) := hk.of_append
    have hnew : (find file.items name).isSome = false := (keyed_append_iff.mp hvars.of_append).2
    have hblank : readLine [] = .skip := rfl
    simp only [List.flatMap_cons, dumpLines, List.cons_append, List.append_assoc, parseLines,
      readLine_headerLine hname, InsertSection_new hname hnew, if_true]
    rw [parseLines_vars hname h0 _ _ _ he.1 hvars]
    simp only [List.nil_append, parseLines, hblank]
    rw [ih hs.2 he.2 _ _ _ hk]
    simp

/-- Records with the same items in another order -/
theorem exists_perm_of_map {α β : Type*} {f : α → β} {l : List α} {m : List β}
    (h : m.Perm (l.map f)) : ∃ l' : List α, l'.Perm l ∧ l'.map f = m := by
  induction m generalizing l with
  | nil => exact ⟨[], by simpa using h.symm, rfl⟩
  | cons b m ih =>
    obtain ⟨a, ha, rfl⟩ := List.mem_map.mp (h.subset List.mem_cons_self)
    obtain ⟨s, t, rfl⟩ := List.append_of_mem ha
    have hrest : m.Perm ((s ++ t).map f) := by
      refine (List.Perm.cons_inv (a := f a)) (h.trans ?_)
      simp
    obtain ⟨l', hl', rfl⟩ := ih hrest
    exact ⟨a :: l', (hl'.cons a).trans List.perm_middle.symm, rfl⟩

def varItems (rs : List Record) : List (List UInt8 × List UInt8) :=
  rs.filterMap fun
    | .header _ => none
    | .entry sec var value => some (sec ++ 124 :: var, value)

theorem map_item_perm (rs : List Record) :
    (rs.map item).Perm ((rs.filterMap header?).map (·, []) ++ varItems rs) := by
  induction rs with
  | nil => rfl
  | cons r rs ih =>
    cases r with
    | header name => exact ih.cons _
    | entry sec var value => exact (ih.cons _).trans List.perm_middle.symm

theorem flatMap_vars_perm {secs : List (List UInt8)} (hn : secs.Nodup) {rs : List Record}
    (h : ∀ sec var value, .entry sec var value ∈ rs → sec ∈ secs) :
    (secs.flatMap fun sec => (varsOf rs sec).map (varItem sec)).Perm (varItems rs) := by
  induction rs with
  | nil => simp [varsOf, varItems]
  | cons r rs ih =>
    replace ih := ih fun sec var value hr => h sec var value (List.mem_cons_of_mem _ hr)
    cases r with
    | header name => exact ih
    | entry sec var value =>
      obtain ⟨a, b, rfl⟩ := List.append_of_mem (h sec var value List.mem_cons_self)
      have hne : ∀ name ∈ a ++ b, sec ≠ name := by
        rintro name hname rfl
        exact (List.nodup_middle.mp hn |> List.nodup_cons.mp).1 hname
      have hvars : ∀ name ∈ a ++ b, varsOf (.entry sec var value :: rs) name = varsOf rs name :=
        fun name hname => by simp [varsOf, varOf, hne name hname]
      have hsec : varsOf (.entry sec var value :: rs) sec = (var, value) :: varsOf rs sec := by
        simp [varsOf, varOf]
      have ha : (a.flatMap fun name => (varsOf (.entry sec var value :: rs) name).map
          (varItem name)) = a.flatMap fun name => (varsOf rs name).map (varItem name) :=
        List.flatMap_congr fun name hname => by rw [hvars name (by simp [hname])]
      have hb : (b.flatMap fun name => (varsOf (.entry sec var value :: rs) name).map
          (varItem name)) = b.flatMap fun name => (varsOf rs name).map (varItem name) :=
        List.flatMap_congr fun name hname => by rw [hvars name (by simp [hname])]
      simp only [List.flatMap_append, List.flatMap_cons] at ih ⊢
      rw [ha, hb, hsec]
      simp only [List.map_cons, List.cons_append]
      exact List.perm_middle.trans (ih.cons _)

/-- The items found in a dump where every variable is found in its own section, and nothing else -/
theorem flatMap_dumpItems_perm {rs rs' : List Record} (hp : rs'.Perm rs)
    (hn : (rs.filterMap header?).Nodup)
    (h : ∀ sec var value, .entry sec var value ∈ rs → sec ∈ rs.filterMap header?)
    (hvars : ∀ sec ∈ rs.filterMap header?, (bodyLines rs' sec).filterMap lineVar = varsOf rs' sec) :
    ((rs.filterMap header?).flatMap (dumpItems rs')).Perm (rs.map item) := by
  have hitems : ((rs.filterMap header?).flatMap fun sec =>
      ((bodyLines rs' sec).filterMap lineVar).map (varItem sec)).Perm (varItems rs') := by
    rw [List.flatMap_congr fun sec hsec => by rw [hvars sec hsec]]
    exact flatMap_vars_perm hn fun sec var value hr => h sec var value (hp.subset hr)
  exact (List.map_append_flatMap_perm _ _ _).symm.trans
    (((hitems.trans (hp.filterMap _)).append_left _).trans (map_item_perm rs).symm)

def textOf (lines : List (List UInt8)) : List UInt8 := lines.flatMap (· ++ [10])

theorem getlines_textOf (h : ∀ line ∈ lines, 10 ∉ line) : getlines (textOf lines) = lines := by
  induction lines with
  | nil => rfl
  | cons line lines ih =>
    simp only [List.forall_mem_cons] at h
    have htext : textOf (line :: lines) = line ++ 10 :: textOf lines := by simp [textOf]
    rw [htext, getlines_append h.1, ih h.2]

theorem mapM_map_eq {α β γ : Type*} {h : α → β} {f : β → Option γ} {g : α → γ} {l : List α}
    (hf : ∀ a ∈ l, f (h a) = some (g a)) : (l.map h).mapM f = some (l.map g) := by
  induction l with
  | nil => rfl
  | cons a l ih =>
    simp only [List.forall_mem_cons] at hf
    simp [List.mapM_cons, hf.1, ih hf.2]

theorem mem_headers {rs : List Record} : sec ∈ rs.filterMap header? ↔ .header sec ∈ rs := by
  rw [List.mem_filterMap]
  constructor
  · rintro ⟨r, hr, hname⟩
    cases r with
    | header name => rwa [← Option.some.inj hname]
    | entry _ _ _ => cases hname
  · exact fun h => ⟨_, h, rfl⟩

theorem ItemToSectionVar_entry (hs : 124 ∉ sec) (hv : 124 ∉ var) (h0 : sec ≠ []) (hv0 : var ≠ []) :
    ItemToSectionVar (sec ++ 124 :: var) = some (sec, var) := by
  simp only [ItemToSectionVar, StringTokenize_pair hs hv h0 hv0]

theorem inSection_self (sec var : List UInt8) : inSection sec (sec ++ 124 :: var) sec := by
  simp [inSection, sameString]

theorem dumpItem_item (sec : List UInt8) {r : Record} (h : (ItemToSectionVar r.item.1).isSome) :
    dumpItem sec r.item = some (textOf (recordLines sec r)) := by
  obtain ⟨p, hp⟩ := Option.isSome_iff_exists.mp h
  simp only [dumpItem, recordLines, hp, Option.bind_eq_bind, Option.bind_some]
  split
  · simp [textOf, entryLine]
  · rfl

/-- Where all items are split, their lines are dumped. -/
theorem Dump_eq {rs : List Record} (h : ∀ r ∈ rs, (ItemToSectionVar r.item.1).isSome) :
    Dump file (rs.map item) = some (textOf (file.sections.flatMap (dumpLines rs))) := by
  have hsection : ∀ sec ∈ file.sections,
      dumpSection (rs.map item) sec = some (textOf (dumpLines rs sec)) := by
    intro sec _
    have hitems := mapM_map_eq fun r hr => dumpItem_item sec (h r hr)
    have hflat : (rs.map fun r => textOf (recordLines sec r)).flatten =
        textOf (bodyLines rs sec) := by
      rw [← List.flatMap_def, textOf, bodyLines, List.flatMap_assoc]
      rfl
    simp only [dumpSection, hitems, Option.bind_eq_bind, Option.bind_some, hflat]
    simp [textOf, dumpLines, headerLine]
  have hsections := mapM_map_eq (h := id) hsection
  rw [List.map_id] at hsections
  simp only [Dump, hsections, Option.bind_eq_bind, Option.bind_some]
  rw [← List.flatMap_def, textOf, List.flatMap_assoc]
  rfl

/-- A line of a variable is dumped in its section. -/
theorem recordLines_entry (hs : 124 ∉ sec) (hv : 124 ∉ var) (h0 : sec ≠ []) (hv0 : var ≠ [])
    (value : List UInt8) : recordLines sec (.entry sec var value) = [entryLine (var, value)] := by
  simp only [recordLines, item, ItemToSectionVar_entry hs hv h0 hv0, inSection_self, if_true]

theorem varOf_eq_none {r : Record} (h : ∀ var value, r ≠ .entry sec var value) :
    r.varOf sec = none := by
  cases r with
  | header name => rfl
  | entry name var value =>
    have hne : name ≠ sec := by
      rintro rfl
      exact h var value rfl
    simp [varOf, hne]

theorem ItemToSectionVar_mem {it : List UInt8} {p : List UInt8 × List UInt8}
    (h : ItemToSectionVar it = some p) :
    (∀ c ∈ p.1, c ∈ it ∧ c ≠ 124) ∧ ∀ c ∈ p.2, c ∈ it ∧ c ≠ 124 := by
  have hmem : ∀ x ∈ StringTokenize it 124, ∀ c ∈ x, c ∈ it ∧ c ≠ 124 := fun x hx c hc =>
    (mem_of_mem_tokenize hx hc).resolve_left List.not_mem_nil
  rw [ItemToSectionVar] at h
  split at h
  · next htokens =>
    cases h
    exact ⟨hmem _ (by simp [htokens]), by simp⟩
  · next htokens =>
    cases h
    exact ⟨hmem _ (by simp [htokens]), hmem _ (by simp [htokens])⟩
  · cases h

theorem Record.Good.newline {r : Record} (h : r.Good) : 10 ∉ r.item.1 ∧ 10 ∉ r.item.2 := by
  cases r with
  | header name => exact ⟨Single.newline h, by simp [item]⟩
  | entry sec var value =>
    obtain ⟨hs, -, he⟩ := h
    exact ⟨by simp [item, hs.newline, he.newline.1], he.newline.2⟩

/-- Dumped lines have no end of a line. -/
theorem dumpLines_newline {rs : List Record} (hgood : ∀ r ∈ rs, r.Good) (hs : Single sec)
    (hline : line ∈ dumpLines rs sec) : 10 ∉ line := by
  simp only [dumpLines, List.mem_cons, List.mem_append, List.not_mem_nil, or_false] at hline
  rcases hline with rfl | hline | rfl
  · simp [headerLine, hs.newline]
  · obtain ⟨r, hr, hline⟩ := List.mem_flatMap.mp hline
    have hn := (hgood r hr).newline
    rw [recordLines] at hline
    split at hline
    · cases hline
    · next p hp =>
      split at hline
      · have hvar : 10 ∉ p.2 := fun h => hn.1 ((ItemToSectionVar_mem hp).2 _ h).1
        rw [List.mem_singleton.mp hline]
        simp [entryLine, hvar, hn.2]
      · cases hline
  · simp

end OISA.Cpp.IniFile
