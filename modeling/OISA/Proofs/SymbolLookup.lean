import OISA.Cpp.ELFReader

/-!
# Symbols by address

The binary search ends at a symbol with the greatest value that is not above the address, and
the loop backwards takes the first local, global or weak symbol of that value.
-/

namespace OISA.Cpp.ELFReader

def Before (a b : TableSymbol) : Prop := Compare b a = false

lemma before_iff {a b : TableSymbol} : Before a b ↔ a.st_value < b.st_value ∨
    a.st_value = b.st_value ∧ (ELF32_ST_BIND a.st_info < ELF32_ST_BIND b.st_info ∨
      ELF32_ST_BIND a.st_info = ELF32_ST_BIND b.st_info ∧ a.name ≤ b.name) := by
  unfold Before Compare
  dsimp only
  rcases lt_trichotomy b.st_value a.st_value with h | h | h
  · rw [if_pos h]
    simp only [Bool.true_eq_false, false_iff]
    omega
  · rw [if_neg h.not_lt, if_neg h.not_gt]
    rcases lt_trichotomy (ELF32_ST_BIND b.st_info) (ELF32_ST_BIND a.st_info) with hb | hb | hb
    · rw [if_pos hb]
      simp only [Bool.true_eq_false, false_iff]
      omega
    · rw [if_neg hb.not_lt, if_neg hb.not_gt, decide_eq_false_iff_not, List.not_lt]
      refine ⟨fun hname => .inr ⟨h.symm, .inr ⟨hb.symm, hname⟩⟩, ?_⟩
      rintro (hlt | ⟨-, hlt | ⟨-, hname⟩⟩)
      · omega
      · omega
      · exact hname
    · rw [if_neg (not_lt.mpr hb.le), if_pos hb]
      exact iff_of_true rfl (.inr ⟨h.symm, .inl hb⟩)
  · rw [if_neg (not_lt.mpr h.le), if_pos h]
    exact iff_of_true rfl (.inl h)

lemma Before.value_le {a b : TableSymbol} (h : Before a b) : a.st_value ≤ b.st_value := by
  rcases before_iff.mp h with hlt | ⟨heq, -⟩
  · exact hlt.le
  · exact heq.le

lemma Before.bind_le {a b : TableSymbol} (h : Before a b) (hvalue : a.st_value = b.st_value) :
    ELF32_ST_BIND a.st_info ≤ ELF32_ST_BIND b.st_info := by
  rcases before_iff.mp h with hlt | ⟨-, hlt | ⟨heq, -⟩⟩
  · omega
  · exact hlt.le
  · exact heq.le

lemma Before.refl (a : TableSymbol) : Before a a :=
  before_iff.mpr (.inr ⟨rfl, .inr ⟨rfl, List.le_refl _⟩⟩)

lemma Before.trans {a b c : TableSymbol} (hab : Before a b) (hbc : Before b c) : Before a c := by
  rw [before_iff] at *
  rcases hab with h | ⟨h, h' | ⟨h', h''⟩⟩ <;> rcases hbc with k | ⟨k, k' | ⟨k', k''⟩⟩
  all_goals try (left; omega)
  all_goals right; refine ⟨by omega, ?_⟩
  all_goals try (left; omega)
  exact .inr ⟨h'.trans k', List.le_trans h'' k''⟩

lemma before_total (a b : TableSymbol) : Before a b ∨ Before b a := by
  rw [before_iff, before_iff]
  rcases List.le_total a.name b.name with h | h
  · by_cases hvalue : a.st_value = b.st_value <;>
      by_cases hbind : ELF32_ST_BIND a.st_info = ELF32_ST_BIND b.st_info
    · exact .inl (.inr ⟨hvalue, .inr ⟨hbind, h⟩⟩)
    all_goals omega
  · by_cases hvalue : a.st_value = b.st_value <;>
      by_cases hbind : ELF32_ST_BIND a.st_info = ELF32_ST_BIND b.st_info
    · exact .inr (.inr ⟨hvalue.symm, .inr ⟨hbind.symm, h⟩⟩)
    all_goals omega

def SymbolTable.ofSymbols (symbols : List TableSymbol) : SymbolTable where
  symbols := symbols.mergeSort fun a b => !Compare b a
  sorted := by
    have hsorted := @List.pairwise_mergeSort _ (fun a b => !Compare b a)
      (fun a b c hab hbc => by
        rw [Bool.not_eq_true'] at *
        exact Before.trans hab hbc)
      (fun a b => by
        rw [Bool.or_eq_true, Bool.not_eq_true', Bool.not_eq_true']
        exact before_total a b) symbols
    exact hsorted.imp fun h => by rwa [Bool.not_eq_true'] at h

variable {table : SymbolTable}

lemma before_of_le {i j : ℕ} (hij : i ≤ j) {a b : TableSymbol} (ha : table.symbols[i]? = some a)
    (hb : table.symbols[j]? = some b) : Before a b := by
  obtain ⟨hi, rfl⟩ := List.getElem?_eq_some_iff.mp ha
  obtain ⟨hj, rfl⟩ := List.getElem?_eq_some_iff.mp hb
  rcases hij.eq_or_lt with rfl | hlt
  · exact .refl _
  · exact List.pairwise_iff_getElem.mp table.sorted i j hi hj hlt

def Above (table : SymbolTable) (address max : ℕ) : Prop :=
  ∀ s, table.symbols[max]? = some s → address < s.st_value

lemma search_spec (table : SymbolTable) (address : ℕ) (n : ℕ) : ∀ min max : ℕ, max - min ≤ n → min < max →
    max ≤ table.symbols.length →
    (∀ s, table.symbols[min]? = some s → s.st_value ≤ address) → Above table address max →
    ∃ found symbol, search table.symbols address min max = some found ∧
      table.symbols[found]? = some symbol ∧ symbol.st_value ≤ address ∧
      ∀ t ∈ table.symbols, t.st_value ≤ address → t.st_value ≤ symbol.st_value := by
  induction n with
  | zero => intro min max hn hlt; omega
  | succ n ih =>
    intro min max hn hlt hmax hmin habove
    rw [search]
    by_cases hmore : min + 1 < max
    · rw [if_pos hmore]
      dsimp only
      have hmid : (max + min) / 2 < table.symbols.length := by omega
      rw [List.getElem?_eq_getElem hmid]
      dsimp only
      by_cases hgreater : address < table.symbols[(max + min) / 2].st_value
      · rw [if_pos hgreater]
        refine ih min _ (by omega) (by omega) (by omega) hmin fun s hs => ?_
        rw [List.getElem?_eq_getElem hmid, Option.some.injEq] at hs
        rwa [← hs]
      rw [if_neg hgreater]
      by_cases hless : table.symbols[(max + min) / 2].st_value < address
      · rw [if_pos hless]
        refine ih _ max (by omega) (by omega) hmax (fun s hs => ?_) habove
        rw [List.getElem?_eq_getElem hmid, Option.some.injEq] at hs
        rw [← hs]
        exact hless.le
      · rw [if_neg hless]
        exact ⟨_, _, rfl, List.getElem?_eq_getElem hmid, not_lt.mp hgreater,
          fun t _ ht => ht.trans (not_lt.mp hless)⟩
    · rw [if_neg hmore]
      have hin : min < table.symbols.length := by omega
      have hget := List.getElem?_eq_getElem hin
      refine ⟨min, _, rfl, hget, hmin _ hget, fun t ht hvalue => ?_⟩
      obtain ⟨j, hj⟩ := List.getElem?_of_mem ht
      rcases le_or_gt j min with hle | hgt
      · exact (before_of_le hle hj hget).value_le
      · -- a later symbol is above the address
        have hlast : min + 1 = max := by omega
        obtain ⟨hjlt, -⟩ := List.getElem?_eq_some_iff.mp hj
        have hnext := List.getElem?_eq_getElem (show min + 1 < table.symbols.length by omega)
        have hover := habove _ (by rw [← hlast]; exact hnext)
        have hle := (before_of_le (show min + 1 ≤ j by omega) hnext hj).value_le
        omega

/-- Among the symbols of its value from an index on, the symbol comes first if one of the two is
local, global or weak. -/
def FirstFrom (table : SymbolTable) (n : ℕ) (symbol : TableSymbol) : Prop :=
  ∀ j t, n ≤ j → table.symbols[j]? = some t → t.st_value = symbol.st_value →
    ELF32_ST_BIND t.st_info < 3 ∨ ELF32_ST_BIND symbol.st_info < 3 → Before symbol t

lemma backwards_spec (n : ℕ) : ∀ {symbol : TableSymbol} {c : ℕ}, n ≤ c →
    table.symbols[c]? = some symbol → FirstFrom table n symbol →
    ∃ found, backwards table.symbols symbol n = some found ∧ found ∈ table.symbols ∧
      found.st_value = symbol.st_value ∧ FirstFrom table 0 found := by
  induction n with
  | zero =>
    intro symbol c _ hc hfirst
    exact ⟨symbol, rfl, List.mem_of_getElem? hc, rfl, hfirst⟩
  | succ min ih =>
    intro symbol c hle hc hfirst
    obtain ⟨hlt, -⟩ := List.getElem?_eq_some_iff.mp hc
    obtain ⟨prev, hprev⟩ : ∃ prev, table.symbols[min]? = some prev :=
      ⟨_, List.getElem?_eq_getElem (by omega)⟩
    have hbefore := before_of_le (by omega : min ≤ c) hprev hc
    rw [backwards, hprev]
    dsimp only
    by_cases hvalue : prev.st_value = symbol.st_value
    swap
    · -- every symbol up to the previous one has a lower value
      rw [if_pos hvalue]
      refine ⟨symbol, rfl, List.mem_of_getElem? hc, rfl, fun j t _ ht heq hor => ?_⟩
      by_cases hj : min + 1 ≤ j
      · exact hfirst j t hj ht heq hor
      · have hlow := (before_of_le (by omega : j ≤ min) ht hprev).value_le
        have hhigh := hbefore.value_le
        omega
    rw [if_neg (not_not.mpr hvalue)]
    by_cases hbind : ELF32_ST_BIND prev.st_info < 3
    · rw [if_pos hbind]
      obtain ⟨found, hfound, hmem, heq, hall⟩ := ih le_rfl hprev fun j t hj ht _ _ =>
        before_of_le hj hprev ht
      exact ⟨found, hfound, hmem, heq.trans hvalue, hall⟩
    · rw [if_neg hbind]
      refine ih (by omega) hc fun j t hj ht heq hor => ?_
      rcases hj.eq_or_lt with rfl | hj
      · -- the symbol that is passed has another binding, and so has the one that is kept
        obtain rfl : prev = t := Option.some.inj (hprev.symm.trans ht)
        have hle := hbefore.bind_le hvalue
        omega
      · exact hfirst j t hj ht heq hor

/-- **Symbols by address**: the result has the greatest value not above the address, if that is not
zero, and is the first such symbol, if one of them is local, global or weak. -/
theorem getSymbolByAddress_spec (table : SymbolTable) (address : ℕ) :
    ∃ result, getSymbolByAddress table address = some result ∧
      match result with
      | none => ∀ t ∈ table.symbols, t.st_value ≤ address → t.st_value = 0
      | some (symbol, offset) =>
        symbol ∈ table.symbols ∧ symbol.st_value ≠ 0 ∧ symbol.st_value ≤ address ∧
          (∀ t ∈ table.symbols, t.st_value ≤ address → t.st_value ≤ symbol.st_value) ∧
          offset = address - symbol.st_value ∧
          ((∃ t ∈ table.symbols, t.st_value = symbol.st_value ∧ ELF32_ST_BIND t.st_info < 3) →
            ∀ t ∈ table.symbols, t.st_value = symbol.st_value → Compare t symbol = false) := by
  unfold getSymbolByAddress
  cases hfirst : table.symbols[0]? with
  | none =>
    have hnil : table.symbols = [] := by
      rw [List.getElem?_eq_none_iff] at hfirst
      exact List.length_eq_zero_iff.mp (by omega)
    refine ⟨none, rfl, fun t ht => ?_⟩
    rw [hnil] at ht
    cases ht
  | some first =>
    dsimp only
    by_cases hlow : address < first.st_value
    · rw [if_pos hlow]
      refine ⟨none, rfl, fun t ht hvalue => ?_⟩
      obtain ⟨j, hj⟩ := List.getElem?_of_mem ht
      have hle := (before_of_le (Nat.zero_le j) hfirst hj).value_le
      omega
    rw [if_neg hlow]
    obtain ⟨hpos, -⟩ := List.getElem?_eq_some_iff.mp hfirst
    obtain ⟨min, symbol, hsearch, hget, hvalue, hmax⟩ := search_spec table address _ 0
      table.symbols.length le_rfl hpos le_rfl
      (fun s hs => by
        rw [hfirst, Option.some.injEq] at hs
        rw [← hs]
        exact not_lt.mp hlow)
      (fun s hs => by
        rw [List.getElem?_eq_none le_rfl] at hs
        cases hs)
    rw [hsearch, Option.bind_eq_bind, Option.bind_some, hget, Option.bind_eq_bind,
      Option.bind_some]
    by_cases hzero : symbol.st_value = 0
    · rw [if_pos hzero]
      refine ⟨none, rfl, fun t ht hle => ?_⟩
      have hle' := hmax t ht hle
      omega
    rw [if_neg hzero]
    obtain ⟨found, hfound, hmem, heq, hall⟩ := backwards_spec min le_rfl hget
      fun j t hj ht _ _ => before_of_le hj hget ht
    rw [hfound]
    refine ⟨some (found, address - found.st_value), rfl, hmem, heq ▸ hzero, heq ▸ hvalue,
      fun t ht hle => heq ▸ hmax t ht hle, rfl, ?_⟩
    rintro ⟨t₀, ht₀, hvalue₀, hbind₀⟩ t ht hvalue'
    obtain ⟨j₀, hj₀⟩ := List.getElem?_of_mem ht₀
    obtain ⟨j, hj⟩ := List.getElem?_of_mem ht
    have hbefore := hall j₀ t₀ (Nat.zero_le _) hj₀ hvalue₀ (.inl hbind₀)
    have hbind : ELF32_ST_BIND found.st_info < 3 :=
      (hbefore.bind_le hvalue₀.symm).trans_lt hbind₀
    exact hall j t (Nat.zero_le _) hj hvalue' (.inr hbind)

/-- Two symbols of one value with a processor-specific binding: the search finds the second. -/
theorem not_getSymbolByAddress_first : ¬∀ (table : SymbolTable) (address : ℕ)
    (symbol : TableSymbol) (offset : ℕ),
    getSymbolByAddress table address = some (some (symbol, offset)) →
    ∀ t ∈ table.symbols, t.st_value = symbol.st_value → Compare t symbol = false := by
  intro h
  have hfirst := h ⟨[⟨16, 0xd0, [97]⟩, ⟨16, 0xd0, [98]⟩], by decide⟩ 16 ⟨16, 0xd0, [98]⟩ 0
    (by decide +kernel) ⟨16, 0xd0, [97]⟩ (by decide) rfl
  exact absurd hfirst (by decide)

end OISA.Cpp.ELFReader
