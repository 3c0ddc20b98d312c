import Mathlib.Data.BitVec
import Mathlib.Data.Nat.Digits.Lemmas
import Mathlib.Data.List.Forall2
import OISA.Cpp.String

/-!
# Which integers are converted right

The documented form of an integer, with the number that it denotes, against `StringToInt` and
`StringToInt64`.
-/

namespace OISA.Cpp

def IsDigit (base : ℕ) (c : UInt8) (d : ℕ) : Prop :=
  d < base ∧ (d < 10 ∧ c.toNat = 48 + d ∨ 10 ≤ d ∧ (c.toNat = 87 + d ∨ c.toNat = 55 + d))

def Digits (base : ℕ) : List UInt8 → List ℕ → Prop := List.Forall₂ (IsDigit base)

def value (base : ℕ) (ds : List ℕ) : ℕ := Nat.ofDigits base ds.reverse

inductive Sign : List UInt8 → ℤ → Prop
  | none : Sign [] 1
  | plus : Sign [43] 1
  | minus : Sign [45] (-1)

inductive Suffix : List UInt8 → ℕ → Prop
  | none : Suffix [] 1
  | letter {c : UInt8} {factor : ℕ} (h : suffixFactor c = some factor) : Suffix [c] factor

/-- What may follow the sign, with the number that it denotes. -/
inductive Magnitude : List UInt8 → ℕ → Prop
  | hex {cs ds} (hn : cs ≠ []) (hd : Digits 16 cs ds) : Magnitude (48 :: 120 :: cs) (value 16 ds)
  | octal {cs ds} (hn : cs ≠ []) (hd : Digits 8 cs ds) : Magnitude (48 :: cs) (value 8 ds)
  | decimal {cs ds sf factor} (hn : cs ≠ []) (hd : Digits 10 cs ds) (hf : Suffix sf factor)
      (h0 : cs.head? = some 48 → cs ++ sf = [48]) : Magnitude (cs ++ sf) (value 10 ds * factor)

inductive Literal : List UInt8 → ℤ → Prop
  | mk {sg s} {sign : ℤ} {n : ℕ} (hs : Sign sg sign) (hm : Magnitude s n) :
      Literal (sg ++ s) (sign * n)

/-- The conversion is as documented: the number, or a range error if it does not fit, for an
integer in the documented form, and an error for every other string -/
def Parses (fmt : IntFormat) (s : List UInt8) (outcome : Option (Except StringError ℤ)) : Prop :=
  (∀ n, Literal (StringTrim s) n →
    outcome = some (if fmt.Fits n then .ok n else .error .Range)) ∧
  ((∀ n, ¬Literal (StringTrim s) n) → ∃ error, outcome = some (.error error))

/-- The first step over the digits `cs` that leaves the format, if any does, is one that the test
in front of the multiplication finds. -/
def Detected (fmt : IntFormat) (base : ℕ) : List UInt8 → ℕ → Prop
  | [], _ => True
  | c :: s, n =>
    match StringDigitToInt c base with
    | .error _ => True
    | .ok d =>
      if n * base + d ≤ fmt.max then Detected fmt base s (n * base + d)
      else fmt.umax < n % 2 ^ 32 * base

/-- The condition on the digits and the factor of a string -/
def Covered (fmt : IntFormat) (s : List UInt8) : Prop :=
  let (sign, s) := takeSign (StringTrim s)
  let (base, s) := takeBase s
  let (factor, digits) := takeFactor base s
  s = [] ∨ digits ≠ [] ∧ (sign = 1 → Detected fmt base digits 0 ∧
    ∀ ds, Digits base digits ds → value base ds ≤ fmt.max →
      value base ds * factor ≤ fmt.max ∨ fmt.umax < value base ds % 2 ^ 32 * factor)

section
variable {fmt : IntFormat} {base factor n : ℕ} {c : UInt8} {s cs : List UInt8} {ds : List ℕ}

lemma tolower_toNat (c : UInt8) :
    (tolower c).toNat = if 65 ≤ c.toNat ∧ c.toNat ≤ 90 then c.toNat + 32 else c.toNat := by
  unfold tolower
  by_cases h : 65 ≤ c ∧ c ≤ 90
  · have h65 : 65 ≤ c.toNat := h.1
    have h90 : c.toNat ≤ 90 := h.2
    rw [if_pos h, if_pos ⟨h65, h90⟩, UInt8.toNat_add]
    change (c.toNat + 32) % 2 ^ 8 = _
    omega
  · rw [if_neg h, if_neg fun h' => h ⟨h'.1, h'.2⟩]

def IsBase (base : ℕ) : Prop := base = 8 ∨ base = 10 ∨ base = 16

lemma StringDigitToInt_eq_ok (hb : IsBase base) {d : ℕ} :
    StringDigitToInt c base = .ok d ↔ IsDigit base c d := by
  have hl := tolower_toNat c
  have hvalid : ¬(base ≠ 2 ∧ base ≠ 8 ∧ base ≠ 10 ∧ base ≠ 16) := by unfold IsBase at hb; tauto
  have h16 : base ≤ 16 := by unfold IsBase at hb; omega
  unfold StringDigitToInt IsDigit
  rw [if_neg hvalid]
  dsimp only
  have hdec : 48 ≤ tolower c ∧ tolower c ≤ 57 ↔
      48 ≤ (tolower c).toNat ∧ (tolower c).toNat ≤ 57 := Iff.rfl
  have hhex : 97 ≤ tolower c ∧ tolower c ≤ 102 ↔
      97 ≤ (tolower c).toNat ∧ (tolower c).toNat ≤ 102 := Iff.rfl
  rw [hl] at hdec hhex
  rw [hl]
  split_ifs <;> simp only [Except.ok.injEq, false_iff] <;> grind

lemma StringDigitToInt_cases (hb : IsBase base) (c : UInt8) :
    (∃ d, IsDigit base c d ∧ StringDigitToInt c base = .ok d) ∨
      (∀ d, ¬IsDigit base c d) ∧ ∃ error, StringDigitToInt c base = .error error := by
  cases h : StringDigitToInt c base with
  | error error =>
    refine .inr ⟨fun d hd => ?_, error, rfl⟩
    rw [(StringDigitToInt_eq_ok hb).mpr hd] at h
    cases h
  | ok d => exact .inl ⟨d, (StringDigitToInt_eq_ok hb).mp h, rfl⟩

lemma IsBase.pos (hb : IsBase base) : 0 < base := by unfold IsBase at hb; omega

lemma IsBase.le (hb : IsBase base) : base ≤ 16 := by unfold IsBase at hb; omega

lemma fits_natCast : fmt.Fits (n : ℤ) ↔ n ≤ fmt.max := by
  unfold IntFormat.Fits IntFormat.min
  omega

lemma fits_neg : fmt.Fits (-(n : ℤ)) ↔ n ≤ fmt.max + 1 := by
  unfold IntFormat.Fits IntFormat.min
  omega

lemma tdiv_min (m : ℕ) : fmt.min.tdiv m = -(((fmt.max + 1) / m : ℕ) : ℤ) := by
  have h : fmt.min = -((fmt.max + 1 : ℕ) : ℤ) := by unfold IntFormat.min; push_cast; ring
  rw [h, Int.neg_tdiv, Int.ofNat_tdiv]

lemma scale_neg {m : ℕ} (hm : 0 < m) :
    scale fmt (-1) m (-n) = some (if n * m ≤ fmt.max + 1 then .ok (-(n * m : ℕ)) else
      .error .Range) := by
  have hdiv : (fmt.max + 1) / m < n ↔ fmt.max + 1 < n * m := Nat.div_lt_iff_lt_mul hm
  have hr : -(n : ℤ) * m = -(n * m : ℕ) := by push_cast; ring
  unfold scale
  rw [tdiv_min, hr]
  by_cases h : n * m ≤ fmt.max + 1
  · rw [if_neg (by omega), if_neg (by omega), if_pos (fits_neg.mpr h), if_pos h]
  · rw [if_pos (by omega), if_neg h]

lemma addDigit_neg {d : ℕ} :
    addDigit fmt (-1) d (-n) = some (if n + d ≤ fmt.max + 1 then .ok (-(n + d : ℕ)) else
      .error .Range) := by
  have hr : -(n : ℤ) + d * -1 = -(n + d : ℕ) := by push_cast; ring
  have hmin : fmt.min = -fmt.max - 1 := rfl
  unfold addDigit
  rw [hr]
  by_cases h : n + d ≤ fmt.max + 1
  · rw [if_neg (by omega), if_neg (by omega), if_pos (fits_neg.mpr h), if_pos h]
  · rw [if_pos (by omega), if_neg h]

lemma scale_pos {m : ℕ} (hm : 0 < m) :
    scale fmt 1 m n = if n * m ≤ fmt.max then some (.ok (n * m : ℕ))
      else if fmt.umax < n % 2 ^ 32 * m then some (.error .Range) else none := by
  have hdiv : fmt.umax / m < n % 2 ^ 32 ↔ fmt.umax < n % 2 ^ 32 * m := Nat.div_lt_iff_lt_mul hm
  have hcast : ((fmt.umax : ℤ) / m) < (n : ℤ) % 2 ^ 32 ↔ fmt.umax / m < n % 2 ^ 32 := by
    norm_cast
  have hmod : n % 2 ^ 32 * m ≤ n * m := Nat.mul_le_mul_right m (Nat.mod_le n _)
  have hroom := fmt.room
  unfold scale
  rw [if_neg (by omega), ← Nat.cast_mul]
  by_cases h : n * m ≤ fmt.max
  · rw [if_neg (by omega), if_pos (fits_natCast.mpr h), if_pos h]
  · rw [if_neg h]
    by_cases hu : fmt.umax < n % 2 ^ 32 * m
    · rw [if_pos (by omega), if_pos hu]
    · rw [if_neg (by omega), if_neg (mt fits_natCast.mp h), if_neg hu]

lemma addDigit_pos {d : ℕ} (hd : d < 16) (hn : n ≤ fmt.max) :
    addDigit fmt 1 d n = if n + d ≤ fmt.max then some (.ok (n + d : ℕ)) else none := by
  have hr : (n : ℤ) + d * 1 = (n + d : ℕ) := by push_cast; ring
  have hroom := fmt.room
  unfold addDigit
  rw [hr, if_neg (by omega), if_neg (by omega)]
  by_cases h : n + d ≤ fmt.max
  · rw [if_pos (fits_natCast.mpr h), if_pos h]
  · rw [if_neg (mt fits_natCast.mp h), if_neg h]

def accumulate (base n : ℕ) (ds : List ℕ) : ℕ := ds.foldl (fun n d => n * base + d) n

lemma value_eq (base : ℕ) (ds : List ℕ) : value base ds = accumulate base 0 ds := by
  unfold value accumulate
  rw [Nat.ofDigits_eq_foldr, List.foldr_reverse]
  congr 1
  funext n d
  simp [Nat.add_comm, Nat.mul_comm]

lemma le_accumulate (hb : 0 < base) (ds : List ℕ) (n : ℕ) : n ≤ accumulate base n ds := by
  induction ds generalizing n with
  | nil => exact le_rfl
  | cons d ds ih =>
    calc n ≤ n * base := Nat.le_mul_of_pos_right n hb
      _ ≤ n * base + d := Nat.le_add_right _ d
      _ ≤ accumulate base n (d :: ds) := ih _

/-- What a conversion should give for the digits `cs`, of which `number` is the number -/
def Meets (fmt : IntFormat) (base : ℕ) (cs : List UInt8) (number : List ℕ → ℤ)
    (outcome : Option (Except StringError ℤ)) : Prop :=
  (∀ ds, Digits base cs ds →
    outcome = some (if fmt.Fits (number ds) then .ok (number ds) else .error .Range)) ∧
  ((∀ ds, ¬Digits base cs ds) → ∃ error, outcome = some (.error error))

lemma Meets.ne_none {number : List ℕ → ℤ} {outcome : Option (Except StringError ℤ)}
    (h : Meets fmt base cs number outcome) : outcome ≠ none := by
  by_cases hd : ∃ ds, Digits base cs ds
  · obtain ⟨ds, hd⟩ := hd
    rw [h.1 ds hd]
    exact Option.some_ne_none _
  · obtain ⟨error, he⟩ := h.2 (not_exists.mp hd)
    rw [he]
    exact Option.some_ne_none _

lemma Meets.nil {number : List ℕ → ℤ} (h : fmt.Fits (number [])) :
    Meets fmt base [] number (some (.ok (number []))) := by
  refine ⟨fun ds hd => ?_, fun hd => absurd .nil (hd [])⟩
  cases hd
  rw [if_pos h]

lemma Meets.cons {number : List ℕ → ℤ} {outcome : Option (Except StringError ℤ)} {d : ℕ}
    (hb : IsBase base) (hd : IsDigit base c d)
    (h : Meets fmt base cs (fun ds => number (d :: ds)) outcome) :
    Meets fmt base (c :: cs) number outcome := by
  refine ⟨fun es he => ?_, fun hn => h.2 fun ds hds => hn _ (.cons hd hds)⟩
  cases he with
  | cons hd' he' =>
    have heq := ((StringDigitToInt_eq_ok hb).mpr hd).symm.trans ((StringDigitToInt_eq_ok hb).mpr hd')
    rw [← Except.ok.inj heq]
    exact h.1 _ he'

lemma Meets.of_not_digit {number : List ℕ → ℤ} {error : StringError}
    (hd : ∀ d, ¬IsDigit base c d) : Meets fmt base (c :: cs) number (some (.error error)) := by
  refine ⟨fun ds h => ?_, fun _ => ⟨error, rfl⟩⟩
  cases h with
  | cons h _ => exact absurd h (hd _)

lemma Meets.of_range {number : List ℕ → ℤ} (h : ∀ ds, ¬fmt.Fits (number ds)) :
    Meets fmt base cs number (some (.error .Range)) :=
  ⟨fun ds _ => by rw [if_neg (h ds)], fun _ => ⟨.Range, rfl⟩⟩

lemma convertDigits_neg (fmt : IntFormat) (hb : IsBase base) (cs : List UInt8) (hn : n ≤ fmt.max + 1) :
    Meets fmt base cs (fun ds => -(accumulate base n ds : ℤ))
      (convertDigits fmt (-1) base cs (-n)) := by
  induction cs generalizing n with
  | nil => exact .nil (fits_neg.mpr hn)
  | cons c cs ih =>
    have hrange {d : ℕ} (h : ¬n * base + d ≤ fmt.max + 1) (ds : List ℕ) :
        ¬fmt.Fits (-(accumulate base n (d :: ds) : ℤ)) := by
      rw [fits_neg]
      exact fun h' => h ((le_accumulate hb.pos ds _).trans h')
    unfold convertDigits
    obtain ⟨d, hd, hok⟩ | ⟨hd, error, herr⟩ := StringDigitToInt_cases hb c
    · rw [hok]
      dsimp only
      rw [scale_neg hb.pos]
      refine .cons hb hd ?_
      by_cases hm : n * base ≤ fmt.max + 1
      · rw [if_pos hm]
        dsimp only
        rw [addDigit_neg]
        by_cases ha : n * base + d ≤ fmt.max + 1
        · rw [if_pos ha]
          exact ih ha
        · rw [if_neg ha]
          exact .of_range (hrange ha)
      · rw [if_neg hm]
        exact .of_range (hrange (by omega))
    · rw [herr]
      exact .of_not_digit hd

lemma convertDigits_pos (fmt : IntFormat) (hb : IsBase base) (cs : List UInt8) (hn : n ≤ fmt.max) :
    (Detected fmt base cs n → Meets fmt base cs (fun ds => (accumulate base n ds : ℤ))
      (convertDigits fmt 1 base cs n)) ∧
    (¬Detected fmt base cs n → convertDigits fmt 1 base cs n = none) := by
  induction cs generalizing n with
  | nil => exact ⟨fun _ => .nil (fits_natCast.mpr hn), fun h => absurd trivial h⟩
  | cons c cs ih =>
    unfold convertDigits Detected
    obtain ⟨d, hd, hok⟩ | ⟨hd, error, herr⟩ := StringDigitToInt_cases hb c
    · have hd16 : d < 16 := hd.1.trans_le hb.le
      have hmod : n % 2 ^ 32 * base ≤ n * base := Nat.mul_le_mul_right base (Nat.mod_le n _)
      have hroom := fmt.room
      rw [hok]
      dsimp only
      rw [scale_pos hb.pos]
      by_cases ha : n * base + d ≤ fmt.max
      · rw [if_pos ha, if_pos (by omega)]
        dsimp only
        rw [addDigit_pos hd16 (by omega), if_pos ha]
        exact ⟨fun h => .cons hb hd ((ih ha).1 h), (ih ha).2⟩
      · rw [if_neg ha]
        constructor
        · intro hu
          rw [if_neg (by omega), if_pos hu]
          refine .cons hb hd (.of_range fun ds => ?_)
          rw [fits_natCast]
          exact fun h' => ha ((le_accumulate hb.pos ds _).trans h')
        · intro hu
          by_cases hm : n * base ≤ fmt.max
          · rw [if_pos hm]
            dsimp only
            rw [addDigit_pos hd16 hm, if_neg ha]
          · rw [if_neg hm, if_neg hu]
    · rw [herr]
      exact ⟨fun _ => .of_not_digit hd, fun h => absurd trivial h⟩

lemma isDigit_zero (hb : IsBase base) : IsDigit base 48 0 :=
  ⟨hb.pos, .inl ⟨by decide, rfl⟩⟩

lemma digits_zero (hb : IsBase base) :
    Digits base (48 :: cs) ds ↔ ∃ es, Digits base cs es ∧ ds = 0 :: es := by
  constructor
  · intro h
    cases h with
    | cons h he =>
      have heq := ((StringDigitToInt_eq_ok hb).mpr h).symm.trans
        ((StringDigitToInt_eq_ok hb).mpr (isDigit_zero hb))
      exact ⟨_, he, by rw [Except.ok.inj heq]⟩
  · rintro ⟨es, he, rfl⟩
    exact .cons (isDigit_zero hb) he

lemma accumulate_zero (base : ℕ) (ds : List ℕ) :
    accumulate base 0 (0 :: ds) = accumulate base 0 ds := by
  unfold accumulate
  rw [List.foldl_cons, Nat.zero_mul]

lemma detected_dropWhile (hb : IsBase base) (cs : List UInt8) :
    Detected fmt base (cs.dropWhile (· = 48)) 0 ↔ Detected fmt base cs 0 := by
  induction cs with
  | nil => rfl
  | cons c cs ih =>
    by_cases hc : c = 48
    · subst hc
      have hok := (StringDigitToInt_eq_ok hb).mpr (isDigit_zero hb)
      rw [List.dropWhile_cons_of_pos (by decide), ih]
      conv_rhs => unfold Detected
      rw [hok]
      simp
    · rw [List.dropWhile_cons_of_neg (by simpa using hc)]

lemma meets_dropWhile (hb : IsBase base) {number : List ℕ → ℤ}
    (hz : ∀ ds, number (0 :: ds) = number ds) (outcome : Option (Except StringError ℤ)) :
    Meets fmt base (cs.dropWhile (· = 48)) number outcome ↔ Meets fmt base cs number outcome := by
  induction cs with
  | nil => rfl
  | cons c cs ih =>
    by_cases hc : c = 48
    · subst hc
      rw [List.dropWhile_cons_of_pos (by decide), ih]
      unfold Meets
      simp only [digits_zero hb]
      constructor
      · rintro ⟨hv, hn⟩
        refine ⟨?_, fun h => hn fun ds hds => h _ ⟨ds, hds, rfl⟩⟩
        rintro _ ⟨ds, hds, rfl⟩
        rw [hz]
        exact hv ds hds
      · rintro ⟨hv, hn⟩
        refine ⟨fun ds hds => ?_, fun h => hn ?_⟩
        · rw [← hz]
          exact hv _ ⟨ds, hds, rfl⟩
        · rintro _ ⟨ds, hds, rfl⟩
          exact h ds hds
    · rw [List.dropWhile_cons_of_neg (by simpa using hc)]

lemma multiply_neg (fmt : IntFormat) (hf : 0 < factor) (hn : n ≤ fmt.max + 1) :
    multiply fmt (-1) factor (-n) = some (if n * factor ≤ fmt.max + 1 then
      .ok (-(n * factor : ℕ)) else .error .Range) := by
  unfold multiply
  by_cases h1 : factor = 1
  · rw [h1, if_neg (by simp), Nat.mul_one, if_pos hn]
  · rw [if_pos h1, scale_neg hf]

lemma multiply_pos (fmt : IntFormat) (hf : 0 < factor) (hn : n ≤ fmt.max) :
    multiply fmt 1 factor n = if n * factor ≤ fmt.max then some (.ok (n * factor : ℕ))
      else if fmt.umax < n % 2 ^ 32 * factor then some (.error .Range) else none := by
  unfold multiply
  by_cases h1 : factor = 1
  · rw [h1, if_neg (by simp), Nat.mul_one, if_pos hn]
  · rw [if_pos h1, scale_pos hf]

lemma convert_eq {sign : ℤ} (h0 : multiply fmt sign factor 0 = some (.ok 0)) :
    convert fmt sign base factor s =
      match convertDigits fmt sign base (s.dropWhile (· = 48)) 0 with
      | some (.ok result) => multiply fmt sign factor result
      | outcome => outcome := by
  unfold convert
  dsimp only
  by_cases hz : s.dropWhile (· = 48) = []
  · rw [if_pos hz, hz]
    exact h0.symm
  · exact if_neg hz

lemma convert_neg (hb : IsBase base) (hf : 0 < factor) :
    Meets fmt base cs (fun ds => -(accumulate base 0 ds * factor : ℕ))
      (convert fmt (-1) base factor cs) := by
  have h0 : multiply fmt (-1) factor 0 = some (.ok 0) := by
    simpa using multiply_neg fmt (n := 0) hf (by omega)
  have hd := convertDigits_neg fmt (n := 0) hb (cs.dropWhile (· = 48)) (by omega)
  rw [← meets_dropWhile hb fun ds => by rw [accumulate_zero], convert_eq h0]
  rw [Nat.cast_zero, neg_zero] at hd
  refine ⟨fun ds hds => ?_, fun hn => ?_⟩
  · have hv := hd.1 ds hds
    by_cases hfit : accumulate base 0 ds ≤ fmt.max + 1
    · rw [if_pos (fits_neg.mpr hfit)] at hv
      rw [hv]
      dsimp only
      rw [multiply_neg fmt hf hfit]
      simp only [fits_neg]
    · rw [if_neg (mt fits_neg.mp hfit)] at hv
      rw [hv, if_neg]
      rw [fits_neg]
      exact fun h => hfit ((Nat.le_mul_of_pos_right _ hf).trans h)
  · obtain ⟨error, he⟩ := hd.2 hn
    exact ⟨error, by rw [he]⟩

lemma convert_pos (hb : IsBase base) (hf : 0 < factor) :
    Meets fmt base cs (fun ds => (accumulate base 0 ds * factor : ℕ))
      (convert fmt 1 base factor cs) ↔
    Detected fmt base cs 0 ∧ ∀ ds, Digits base cs ds → accumulate base 0 ds ≤ fmt.max →
      accumulate base 0 ds * factor ≤ fmt.max ∨
        fmt.umax < accumulate base 0 ds % 2 ^ 32 * factor := by
  have h0 : multiply fmt 1 factor 0 = some (.ok 0) := by
    simpa using multiply_pos fmt (n := 0) hf (by omega)
  have hd := convertDigits_pos fmt (n := 0) hb (cs.dropWhile (· = 48)) (by omega)
  rw [detected_dropWhile hb, meets_dropWhile hb fun ds => by rw [accumulate_zero],
    Nat.cast_zero] at hd
  have hfits {ds : List ℕ} (h : accumulate base 0 ds * factor ≤ fmt.max) :
      accumulate base 0 ds ≤ fmt.max := (Nat.le_mul_of_pos_right _ hf).trans h
  rw [convert_eq h0]
  by_cases hdet : Detected fmt base cs 0
  swap
  · rw [hd.2 hdet]
    exact ⟨fun h => absurd rfl h.ne_none, fun h => absurd h.1 hdet⟩
  obtain ⟨hv, hn⟩ := hd.1 hdet
  constructor
  · refine fun h => ⟨hdet, fun ds hds hfit => ?_⟩
    by_contra hlost
    rw [not_or] at hlost
    apply h.ne_none
    rw [hv ds hds, if_pos (fits_natCast.mpr hfit)]
    dsimp only
    rw [multiply_pos fmt hf hfit, if_neg hlost.1, if_neg hlost.2]
  · rintro ⟨-, hfactor⟩
    refine ⟨fun ds hds => ?_, fun h => ?_⟩
    · rw [hv ds hds]
      by_cases hfit : accumulate base 0 ds ≤ fmt.max
      · rw [if_pos (fits_natCast.mpr hfit)]
        dsimp only
        rw [multiply_pos fmt hf hfit]
        by_cases hp : accumulate base 0 ds * factor ≤ fmt.max
        · rw [if_pos hp, if_pos (fits_natCast.mpr hp)]
        · rw [if_neg hp, if_pos ((hfactor ds hds hfit).resolve_left hp),
            if_neg (mt fits_natCast.mp hp)]
      · rw [if_neg (mt fits_natCast.mp hfit), if_neg]
        rw [fits_natCast]
        exact fun h => hfit (hfits h)
    · obtain ⟨error, he⟩ := hn h
      exact ⟨error, by rw [he]⟩

lemma sign_takeSign (s : List UInt8) : ∃ sg, Sign sg (takeSign s).1 ∧ sg ++ (takeSign s).2 = s := by
  unfold takeSign
  match s with
  | [] => exact ⟨[], .none, rfl⟩
  | c :: s =>
    dsimp only
    split_ifs with h43 h45
    · exact ⟨[43], .plus, by rw [h43]; rfl⟩
    · exact ⟨[45], .minus, by rw [h45]; rfl⟩
    · exact ⟨[], .none, rfl⟩

lemma takeSign_append {sg : List UInt8} {sign : ℤ} (hs : Sign sg sign)
    (h43 : s.head? ≠ some 43) (h45 : s.head? ≠ some 45) : takeSign (sg ++ s) = (sign, s) := by
  cases hs with
  | plus => rfl
  | minus => rfl
  | none =>
    cases s with
    | nil => rfl
    | cons c s =>
      rw [List.head?_cons, ne_eq, Option.some.injEq] at h43 h45
      change (if c = 43 then (1, s) else if c = 45 then (-1, s) else (1, c :: s)) = _
      rw [if_neg h43, if_neg h45]

lemma isBase_takeBase (s : List UInt8) : IsBase (takeBase s).1 := by
  unfold takeBase IsBase
  split
  · split_ifs <;> simp
  · simp

lemma takeFactor_of_ne (hb : base ≠ 10) (s : List UInt8) : takeFactor base s = (1, s) := by
  unfold takeFactor
  rw [if_neg hb]

lemma takeFactor_nil (base : ℕ) : takeFactor base [] = (1, []) := by
  unfold takeFactor
  split_ifs <;> rfl

lemma takeFactor_cases (base : ℕ) (s : List UInt8) :
    (base = 10 ∧ ∃ c factor cs, suffixFactor c = some factor ∧ s = cs ++ [c] ∧
      takeFactor base s = (factor, cs)) ∨ takeFactor base s = (1, s) := by
  by_cases hb : base = 10
  swap
  · exact .inr (takeFactor_of_ne hb s)
  rcases s.eq_nil_or_concat' with rfl | ⟨cs, c, rfl⟩
  · exact .inr (takeFactor_nil base)
  · unfold takeFactor
    rw [if_pos hb, List.getLast?_concat, List.dropLast_concat, Option.bind_some]
    cases h : suffixFactor c with
    | none => exact .inr rfl
    | some factor => exact .inl ⟨hb, c, factor, cs, h, rfl, rfl⟩

lemma suffixFactor_pos (h : suffixFactor c = some factor) : 0 < factor := by
  unfold suffixFactor at h
  split_ifs at h <;> cases h <;> decide

lemma takeFactor_pos (base : ℕ) (s : List UInt8) : 0 < (takeFactor base s).1 := by
  obtain ⟨-, c, factor, cs, hc, -, h⟩ | h := takeFactor_cases base s <;> rw [h]
  · exact suffixFactor_pos hc
  · exact Nat.one_pos

lemma IsDigit.suffixFactor {d : ℕ} (h : IsDigit 10 c d) : suffixFactor c = none := by
  have hc : c.toNat < 58 := by unfold IsDigit at h; omega
  have hne (n : UInt8) (hn : 58 ≤ n.toNat) : c ≠ n := by
    rintro rfl
    omega
  unfold Cpp.suffixFactor
  rw [if_neg (hne _ (by decide)), if_neg (hne _ (by decide)), if_neg (hne _ (by decide)),
    if_neg (hne _ (by decide)), if_neg (hne _ (by decide)), if_neg (hne _ (by decide))]

lemma Digits.exists_digit (hd : Digits base cs ds) (hc : c ∈ cs) : ∃ d, IsDigit base c d := by
  induction hd with
  | nil => cases hc
  | cons h _ ih =>
    rcases List.mem_cons.mp hc with rfl | hc
    · exact ⟨_, h⟩
    · exact ih hc

lemma takeFactor_of_digits (hd : Digits base cs ds) : takeFactor base cs = (1, cs) := by
  obtain ⟨rfl, c, factor, es, hc, rfl, -⟩ | h := takeFactor_cases base cs
  · obtain ⟨d, hd⟩ := hd.exists_digit (List.mem_append_right es (List.mem_singleton_self c))
    rw [hd.suffixFactor] at hc
    cases hc
  · exact h

lemma takeFactor_append (hd : Digits 10 cs ds) {sf : List UInt8} (hf : Suffix sf factor) :
    takeFactor 10 (cs ++ sf) = (factor, cs) := by
  cases hf with
  | none => rw [List.append_nil, takeFactor_of_digits hd]
  | letter h =>
    unfold takeFactor
    rw [if_pos rfl, List.getLast?_concat, List.dropLast_concat, Option.bind_some, h]

lemma takeBase_hex (s : List UInt8) : takeBase (48 :: 120 :: s) = (16, s) := rfl

lemma takeBase_octal (hn : cs ≠ []) (h : cs.head? ≠ some 120) : takeBase (48 :: cs) = (8, cs) := by
  obtain ⟨c, cs, rfl⟩ := List.exists_cons_of_ne_nil hn
  rw [List.head?_cons, ne_eq, Option.some.injEq] at h
  unfold takeBase
  dsimp only
  rw [if_neg fun h' => h h'.2, if_pos rfl]

lemma takeBase_decimal (h : s.head? = some 48 → s = [48]) : takeBase s = (10, s) := by
  match s with
  | [] => rfl
  | [c] => rfl
  | c :: d :: s =>
    have hc : c ≠ 48 := by
      rintro rfl
      cases h rfl
    unfold takeBase
    dsimp only
    rw [if_neg fun h' => hc h'.1, if_neg hc]

lemma takeBase_cases (s : List UInt8) :
    (∃ cs, s = 48 :: 120 :: cs ∧ takeBase s = (16, cs)) ∨
    (∃ cs, s = 48 :: cs ∧ takeBase s = (8, cs)) ∨
    ((s.head? = some 48 → s = [48]) ∧ takeBase s = (10, s)) := by
  by_cases hd : s.head? = some 48 → s = [48]
  · exact .inr (.inr ⟨hd, takeBase_decimal hd⟩)
  · obtain ⟨hh, hne⟩ := Classical.not_imp.mp hd
    obtain ⟨cs, rfl⟩ := List.head?_eq_some_iff.mp hh
    have hn : cs ≠ [] := fun h => hne (by rw [h])
    by_cases hx : cs.head? = some 120
    · obtain ⟨cs, rfl⟩ := List.head?_eq_some_iff.mp hx
      exact .inl ⟨cs, rfl, takeBase_hex cs⟩
    · exact .inr (.inl ⟨cs, rfl, takeBase_octal hn hx⟩)

lemma magnitude_iff : Magnitude s n ↔ ∃ ds,
    (takeFactor (takeBase s).1 (takeBase s).2).2 ≠ [] ∧
    Digits (takeBase s).1 (takeFactor (takeBase s).1 (takeBase s).2).2 ds ∧
    n = value (takeBase s).1 ds * (takeFactor (takeBase s).1 (takeBase s).2).1 := by
  constructor
  · intro h
    cases h with
    | @hex cs ds hn hd =>
      rw [takeBase_hex, takeFactor_of_digits hd]
      exact ⟨ds, hn, hd, (Nat.mul_one _).symm⟩
    | @octal cs ds hn hd =>
      have hx : cs.head? ≠ some 120 := by
        intro hx
        obtain ⟨d, h⟩ := hd.exists_digit (List.mem_of_head? hx)
        have h120 : (120 : UInt8).toNat = 120 := rfl
        unfold IsDigit at h
        omega
      rw [takeBase_octal hn hx, takeFactor_of_digits hd]
      exact ⟨ds, hn, hd, (Nat.mul_one _).symm⟩
    | @decimal cs ds sf factor hn hd hf h0 =>
      rw [takeBase_decimal fun h => h0 (by rwa [List.head?_append_of_ne_nil _ hn] at h),
        takeFactor_append hd hf]
      exact ⟨ds, hn, hd, rfl⟩
  · rintro ⟨ds, hn, hd, rfl⟩
    obtain ⟨cs, rfl, h⟩ | ⟨cs, rfl, h⟩ | ⟨h0, h⟩ := takeBase_cases s
    · rw [h] at hn hd ⊢
      dsimp only at hn hd ⊢
      rw [takeFactor_of_ne (by decide)] at hn hd ⊢
      rw [Nat.mul_one]
      exact .hex hn hd
    · rw [h] at hn hd ⊢
      dsimp only at hn hd ⊢
      rw [takeFactor_of_ne (by decide)] at hn hd ⊢
      rw [Nat.mul_one]
      exact .octal hn hd
    · rw [h] at hn hd ⊢
      dsimp only at hn hd ⊢
      obtain ⟨-, c, factor, cs, hc, rfl, hf⟩ | hf := takeFactor_cases 10 s
      · rw [hf] at hn hd ⊢
        refine .decimal hn hd (.letter hc) fun hh => h0 ?_
        rwa [List.head?_append_of_ne_nil _ hn]
      · rw [hf] at hn hd ⊢
        have hm := Magnitude.decimal hn hd .none (by rwa [List.append_nil])
        rwa [List.append_nil] at hm

lemma Magnitude.takeSign_append {sg : List UInt8} {sign : ℤ} (hm : Magnitude s n)
    (hs : Sign sg sign) : takeSign (sg ++ s) = (sign, s) := by
  have hhead : ∃ c, s.head? = some c ∧ 48 ≤ c.toNat := by
    cases hm with
    | hex => exact ⟨48, rfl, le_rfl⟩
    | octal => exact ⟨48, rfl, le_rfl⟩
    | decimal hn hd =>
      cases hd with
      | nil => exact absurd rfl hn
      | @cons c d cs ds h hd =>
        refine ⟨c, rfl, ?_⟩
        unfold IsDigit at h
        omega
  obtain ⟨c, hc, h48⟩ := hhead
  refine Cpp.takeSign_append hs ?_ ?_ <;> rw [hc] <;> rintro ⟨rfl⟩ <;> contradiction

lemma literal_iff {n : ℤ} : Literal s n ↔
    ∃ m, Magnitude (takeSign s).2 m ∧ n = (takeSign s).1 * m := by
  constructor
  · rintro ⟨hs, hm⟩
    rw [hm.takeSign_append hs]
    exact ⟨_, hm, rfl⟩
  · rintro ⟨m, hm, rfl⟩
    obtain ⟨sg, hs, h⟩ := sign_takeSign s
    have hl := Literal.mk hs hm
    rwa [h] at hl

section
variable {s₁ s₂ digits : List UInt8} {sign : ℤ} (hs : takeSign (StringTrim s) = (sign, s₁))
  (hb : takeBase s₁ = (base, s₂)) (hf : takeFactor base s₂ = (factor, digits))
include hs hb hf

lemma literal_parts {m : ℤ} : Literal (StringTrim s) m ↔
    ∃ ds, digits ≠ [] ∧ Digits base digits ds ∧
      m = sign * (accumulate base 0 ds * factor : ℕ) := by
  rw [literal_iff, hs]
  simp only [magnitude_iff, hb, hf, value_eq]
  constructor
  · rintro ⟨n, ⟨ds, hn, hd, rfl⟩, rfl⟩
    exact ⟨ds, hn, hd, rfl⟩
  · rintro ⟨ds, hn, hd, rfl⟩
    exact ⟨_, ⟨ds, hn, hd, rfl⟩, rfl⟩

lemma parses_iff_meets (hn : digits ≠ []) {outcome : Option (Except StringError ℤ)} :
    Parses fmt s outcome ↔
      Meets fmt base digits (fun ds => sign * (accumulate base 0 ds * factor : ℕ)) outcome := by
  unfold Parses Meets
  simp only [literal_parts hs hb hf]
  constructor
  · rintro ⟨hv, hi⟩
    refine ⟨fun ds hds => hv _ ⟨ds, hn, hds, rfl⟩, fun h => hi ?_⟩
    rintro m ⟨ds, -, hds, -⟩
    exact h ds hds
  · rintro ⟨hv, hi⟩
    refine ⟨?_, fun h => hi fun ds hds => h _ ⟨ds, hn, hds, rfl⟩⟩
    rintro _ ⟨ds, -, hds, rfl⟩
    exact hv ds hds

end

lemma parses_iff (fmt : IntFormat) (s : List UInt8) :
    Parses fmt s (stringToInt fmt s) ↔ Covered fmt s := by
  rcases hs : takeSign (StringTrim s) with ⟨sign, s₁⟩
  rcases hb : takeBase s₁ with ⟨base, s₂⟩
  rcases hf : takeFactor base s₂ with ⟨factor, digits⟩
  unfold stringToInt Covered
  simp only [hs, hb, hf, value_eq]
  have hlit {m : ℤ} := literal_parts (m := m) hs hb hf
  by_cases hempty : s₂ = []
  · -- no digit behind the sign and the prefix
    rw [if_pos hempty]
    have hd : digits = [] := by
      rw [hempty, takeFactor_nil] at hf
      exact (congrArg Prod.snd hf).symm
    refine iff_of_true ⟨fun m hm => ?_, fun _ => ⟨_, rfl⟩⟩ (.inl hempty)
    obtain ⟨ds, hn, -⟩ := hlit.mp hm
    exact absurd hd hn
  rw [if_neg hempty]
  by_cases hn : digits = []
  · -- a suffix alone is taken for zero
    refine iff_of_false (fun h => ?_) (by tauto)
    obtain ⟨error, he⟩ := h.2 fun m hm => by
      obtain ⟨ds, hd, -⟩ := hlit.mp hm
      exact hd hn
    rw [hn] at he
    cases he
  have hbase : IsBase base := by simpa only [hb] using isBase_takeBase s₁
  have hfactor : 0 < factor := by simpa only [hf] using takeFactor_pos base s₂
  rw [parses_iff_meets hs hb hf hn]
  have hsign : sign = 1 ∨ sign = -1 := by
    obtain ⟨sg, h, -⟩ := sign_takeSign (StringTrim s)
    rw [hs] at h
    cases h <;> simp
  obtain rfl | rfl := hsign
  · simp only [one_mul]
    rw [convert_pos hbase hfactor, or_iff_right hempty, and_iff_right hn, true_imp_iff]
  · refine iff_of_true ?_ (.inr ⟨hn, fun h => absurd h (by decide)⟩)
    simp only [neg_one_mul]
    exact convert_neg hbase hfactor

end

/-- Exactly on the strings of the condition the two conversions are as documented: an error but for
an integer in the documented form, a range error exactly if it does not fit, and else its number.
-/
theorem StringToInt_parses_iff (s : List UInt8) :
    (Parses .int s (StringToInt s) ↔ Covered .int s) ∧
      (Parses .longLong s (StringToInt64 s) ↔ Covered .longLong s) :=
  ⟨parses_iff .int s, parses_iff .longLong s⟩

/-- "k" has no digit and is converted into zero. "2147483648" and "9223372036854775808" are one too
large for the two formats, and the multiplication or the addition overflows. -/
theorem not_StringToInt_parses :
    ¬Parses .int [107] (StringToInt [107]) ∧
      StringToInt [50, 49, 52, 55, 52, 56, 51, 54, 52, 56] = none ∧
      StringToInt64 [57, 50, 50, 51, 51, 55, 50, 48, 51, 54, 56, 53, 52, 55, 55, 53, 56, 48, 56] =
        none := by
  refine ⟨fun h => ?_, by decide +kernel, by decide +kernel⟩
  obtain h | ⟨h, -⟩ := (parses_iff .int [107]).mp h
  · exact absurd h (by decide)
  · exact h (by decide)

section Alnum

variable {digit : ℕ} {digits : List ℕ} {s : List UInt8}

lemma alnumToDigit_alnumDigit : ∀ digit < 62, alnumToDigit (alnumDigit digit) = some digit := by
  decide

lemma alnumDigit_alnumToDigit {c : UInt8} (h : alnumToDigit c = some digit) :
    digit < 62 ∧ alnumDigit digit = c := by
  have hall : ∀ n < 256, ∀ d ∈ alnumToDigit (.ofNat n), d < 62 ∧ alnumDigit d = .ofNat n := by
    decide +kernel
  have hc := hall c.toNat c.toNat_lt digit
  rw [UInt8.ofNat_toNat] at hc
  exact hc h

lemma alnumDigits_eq (value : ℕ) : alnumDigits value = (Nat.digits 62 value).map alnumDigit := by
  fun_induction alnumDigits value with
  | case1 => rfl
  | case2 value hvalue ih =>
    rw [Nat.digits_def' (by norm_num) (Nat.pos_of_ne_zero hvalue), List.map_cons, ih]

lemma alnumLoop_eq (h : s.map alnumToDigit = digits.map some) (power result : BitVec 32) :
    alnumLoop s power result = result + .ofNat 32 (Nat.ofDigits 62 digits) * power := by
  induction digits generalizing s power result with
  | nil =>
    rw [List.map_nil, List.map_eq_nil_iff] at h
    rw [h, alnumLoop, Nat.ofDigits_nil, BitVec.zero_mul, BitVec.add_zero]
  | cons digit digits ih =>
    obtain ⟨c, s, rfl, hc, hs⟩ := List.map_eq_cons_iff.mp h
    simp only [alnumLoop, hc, ih hs, Nat.ofDigits_cons, BitVec.ofNat_add, BitVec.ofNat_mul]
    ring

lemma eq_map_alnumDigit (h : s.map alnumToDigit = digits.map some) :
    (∀ digit ∈ digits, digit < 62) ∧ s = digits.map alnumDigit := by
  induction digits generalizing s with
  | nil =>
    rw [List.map_nil, List.map_eq_nil_iff] at h
    exact ⟨by simp, h⟩
  | cons digit digits ih =>
    obtain ⟨c, s, rfl, hc, hs⟩ := List.map_eq_cons_iff.mp h
    obtain ⟨hdigits, rfl⟩ := ih hs
    obtain ⟨hdigit, rfl⟩ := alnumDigit_alnumToDigit hc
    exact ⟨List.forall_mem_cons.mpr ⟨hdigit, hdigits⟩, rfl⟩

lemma stringAlnumToInt_eq (h : s.map alnumToDigit = digits.map some) :
    StringAlnumToInt s = .ofNat 32 (Nat.ofDigits 62 digits.reverse) := by
  have hreverse : s.reverse.map alnumToDigit = digits.reverse.map some := by
    rw [List.map_reverse, h, List.map_reverse]
  rw [StringAlnumToInt, alnumLoop_eq hreverse, BitVec.mul_one, BitVec.zero_add]
  split_ifs with hs
  · rw [hs, List.map_nil, eq_comm, List.map_eq_nil_iff] at h
    rw [h]
    rfl
  · rfl

/-- A string is the digits of a number that fits, without zeros in front. -/
def Canonical (s : List UInt8) (digits : List ℕ) : Prop :=
  s.map alnumToDigit = digits.map some ∧ digits.head? ≠ some 0 ∧
    Nat.ofDigits 62 digits.reverse < 2 ^ 32

lemma canonical_stringIntToAlnum (value : BitVec 32) :
    Canonical (StringIntToAlnum value) (Nat.digits 62 value.toNat).reverse := by
  refine ⟨?_, ?_, ?_⟩
  · rw [StringIntToAlnum, alnumDigits_eq, ← List.map_reverse, List.map_map]
    apply List.map_congr_left
    intro digit hdigit
    rw [List.mem_reverse] at hdigit
    exact alnumToDigit_alnumDigit digit (Nat.digits_lt_base (by norm_num) hdigit)
  · rw [List.head?_reverse]
    intro hlast
    have hne : Nat.digits 62 value.toNat ≠ [] := by
      rintro hnil
      rw [hnil] at hlast
      cases hlast
    rw [List.getLast?_eq_some_getLast hne, Option.some.injEq] at hlast
    exact Nat.getLast_digit_ne_zero 62 (Nat.digits_ne_nil_iff_ne_zero.mp hne) hlast
  · rw [List.reverse_reverse, Nat.ofDigits_digits]
    exact value.isLt

lemma stringIntToAlnum_eq (h : Canonical s digits) :
    StringIntToAlnum (.ofNat 32 (Nat.ofDigits 62 digits.reverse)) = s := by
  obtain ⟨hs, hhead, hlt⟩ := h
  obtain ⟨hdigits, rfl⟩ := eq_map_alnumDigit hs
  have hlast : ∀ hne : digits.reverse ≠ [], digits.reverse.getLast hne ≠ 0 := by
    intro hne hzero
    rw [List.getLast_reverse] at hzero
    exact hhead (by rw [List.head?_eq_some_head (List.reverse_ne_nil_iff.mp hne), hzero])
  rw [StringIntToAlnum, BitVec.toNat_ofNat, Nat.mod_eq_of_lt hlt, alnumDigits_eq,
    Nat.digits_ofDigits 62 (by norm_num) _ (by simpa using hdigits) hlast, ← List.map_reverse,
    List.reverse_reverse]

/-- Every number is read back from its string, and the strings that are written again are those of
a number that fits, without zeros in front. -/
theorem alnum_round_trip :
    (∀ value, StringAlnumToInt (StringIntToAlnum value) = value) ∧
      ∀ s, StringIntToAlnum (StringAlnumToInt s) = s ↔ ∃ digits, Canonical s digits := by
  refine ⟨fun value => ?_, fun s => ⟨fun h => ?_, ?_⟩⟩
  · rw [stringAlnumToInt_eq (canonical_stringIntToAlnum value).1, List.reverse_reverse,
      Nat.ofDigits_digits, BitVec.ofNat_toNat, BitVec.setWidth_eq]
  · rw [← h]
    exact ⟨_, canonical_stringIntToAlnum _⟩
  · rintro ⟨digits, h⟩
    rw [stringAlnumToInt_eq h.1, stringIntToAlnum_eq h]

end Alnum

end OISA.Cpp
