import OISA.X86.IsaMisc

/-!
# Divisions of the host in speculative mode

In speculative mode the functions of `div` and `idiv` leave the host division out where its
quotient might not fit.
-/

namespace OISA.Proofs.HostDivision

open OISA.Lib OISA.X86.IsaMisc OISA.X86.Registers
open OISA.X86.Speculation (Word Regs)

section Host

variable {w : ℕ}

lemma toNat_zero_append (low : BitVec w) : ((0 : BitVec w) ++ low).toNat = low.toNat := by
  rw [BitVec.toNat_append]
  simp

lemma hostDiv_ne_none (low : BitVec w) {divisor : BitVec w} (hd : divisor ≠ 0) :
    hostDiv 0 low divisor ≠ none := by
  have hfits : ¬ 2 ^ w ≤ ((0 : BitVec w) ++ low).toNat / divisor.toNat := by
    rw [toNat_zero_append, not_le]
    exact lt_of_le_of_lt (Nat.div_le_self _ _) low.isLt
  unfold hostDiv
  rw [if_neg (not_or.mpr ⟨hd, hfits⟩)]
  exact Option.some_ne_none _

lemma tdiv_outside_iff {m a b : ℤ} (hlow : -m ≤ a) (hhigh : a < m) (hb : b ≠ 0) :
    (a.tdiv b < -m ∨ m ≤ a.tdiv b) ↔ a = -m ∧ b = -1 := by
  have hle := Int.natAbs_tdiv_le_natAbs a b
  constructor
  · intro h
    have ha : a = -m := by omega
    have hq : (a.tdiv b).natAbs = a.natAbs := by omega
    have hpos : 0 < a.natAbs := by omega
    have hb1 : b.natAbs = 1 := by
      rw [Int.natAbs_tdiv] at hq
      by_contra hne
      have hlt := Nat.div_lt_self hpos (show 1 < b.natAbs by omega)
      exact absurd hq (ne_of_lt hlt)
    refine ⟨ha, ?_⟩
    rcases Int.natAbs_eq b with hb' | hb'
    · rw [hb', hb1, Nat.cast_one, Int.tdiv_one] at h
      omega
    · rw [hb', hb1, Nat.cast_one]
  · rintro ⟨rfl, rfl⟩
    right
    rw [Int.tdiv_neg, Int.tdiv_one, neg_neg]

lemma toInt_ne_zero {x : BitVec w} (h : x ≠ 0) : x.toInt ≠ 0 := by
  intro h0
  apply h
  apply BitVec.eq_of_toInt_eq
  rw [h0]
  exact BitVec.toInt_zero.symm

lemma hostIdiv_eq_none_iff {high low divisor : BitVec w} (hd : divisor ≠ 0)
    (hlow : -2 ^ (w - 1) ≤ (high ++ low).toInt) (hhigh : (high ++ low).toInt < 2 ^ (w - 1)) :
    hostIdiv high low divisor = none ↔
      (high ++ low).toInt = -2 ^ (w - 1) ∧ divisor.toInt = -1 := by
  rw [← tdiv_outside_iff hlow hhigh (toInt_ne_zero hd)]
  unfold hostIdiv
  constructor
  · intro h
    by_contra hfits
    rw [if_neg (not_or.mpr ⟨hd, hfits⟩)] at h
    exact Option.some_ne_none _ h
  · intro h
    exact if_pos (Or.inr h)

end Host

section Operands

variable {R : Type} (bus : Bus) (c : Fields) (regs : Regs R)

/-- The operand in a register or in memory, if it can be loaded -/
def operand (w first : ℕ) : Option (BitVec w) :=
  if c.inst.modrm_mod = 3 then some ((regs.Read (c.inst.modrm_rm + first)).setWidth w)
  else
    match getEffectiveAddress c regs with
    | .error _ => none
    | .ok address => (bus.load address (w / 8)).map (ofBytes w)

def Divides (p : Program R) : Prop := (p.run bus).2 = .divideException

lemma loadRm_divides {w first : ℕ} (next : BitVec w → Program R) :
    Divides bus (LoadRm c regs w first next) ↔
      ∃ value, operand bus c regs w first = some value ∧ Divides bus (next value) := by
  unfold LoadRm operand Divides
  split_ifs with hmod
  · simp
  · cases haddress : getEffectiveAddress c regs with
    | error message => simp [Program.run]
    | ok address =>
      cases hload : bus.load address (w / 8) with
      | none => simp [Program.run, hload]
      | some buffer => simp [Program.run, hload]

lemma emulate_divides {w : ℕ} {α : Type} {divisor : BitVec w} {message : String} {skip : Bool}
    {host : Option α} {before : α} {writes : α → Regs R} :
    Divides bus (if divisor = 0 then .throws message
      else emulate skip host before fun out => .done (writes out)) ↔
      divisor ≠ 0 ∧ skip = false ∧ host = none := by
  unfold Divides emulate
  by_cases hd : divisor = 0
  · rw [if_pos hd]
    simp [hd, Program.run]
  · rw [if_neg hd, and_iff_right hd]
    cases skip <;> cases host <;> simp [Program.run]

end Operands

section Speculative

variable {R : Type} (bus : Bus) {c : Fields} (regs : Regs R)

lemma high_of_not_lt {ax : BitVec 16} (h : ¬ 0xff < ax) : ax.extractLsb' 8 8 = 0 := by
  apply BitVec.eq_of_toNat_eq
  rw [BitVec.extractLsb'_toNat, Nat.shiftRight_eq_div_pow]
  have hax : ax.toNat ≤ 0xff := by simpa [BitVec.lt_def] using h
  have hzero : ax.toNat / 2 ^ 8 = 0 := Nat.div_eq_of_lt (by omega)
  rw [hzero]
  rfl

lemma not_divides_div_rm8 (hspec : c.spec_mode = true) :
    ¬ Divides bus (ExecuteInst_div_rm8 c regs) := by
  unfold ExecuteInst_div_rm8 LoadRm8
  rw [loadRm_divides]
  intro h
  obtain ⟨rm8, -, h⟩ := h
  obtain ⟨hrm8, hskip, hhost⟩ := (emulate_divides bus).mp h
  rw [hspec, Bool.true_and, decide_eq_false_iff_not] at hskip
  rw [high_of_not_lt hskip, Option.map_eq_none_iff] at hhost
  exact hostDiv_ne_none _ hrm8 hhost

lemma not_divides_div_rm32 (hspec : c.spec_mode = true) :
    ¬ Divides bus (ExecuteInst_div_rm32 c regs) := by
  unfold ExecuteInst_div_rm32 LoadRm32
  rw [loadRm_divides]
  intro h
  obtain ⟨rm32, -, h⟩ := h
  obtain ⟨hrm32, hskip, hhost⟩ := (emulate_divides bus).mp h
  rw [hspec, Bool.true_and, decide_eq_false_iff_not, not_not] at hskip
  rw [hskip] at hhost
  exact hostDiv_ne_none _ hrm32 hhost

lemma append_eq_lowest_iff (edx eax : Word) :
    (edx ++ eax).toInt = -2 ^ (32 - 1) ↔ edx = 0xffffffff ∧ eax = 0x80000000 := by
  constructor
  · intro h
    have hbits : edx ++ eax = (0xffffffff : Word) ++ (0x80000000 : Word) := by
      apply BitVec.eq_of_toInt_eq
      rw [h]
      decide
    have heax : eax = 0x80000000 := by
      rw [← BitVec.setWidth_append_eq_right (a := edx) (b := eax), hbits]
      decide
    rw [heax, BitVec.append_left_inj] at hbits
    exact ⟨hbits, heax⟩
  · rintro ⟨rfl, rfl⟩
    decide

lemma toInt_eq_neg_one_iff (x : Word) : x.toInt = -1 ↔ x = 0xffffffff := by
  constructor
  · intro h
    apply BitVec.eq_of_toInt_eq
    rw [h]
    decide
  · rintro rfl
    decide

lemma hostIdiv_guarded_iff {edx eax rm32 : Word} (hd : rm32 ≠ 0)
    (hrange : outOfRange edx eax = false) :
    hostIdiv edx eax rm32 = none ↔
      edx = 0xffffffff ∧ eax = 0x80000000 ∧ rm32 = 0xffffffff := by
  unfold outOfRange at hrange
  rw [decide_eq_false_iff_not, not_or, not_lt, not_lt] at hrange
  obtain ⟨hhigh, hlow⟩ := hrange
  rw [hostIdiv_eq_none_iff hd (by omega) (by omega), append_eq_lowest_iff, toInt_eq_neg_one_iff,
    and_assoc]

lemma divides_idiv_rm32_iff (hspec : c.spec_mode = true) :
    Divides bus (ExecuteInst_idiv_rm32 c regs) ↔
      regs.edx = 0xffffffff ∧ regs.eax = 0x80000000 ∧
        operand bus c regs 32 RegEax = some 0xffffffff := by
  unfold ExecuteInst_idiv_rm32 LoadRm32
  rw [loadRm_divides]
  constructor
  · rintro ⟨rm32, hoperand, h⟩
    obtain ⟨hrm32, hskip, hhost⟩ := (emulate_divides bus).mp h
    rw [hspec, Bool.true_and] at hskip
    obtain ⟨hedx, heax, hvalue⟩ := (hostIdiv_guarded_iff hrm32 hskip).mp hhost
    exact ⟨hedx, heax, hvalue ▸ hoperand⟩
  · rintro ⟨hedx, heax, hoperand⟩
    refine ⟨0xffffffff, hoperand, (emulate_divides bus).mpr ?_⟩
    rw [hspec, hedx, heax]
    decide

/-- In speculative mode a function of `div` or `idiv` raises a divide exception in the host only
for `idiv` of -2^31 by -1. -/
theorem executeDivision_ne_divideException_iff (op : Division) (hspec : c.spec_mode = true) :
    ((executeDivision c regs op).run bus).2 ≠ .divideException ↔
      ¬ (op = .idiv_rm32 ∧ regs.edx = 0xffffffff ∧ regs.eax = 0x80000000 ∧
        operand bus c regs 32 RegEax = some 0xffffffff) := by
  change ¬ Divides bus (executeDivision c regs op) ↔ _
  cases op with
  | div_rm8 => simpa [executeDivision] using not_divides_div_rm8 bus regs hspec
  | div_rm32 => simpa [executeDivision] using not_divides_div_rm32 bus regs hspec
  | idiv_rm32 =>
    rw [not_iff_not, and_iff_right rfl]
    exact divides_idiv_rm32_iff bus regs hspec

end Speculative

def lowestRegs (ecx : Word) : Regs Unit :=
  { Regs.initial () with
    eax := 0x80000000
    ecx := ecx
    edx := 0xffffffff }

def byEcx : Fields where
  inst := { modrm_mod := 3, modrm_rm := 1 }
  glibc_segment_base := 0
  spec_mode := true

theorem executeDivision_byTwo :
    ((executeDivision byEcx (lowestRegs 2) .idiv_rm32).run zeroBus).2 ≠ .divideException :=
  (executeDivision_ne_divideException_iff zeroBus (lowestRegs 2) .idiv_rm32 rfl).mpr (by decide)

theorem executeDivision_byMinusOne :
    ¬ ∀ (op : Division) (bus : Bus) (c : Fields) (regs : Regs Unit), c.spec_mode = true →
      ((executeDivision c regs op).run bus).2 ≠ .divideException := by
  intro h
  exact h .idiv_rm32 zeroBus byEcx (lowestRegs 0xffffffff) rfl (by decide)

end OISA.Proofs.HostDivision
