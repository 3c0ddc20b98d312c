import Mathlib.Data.BitVec
import OISA.X86.IsaMisc

/-!
# Addresses of instructions that exchange

The functions of `xchg` store their result into memory before they write a register.
-/

namespace OISA.Proofs.ExchangeAddresses

open OISA.Lib OISA.X86.IsaMisc OISA.X86.Registers
open OISA.X86.Decoder (Instruction Reg regEaxPlus)
open OISA.X86.Speculation (Word Regs)

section Words

variable {w : ℕ} (x y m : BitVec w)

lemma shifted_part (n : ℕ) : ((x >>> n) &&& m) <<< n = x &&& (m <<< n) := by
  ext i hi
  by_cases h : i < n
  · simp [h]
  · have hn : n + (i - n) = i := by omega
    simp [h, hn, BitVec.getLsbD_eq_getElem hi]

lemma sub_shiftLeft (n : ℕ) : x <<< n - y <<< n = (x - y) <<< n := by
  rw [BitVec.shiftLeft_eq_mul_twoPow, BitVec.shiftLeft_eq_mul_twoPow,
    BitVec.shiftLeft_eq_mul_twoPow, sub_mul]

lemma replace_part (h : y &&& ~~~m = 0#w) : (x &&& ~~~m) ||| y = x + (y - (x &&& m)) := by
  have hx : x = (x &&& ~~~m) + (x &&& m) := by
    rw [BitVec.add_eq_or_of_and_eq_zero]
    · ext i hi
      cases hm : m[i] <;> simp [hm]
    · ext i hi
      cases hm : m[i] <;> simp [hm]
  have hy : (x &&& ~~~m) + y = (x &&& ~~~m) ||| y := by
    apply BitVec.add_eq_or_of_and_eq_zero
    rw [BitVec.and_assoc, BitVec.and_comm (~~~m), h, BitVec.and_zero]
  rw [← hy]
  nth_rewrite 2 [hx]
  ring

lemma shifted_and_not (n : ℕ) : ((x &&& m) <<< n) &&& ~~~(m <<< n) = 0#w := by
  ext i hi
  by_cases h : i < n
  · simp [h]
  · cases hm : m[i - n] <;> simp [h, hm]

end Words

section Registers

variable {R : Type} (regs : Regs R)

def change (reg : ℕ) (value : Word) : Word :=
  ((value &&& mask (info reg).size) - regs.Read reg) <<< (info reg).shift

lemma word_write {reg : ℕ} (hreg : (info reg).word < 8) (value : Word) (j : ℕ) :
    (regs.Write reg value).word j =
      regs.word j + if j = (info reg).word then change regs reg value else 0 := by
  unfold Regs.Write
  rw [Regs.word_setWord regs hreg]
  split_ifs with h
  · subst h
    rw [replace_part _ _ _ (shifted_and_not _ _ _), ← shifted_part, sub_shiftLeft]
    rfl
  · exact (add_zero _).symm

lemma number_regEaxPlus {i : ℕ} (hi : i < 8) : number (regEaxPlus i) = RegEax + i := by
  interval_cases i <;> rfl

lemma regEaxPlus_inj {i j : ℕ} (hi : i < 8) (hj : j < 8) :
    regEaxPlus i = regEaxPlus j ↔ i = j := by
  constructor
  · intro h
    have hnumber := congrArg number h
    rw [number_regEaxPlus hi, number_regEaxPlus hj] at hnumber
    exact Nat.add_left_cancel hnumber
  · rintro rfl
    rfl

lemma reg_cases (r : Reg) :
    r = .none ∨ (∃ i < 8, r = regEaxPlus i) ∨ 8 ≤ (info (number r)).word := by
  cases r <;> decide

lemma read_general {i : ℕ} (hi : i < 8) : regs.Read (RegEax + i) = regs.word i := by
  interval_cases i <;> exact BitVec.and_allOnes

lemma info_general {i : ℕ} (hi : i < 8) : info (RegEax + i) = ⟨4 * i, 4⟩ := by
  interval_cases i <;> rfl

lemma info_byte {i : ℕ} (hi : i < 8) : info (i + RegAl) = ⟨4 * (i % 4) + i / 4, 1⟩ := by
  interval_cases i <;> rfl

lemma regEaxPlus_ne_of_word {i : ℕ} (hi : i < 8) {r : Reg}
    (hr : r = .none ∨ 8 ≤ (info (number r)).word) : r ≠ regEaxPlus i := by
  rintro rfl
  rw [number_regEaxPlus hi, info_general hi] at hr
  rcases hr with hr | hr
  · interval_cases i <;> exact absurd hr (by decide)
  · unfold Info.word at hr
    simp only at hr
    omega

lemma read_write {reg : ℕ} (hreg : (info reg).word < 8) (value : Word) (r : Reg) :
    (regs.Write reg value).Read (number r) = regs.Read (number r) +
      if r = regEaxPlus (info reg).word then change regs reg value else 0 := by
  rcases reg_cases r with rfl | ⟨i, hi, rfl⟩ | hr
  · rw [if_neg (regEaxPlus_ne_of_word hreg (Or.inl rfl)), add_zero]
    exact BitVec.and_zero.trans BitVec.and_zero.symm
  · rw [number_regEaxPlus hi, read_general _ hi, read_general _ hi, word_write regs hreg]
    simp only [regEaxPlus_inj hi hreg]
  · rw [if_neg (regEaxPlus_ne_of_word hreg (Or.inr hr)), add_zero]
    unfold Regs.Read
    rw [word_write regs hreg, if_neg (by omega), add_zero]

lemma read_gs_write {reg : ℕ} (hreg : (info reg).word < 8) (value : Word) :
    (regs.Write reg value).Read RegGs = regs.Read RegGs := by
  have h := read_write regs hreg value .gs
  rw [if_neg (regEaxPlus_ne_of_word hreg (Or.inr (by decide))), add_zero] at h
  exact h

end Registers

section Addresses

variable {R : Type} (c : Fields) (regs : Regs R)

def counted (inst : Instruction) (r : Reg) : Word :=
  (if inst.ea_base = r then 1 else 0) +
    if inst.ea_index = r then BitVec.ofNat 32 inst.ea_scale else 0

lemma offsetAddress_write {reg : ℕ} (hreg : (info reg).word < 8) (value : Word) :
    offsetAddress c (regs.Write reg value) = offsetAddress c regs +
      change regs reg value * counted c.inst (regEaxPlus (info reg).word) := by
  unfold offsetAddress counted
  rw [read_write regs hreg, read_write regs hreg]
  split_ifs <;> ring

lemma getEffectiveAddress_moved {regs' : Regs R} (hgs : regs'.Read RegGs = regs.Read RegGs)
    {address : Word} (h : getEffectiveAddress c regs = .ok address) :
    getEffectiveAddress c regs' =
      .ok (address + (offsetAddress c regs' - offsetAddress c regs)) := by
  unfold getEffectiveAddress getLinearAddress at h ⊢
  rw [hgs]
  split_ifs at h ⊢ <;> cases h <;> congr 1 <;> ring

end Addresses

section Accesses

variable {R : Type} (bus : Bus) (c : Fields) (regs : Regs R)

/-- Each address that is written is the one that is read. -/
def SameAddress (accesses : List Access) : Prop :=
  ∀ a n b m, Access.read a n ∈ accesses → Access.write b m ∈ accesses → b = a

def memoryOperand (w : ℕ) : Option (BitVec w) :=
  if c.inst.modrm_mod = 3 then none
  else
    match getEffectiveAddress c regs with
    | .error _ => none
    | .ok address => (bus.load address (w / 8)).map (ofBytes w)

lemma sameAddress_of_no_write {accesses : List Access}
    (h : ∀ b m, Access.write b m ∉ accesses) : SameAddress accesses :=
  fun _ _ b m _ hb => absurd hb (h b m)

lemma sameAddress_pair {a b : Word} {n m : ℕ} :
    SameAddress [.read a n, .write b m] ↔ b = a := by
  constructor
  · intro h
    exact h a n b m (by simp) (by simp)
  · rintro rfl a' n' b' m' ha hb
    simp only [List.mem_cons, List.not_mem_nil, or_false, Access.read.injEq, Access.write.injEq,
      reduceCtorEq, false_or] at ha hb
    rw [ha.1, hb.1]

lemma sameAddress_iff {w first : ℕ} {regs' : BitVec w → Regs R} {value : BitVec w → BitVec w}
    {last : BitVec w → Regs R → Regs R}
    (hgs : ∀ m, (regs' m).Read RegGs = regs.Read RegGs) :
    SameAddress ((LoadRm c regs w first fun m =>
      StoreRm c (regs' m) first (value m) fun regs => .done (last m regs)).run bus).1 ↔
      ∀ m, memoryOperand bus c regs w = some m →
        offsetAddress c (regs' m) = offsetAddress c regs := by
  unfold LoadRm StoreRm memoryOperand
  by_cases hmod : c.inst.modrm_mod = 3
  · simp only [if_pos hmod, Program.run]
    exact iff_of_true (sameAddress_of_no_write (by simp)) (by simp)
  simp only [if_neg hmod]
  cases haddress : getEffectiveAddress c regs with
  | error message => exact iff_of_true (sameAddress_of_no_write (by simp [Program.run])) (by simp)
  | ok address =>
    cases hload : bus.load address (w / 8) with
    | none =>
      simp only [Program.run, hload]
      exact iff_of_true (sameAddress_of_no_write (by simp)) (by simp)
    | some buffer =>
      have hmoved := getEffectiveAddress_moved c regs (hgs (ofBytes w buffer)) haddress
      simp only [Program.run, hload, hmoved, Option.map_some, Option.some.injEq, forall_eq']
      -- The store is one access, whether it throws or not.
      rw [apply_ite Prod.fst, ite_self, sameAddress_pair, BitVec.add_right_eq_self]
      exact sub_eq_zero (G := Word)

end Accesses

section Instructions

variable {R : Type} (flags : HostFlags) (bus : Bus) (c : Fields) (regs : Regs R)

/-- The register that an instruction writes before its store does not move the address: it keeps
its value, or does not count. -/
def Unmoved : Exchange → Prop
  | .xadd_rm8_r8 => ∀ m, memoryOperand bus c regs 8 = some m →
      ((m.setWidth 32 - regs.Read (c.inst.modrm_reg + RegAl)) <<< (8 * (c.inst.modrm_reg / 4))) *
        counted c.inst (regEaxPlus (c.inst.modrm_reg % 4)) = 0
  | .xadd_rm32_r32 => ∀ m, memoryOperand bus c regs 32 = some m →
      (m - regs.Read (c.inst.modrm_reg + RegEax)) *
        counted c.inst (regEaxPlus c.inst.modrm_reg) = 0
  | .cmpxchg_rm32_r32 => ∀ m, memoryOperand bus c regs 32 = some m →
      (m - regs.eax) * counted c.inst .eax = 0
  | _ => True

lemma byte_place {i : ℕ} (hi : i < 8) :
    (info (i + RegAl)).word = i % 4 ∧ (info (i + RegAl)).shift = 8 * (i / 4) := by
  interval_cases i <;> exact ⟨rfl, rfl⟩

lemma general_place {i : ℕ} (hi : i < 8) :
    (info (i + RegEax)).word = i ∧ (info (i + RegEax)).shift = 0 := by
  interval_cases i <;> exact ⟨rfl, rfl⟩

lemma change_byte {i : ℕ} (hi : i < 8) (value : BitVec 8) :
    change regs (i + RegAl) (value.setWidth 32) =
      (value.setWidth 32 - regs.Read (i + RegAl)) <<< (8 * (i / 4)) := by
  have hmask : value.setWidth 32 &&& mask 1 = value.setWidth 32 := by
    apply BitVec.eq_of_toNat_eq
    have hvalue := value.isLt
    rw [BitVec.toNat_and, BitVec.toNat_setWidth]
    change value.toNat % 2 ^ 32 &&& (2 ^ 8 - 1) = _
    rw [Nat.and_two_pow_sub_one_eq_mod]
    omega
  unfold change
  rw [(byte_place hi).2, info_byte hi, hmask]

lemma change_general {i : ℕ} (hi : i < 8) (value : Word) :
    change regs (i + RegEax) value = value - regs.Read (i + RegEax) := by
  have hmask : value &&& mask 4 = value := BitVec.and_allOnes
  unfold change
  rw [(general_place hi).2, Nat.add_comm, info_general hi, hmask, BitVec.shiftLeft_zero]

lemma sameAddress_xadd_rm8_r8 (hreg : c.inst.modrm_reg < 8) :
    SameAddress ((ExecuteInst_xadd_rm8_r8 flags c regs).run bus).1 ↔
      Unmoved bus c regs .xadd_rm8_r8 := by
  have hword : (info (c.inst.modrm_reg + RegAl)).word < 8 := by
    rw [(byte_place hreg).1]
    omega
  unfold ExecuteInst_xadd_rm8_r8 LoadRm8 StoreRm8 StoreR8 Unmoved
  rw [sameAddress_iff]
  · simp only [offsetAddress_write c regs hword, BitVec.add_right_eq_self, (byte_place hreg).1,
      change_byte regs hreg]
    rfl
  · intro m
    exact read_gs_write regs hword _

lemma sameAddress_xadd_rm32_r32 (hreg : c.inst.modrm_reg < 8) :
    SameAddress ((ExecuteInst_xadd_rm32_r32 flags c regs).run bus).1 ↔
      Unmoved bus c regs .xadd_rm32_r32 := by
  have hword : (info (c.inst.modrm_reg + RegEax)).word < 8 := by
    rw [(general_place hreg).1]
    exact hreg
  unfold ExecuteInst_xadd_rm32_r32 LoadRm32 StoreRm32 StoreR32 Unmoved
  rw [sameAddress_iff]
  · simp only [offsetAddress_write c regs hword, BitVec.add_right_eq_self, (general_place hreg).1,
      change_general regs hreg]
    rfl
  · intro m
    exact read_gs_write regs hword _

lemma read_eflags (eflags : Word) (reg : ℕ) :
    ({ regs with eflags := eflags } : Regs R).Read reg = regs.Read reg := by
  unfold Regs.Read
  congr 2

lemma sameAddress_cmpxchg_rm32_r32 :
    SameAddress ((ExecuteInst_cmpxchg_rm32_r32 flags c regs).run bus).1 ↔
      Unmoved bus c regs .cmpxchg_rm32_r32 := by
  have hword : (info RegEax).word < 8 := by decide
  unfold ExecuteInst_cmpxchg_rm32_r32 LoadRm32 StoreRm32 Unmoved
  rw [sameAddress_iff]
  · refine forall₂_congr fun m _ => ?_
    rw [offsetAddress_write c _ hword]
    have hoffset : offsetAddress c { regs with eflags := flags.cmp32 regs.eflags regs.eax m } =
        offsetAddress c regs := by
      simp only [offsetAddress, read_eflags]
    have hchange : change { regs with eflags := flags.cmp32 regs.eflags regs.eax m } RegEax
        (if regs.eax = m then regs.eax else m) = m - regs.eax := by
      have heax : regs.Read RegEax = regs.eax := read_general regs (i := 0) (by decide)
      have hgeneral := change_general { regs with eflags := flags.cmp32 regs.eflags regs.eax m }
        (i := 0) (by decide) (if regs.eax = m then regs.eax else m)
      rw [read_eflags, Nat.zero_add, heax] at hgeneral
      rw [hgeneral]
      split_ifs with h
      · rw [h]
      · rfl
    rw [hoffset, hchange, BitVec.add_right_eq_self]
    rfl
  · intro m
    rw [read_gs_write _ hword, read_eflags]

lemma sameAddress_xchg {w first : ℕ} (value : BitVec w) (last : BitVec w → Regs R → Regs R) :
    SameAddress ((LoadRm c regs w first fun m =>
      StoreRm c regs first value fun regs => .done (last m regs)).run bus).1 := by
  rw [sameAddress_iff]
  · exact fun _ _ => rfl
  · exact fun _ => rfl

/-- A store of an instruction that exchanges goes to the address of its load, exactly when the
register written in between leaves the address alone. -/
theorem executeExchange_sameAddress_iff (op : Exchange) (hreg : c.inst.modrm_reg < 8) :
    SameAddress ((executeExchange flags c regs op).run bus).1 ↔ Unmoved bus c regs op := by
  cases op with
  | xadd_rm8_r8 => exact sameAddress_xadd_rm8_r8 flags bus c regs hreg
  | xadd_rm32_r32 => exact sameAddress_xadd_rm32_r32 flags bus c regs hreg
  | cmpxchg_rm32_r32 => exact sameAddress_cmpxchg_rm32_r32 flags bus c regs
  | xchg_ir16_ax => exact iff_of_true (sameAddress_of_no_write fun _ _ => List.not_mem_nil) trivial
  | xchg_ir32_eax => exact iff_of_true (sameAddress_of_no_write fun _ _ => List.not_mem_nil) trivial
  | xchg_rm8_r8 =>
    refine iff_of_true ?_ trivial
    unfold executeExchange ExecuteInst_xchg_rm8_r8 LoadRm8 StoreRm8
    apply sameAddress_xchg
  | xchg_rm16_r16 =>
    refine iff_of_true ?_ trivial
    unfold executeExchange ExecuteInst_xchg_rm16_r16 LoadRm16 StoreRm16
    apply sameAddress_xchg
  | xchg_rm32_r32 =>
    refine iff_of_true ?_ trivial
    unfold executeExchange ExecuteInst_xchg_rm32_r32 LoadRm32 StoreRm32
    apply sameAddress_xchg

end Instructions

def sameFlags : HostFlags where
  add8 eflags _ _ := eflags
  add32 eflags _ _ := eflags
  cmp32 eflags _ _ := eflags

def fromEax (base : Reg) : Fields where
  inst := { modrm_mod := 0, modrm_reg := 0, ea_base := base }
  glibc_segment_base := 0
  spec_mode := false

def fourRegs : Regs Unit := { Regs.initial () with
  eax := 4
  ebx := 4 }

theorem executeExchange_sameAddress_ebx :
    SameAddress ((executeExchange sameFlags (fromEax .ebx) fourRegs .xadd_rm32_r32).run zeroBus).1 :=
  (executeExchange_sameAddress_iff sameFlags zeroBus (fromEax .ebx) fourRegs .xadd_rm32_r32
    (by decide)).mpr fun _ _ => BitVec.mul_zero

/-- The address is in `eax`, and `eax` gets the operand before the store. -/
theorem not_sameAddress_eax :
    ¬ ∀ (flags : HostFlags) (bus : Bus) (c : Fields) (regs : Regs Unit) (op : Exchange),
      c.inst.modrm_reg < 8 → SameAddress ((executeExchange flags c regs op).run bus).1 := by
  intro h
  have hsame := h sameFlags zeroBus (fromEax .eax) fourRegs .xadd_rm32_r32 (by decide)
  exact absurd (hsame 4 4 0 4 (by decide) (by decide)) (by decide)

end OISA.Proofs.ExchangeAddresses
