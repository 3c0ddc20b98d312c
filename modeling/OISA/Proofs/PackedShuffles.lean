import OISA.Proofs.ExchangeAddresses
import OISA.X86.IsaSse

/-!
# What the packed shuffles and shifts compute

Each of the seven instructions is compared with its definition, lane by lane.
-/

namespace OISA.X86.IsaSse

open OISA.Lib
open XmmValue

variable {x src dest : XmmValue} {imm : BitVec 8} {i j n : ℕ}

def select (imm : BitVec 8) (i : ℕ) : ℕ := imm.toNat / 4 ^ i % 4

/-- The value that an instruction is defined to leave in its destination -/
def Packed.definition (op : Packed) (dest src : XmmValue) (imm : BitVec 8) : XmmValue :=
  match op with
  | .shufps => ofLanes 128 fun i =>
    if i < 2 then getAsInt dest (select imm i) else getAsInt src (select imm i)
  | .pshufd => ofLanes 128 fun i => getAsInt src (select imm i)
  | .pextrw => (getAsUShort src (imm.toNat % 8)).setWidth 128
  | .pinsrw => ofLanes 128 fun i =>
    if i = imm.toNat % 8 then src.setWidth 16 else getAsUShort dest i
  | .pslldq => src <<< (8 * min imm.toNat 16)
  | .psrldq => src >>> (8 * min imm.toNat 16)
  | .psrlq => ofLanes 128 fun i => getAsUInt64 src i >>> imm.toNat

def Packed.computed (op : Packed) (dest src : XmmValue) (imm : BitVec 8) : XmmValue :=
  match op with
  | .shufps => shufpsValue dest src imm
  | .pshufd => pshufdValue src imm
  | .pextrw => (getAsUShort src (imm &&& 7).toNat).setWidth 128
  | .pinsrw => setAsUShort dest (imm &&& 7).toNat (src.setWidth 16)
  | .pslldq => pslldqValue src imm
  | .psrldq => psrldqValue src imm
  | .psrlq => psrlqValue src imm

/-- The operands for which the value is the defined one -/
def Packed.Meets (op : Packed) (dest src : XmmValue) (imm : BitVec 8) : Prop :=
  match op with
  | .shufps => select imm 1 ≠ 0 ∨ getAsInt dest (select imm 0) = getAsInt dest 0
  | .pshufd =>
    (∀ i < 4, 0 < i → getAsInt src (select imm i) = 0) ∧
      getAsInt src (select imm 0) = ofLanes 32 fun i => getAsUChar src (select imm i)
  | .psrlq => imm = 0 ∨ ∀ i < 2, (getAsUInt64 src i).toNat < 2 ^ imm.toNat
  | _ => True

instance (op : Packed) (dest src : XmmValue) (imm : BitVec 8) : Decidable (op.Meets dest src imm) :=
  match op with
  | .shufps => inferInstanceAs (Decidable (_ ∨ _))
  | .pshufd => inferInstanceAs (Decidable (_ ∧ _))
  | .psrlq => inferInstanceAs (Decidable (_ ∨ _))
  | .pextrw | .pinsrw | .pslldq | .psrldq => inferInstanceAs (Decidable True)

lemma select_lt (imm : BitVec 8) (i : ℕ) : select imm i < 4 := Nat.mod_lt _ (by decide)

lemma toNat_and_mask (x : BitVec 8) : (x &&& 3).toNat = x.toNat % 4 := by
  rw [BitVec.toNat_and]
  exact Nat.and_two_pow_sub_one_eq_mod _ 2

lemma toNat_and_seven (x : BitVec 8) : (x &&& 7).toNat = x.toNat % 8 := by
  rw [BitVec.toNat_and]
  exact Nat.and_two_pow_sub_one_eq_mod _ 3

lemma select_zero (imm : BitVec 8) : (imm &&& 3).toNat = select imm 0 := by
  rw [toNat_and_mask, select, pow_zero, Nat.div_one]

lemma select_shift (imm : BitVec 8) (i : ℕ) : ((imm >>> (2 * i)) &&& 3).toNat = select imm i := by
  rw [toNat_and_mask, BitVec.toNat_ushiftRight, Nat.shiftRight_eq_div_pow, pow_mul]
  rfl

lemma lane_foldl (src : XmmValue) (a b n : ℕ) (hn : n + a ≤ 16) {k : ℕ} (hk : k < 16) :
    lane 8 ((List.range n).foldl
      (fun dest i => setAsUChar dest (i + a) (getAsUChar src (i + b))) zero) k =
      if a ≤ k ∧ k < a + n then lane 8 src (k - a + b) else 0 := by
  induction n with
  | zero =>
    rw [if_neg (by omega)]
    exact lane_zero k
  | succ n ih =>
    rw [List.range_succ, List.foldl_append, List.foldl_cons, List.foldl_nil, setAsUChar,
      lane_setLane _ _ _ (by omega)]
    by_cases hlast : k = n + a
    · subst hlast
      rw [if_pos rfl, if_pos (by omega), Nat.add_sub_cancel]
      rfl
    · rw [if_neg hlast, ih (by omega)]
      by_cases hin : a ≤ k ∧ k < a + n
      · rw [if_pos hin, if_pos (by omega)]
      · rw [if_neg hin, if_neg (by omega)]

lemma byteCount_eq (imm : BitVec 8) : byteCount imm = min imm.toNat 16 := by
  unfold byteCount
  split <;> omega

lemma lane_shiftLeft (x : XmmValue) (c : ℕ) {k : ℕ} (hk : k < 16) :
    lane 8 (x <<< (8 * c)) k = if c ≤ k then lane 8 x (k - c) else 0 := by
  apply BitVec.eq_of_getLsbD_eq
  intro j hj
  rw [getLsbD_lane, BitVec.getLsbD_shiftLeft, decide_eq_true (by omega : 8 * k + j < 128),
    Bool.true_and]
  by_cases hc : c ≤ k
  · have hbit : 8 * k + j - 8 * c = 8 * (k - c) + j := by omega
    rw [if_pos hc, getLsbD_lane, decide_eq_false (by omega : ¬8 * k + j < 8 * c), hbit,
      decide_eq_true hj]
    rfl
  · rw [if_neg hc, decide_eq_true (by omega : 8 * k + j < 8 * c), Bool.not_true, Bool.false_and,
      Bool.and_false]
    exact BitVec.getLsbD_zero.symm

lemma lane_ushiftRight (x : XmmValue) (c k : ℕ) :
    lane 8 (x >>> (8 * c)) k = lane 8 x (k + c) := by
  apply BitVec.eq_of_getLsbD_eq
  intro j _
  rw [getLsbD_lane, getLsbD_lane, BitVec.getLsbD_ushiftRight]
  congr 2
  ring

lemma lane_of_le (x : XmmValue) {k : ℕ} (hk : 16 ≤ k) : lane 8 x k = 0 := by
  apply BitVec.eq_of_getLsbD_eq
  intro j _
  rw [getLsbD_lane, BitVec.getLsbD_of_ge _ _ (by omega), Bool.and_false]
  exact BitVec.getLsbD_zero.symm

lemma pextrw_eq (src : XmmValue) (imm : BitVec 8) :
    Packed.pextrw.computed dest src imm = Packed.pextrw.definition dest src imm := by
  unfold Packed.computed Packed.definition
  rw [toNat_and_seven]

lemma pinsrw_eq (dest src : XmmValue) (imm : BitVec 8) :
    Packed.pinsrw.computed dest src imm = Packed.pinsrw.definition dest src imm := by
  unfold Packed.computed Packed.definition
  apply lane_ext (by decide : 0 < 16) (by decide : 128 ≤ 16 * 8)
  intro i hi
  rw [setAsUShort, lane_setLane _ _ _ (by omega), lane_ofLanes _ (by omega), toNat_and_seven]
  rfl

lemma pslldq_eq (src : XmmValue) (imm : BitVec 8) :
    pslldqValue src imm = src <<< (8 * min imm.toNat 16) := by
  apply lane_ext (by decide : 0 < 8) (by decide : 128 ≤ 8 * 16)
  intro k hk
  have hcount := byteCount_eq imm
  rw [lane_shiftLeft _ _ hk]
  refine (lane_foldl src (byteCount imm) 0 (16 - byteCount imm) (by omega) hk).trans ?_
  rw [← hcount]
  by_cases hle : byteCount imm ≤ k
  · rw [if_pos (by omega), if_pos hle, Nat.add_zero]
  · rw [if_neg (by omega), if_neg hle]

lemma psrldq_eq (src : XmmValue) (imm : BitVec 8) :
    psrldqValue src imm = src >>> (8 * min imm.toNat 16) := by
  apply lane_ext (by decide : 0 < 8) (by decide : 128 ≤ 8 * 16)
  intro k hk
  have hcount := byteCount_eq imm
  rw [lane_ushiftRight, ← hcount]
  refine (lane_foldl src 0 (byteCount imm) (16 - byteCount imm) (by omega) hk).trans ?_
  by_cases hlt : k < 16 - byteCount imm
  · rw [if_pos (by omega), Nat.sub_zero]
  · rw [if_neg (by omega), lane_of_le _ (by omega)]

lemma shufps_iff (dest src : XmmValue) (imm : BitVec 8) :
    Packed.shufps.computed dest src imm = Packed.shufps.definition dest src imm ↔
      Packed.shufps.Meets dest src imm := by
  have hselect : ∀ i, 32 * (select imm i + 1) ≤ 128 := by
    intro i
    have hlt := select_lt imm i
    omega
  have hcomputed : ∀ i < 4, lane 32 (Packed.shufps.computed dest src imm) i =
      if i = 1 then (if select imm 1 = 0 then getAsInt dest (select imm 0)
        else getAsInt dest (select imm 1))
      else if i < 2 then getAsInt dest (select imm i) else getAsInt src (select imm i) := by
    intro i hi
    have hlanes : 32 * (i + 1) ≤ 128 := by omega
    simp only [Packed.computed, shufpsValue, setAsInt, getAsInt]
    rw [select_zero imm, select_shift imm 1, select_shift imm 2, select_shift imm 3,
      lane_setLane dest 0 _ (hselect 1), lane_setLane _ 3 _ hlanes, lane_setLane _ 2 _ hlanes,
      lane_setLane _ 1 _ hlanes, lane_setLane _ 0 _ hlanes]
    interval_cases i <;> rfl
  have hdefined : ∀ i < 4, lane 32 (Packed.shufps.definition dest src imm) i =
      if i < 2 then getAsInt dest (select imm i) else getAsInt src (select imm i) := by
    intro i hi
    simp only [Packed.definition]
    rw [lane_ofLanes _ (by omega)]
  constructor
  · intro heq
    by_cases hzero : select imm 1 = 0
    · right
      have hlane := hcomputed 1 (by decide)
      rw [heq, hdefined 1 (by decide), if_pos (by decide), if_pos rfl, if_pos hzero, hzero] at hlane
      exact hlane.symm
    · exact .inl hzero
  · intro hmeets
    apply lane_ext (by decide : 0 < 32) (by decide : 128 ≤ 32 * 4)
    intro i hi
    rw [hcomputed i hi, hdefined i hi]
    by_cases hone : i = 1
    · subst hone
      rw [if_pos rfl, if_pos one_lt_two]
      by_cases hzero : select imm 1 = 0
      · rw [if_pos hzero, hzero]
        exact hmeets.resolve_left (not_not_intro hzero)
      · rw [if_neg hzero]
    · rw [if_neg hone]

lemma pshufd_iff (src : XmmValue) (imm : BitVec 8) :
    Packed.pshufd.computed dest src imm = Packed.pshufd.definition dest src imm ↔
      Packed.pshufd.Meets dest src imm := by
  have hbytes : ∀ k < 16, lane 8 (Packed.pshufd.computed dest src imm) k =
      if k < 4 then getAsUChar src (select imm k) else 0 := by
    intro k hk
    have hlanes : 8 * (k + 1) ≤ 128 := by omega
    simp only [Packed.computed, pshufdValue, setAsUChar]
    rw [select_zero imm, select_shift imm 1, select_shift imm 2, select_shift imm 3,
      lane_setLane _ 3 _ hlanes, lane_setLane _ 2 _ hlanes, lane_setLane _ 1 _ hlanes,
      lane_setLane _ 0 _ hlanes, zero, lane_zero]
    interval_cases k <;> rfl
  have hcomputed : ∀ i < 4, lane 32 (Packed.pshufd.computed dest src imm) i =
      if i = 0 then ofLanes 32 fun i => getAsUChar src (select imm i) else 0 := by
    intro i hi
    apply BitVec.eq_of_getLsbD_eq
    intro j hj
    rw [getLsbD_lane, decide_eq_true hj, Bool.true_and, getLsbD_eq_lane (by decide : 0 < 8),
      hbytes _ (by omega)]
    by_cases hzero : i = 0
    · subst hzero
      rw [if_pos (by omega), if_pos rfl, getLsbD_ofLanes _ hj, Nat.mul_zero, Nat.zero_add]
    · rw [if_neg (by omega), if_neg hzero]
      simp
  have hdefined : ∀ i < 4, lane 32 (Packed.pshufd.definition dest src imm) i =
      getAsInt src (select imm i) := by
    intro i hi
    simp only [Packed.definition]
    rw [lane_ofLanes _ (by omega)]
  constructor
  · intro heq
    refine ⟨fun i hi hpos => ?_, ?_⟩
    · have hlane := hcomputed i hi
      rwa [heq, hdefined i hi, if_neg (by omega)] at hlane
    · have hlane := hcomputed 0 (by decide)
      rwa [heq, hdefined 0 (by decide), if_pos rfl] at hlane
  · rintro ⟨hzeros, hfirst⟩
    apply lane_ext (by decide : 0 < 32) (by decide : 128 ≤ 32 * 4)
    intro i hi
    rw [hcomputed i hi, hdefined i hi]
    by_cases hzero : i = 0
    · subst hzero
      rw [if_pos rfl, hfirst]
    · rw [if_neg hzero, hzeros i hi (by omega)]

lemma toNat_count (imm : BitVec 8) :
    (getAsUInt64 (setAsUChar zero 1 imm) 0).toNat = 256 * imm.toNat := by
  have hcount : getAsUInt64 (setAsUChar zero 1 imm) 0 = imm.setWidth 64 <<< 8 := by
    apply BitVec.eq_of_getLsbD_eq
    intro j hj
    rw [getAsUInt64, getLsbD_lane, decide_eq_true hj, Bool.true_and, Nat.mul_zero, Nat.zero_add,
      getLsbD_eq_lane (by decide : 0 < 8), setAsUChar, lane_setLane _ _ _ (by omega), zero,
      lane_zero, BitVec.getLsbD_shiftLeft, decide_eq_true hj, BitVec.getLsbD_setWidth]
    by_cases hone : j / 8 = 1
    · have hmod : j % 8 = j - 8 := by omega
      rw [if_pos hone, hmod, decide_eq_false (by omega : ¬j < 8),
        decide_eq_true (by omega : j - 8 < 64)]
      rfl
    · rw [if_neg hone]
      by_cases hlow : j < 8
      · simp [hlow]
      · rw [BitVec.getLsbD_of_ge imm _ (by omega)]
        simp
  have hlt := imm.isLt
  rw [hcount, BitVec.toNat_shiftLeft, BitVec.toNat_setWidth, Nat.shiftLeft_eq]
  omega

lemma ushiftRight_eq_zero_iff (x : BitVec 64) (n : ℕ) : x >>> n = 0 ↔ x.toNat < 2 ^ n := by
  rw [← BitVec.toNat_inj, BitVec.toNat_ushiftRight, Nat.shiftRight_eq_div_pow]
  exact Nat.div_eq_zero_iff.trans (or_iff_right (by positivity))

lemma psrlq_iff (src : XmmValue) (imm : BitVec 8) :
    Packed.psrlq.computed dest src imm = Packed.psrlq.definition dest src imm ↔
      Packed.psrlq.Meets dest src imm := by
  have hcomputed : ∀ i < 2, lane 64 (Packed.psrlq.computed dest src imm) i =
      if imm = 0 then getAsUInt64 src i else 0 := by
    intro i hi
    simp only [Packed.computed, psrlqValue, hostPsrlq]
    rw [lane_ofLanes _ (by omega), toNat_count]
    by_cases hzero : imm = 0
    · subst hzero
      rw [if_pos rfl]
      exact BitVec.ushiftRight_zero _
    · have hpos : 0 < imm.toNat := Nat.pos_of_ne_zero fun hcontra =>
        hzero (BitVec.eq_of_toNat_eq hcontra)
      rw [if_neg hzero, ushiftRight_eq_zero_iff]
      exact (getAsUInt64 src i).isLt.trans_le (Nat.pow_le_pow_right (by decide) (by omega))
  have hdefined : ∀ i < 2, lane 64 (Packed.psrlq.definition dest src imm) i =
      getAsUInt64 src i >>> imm.toNat := by
    intro i hi
    simp only [Packed.definition]
    rw [lane_ofLanes _ (by omega)]
  constructor
  · intro heq
    by_cases hzero : imm = 0
    · exact .inl hzero
    · refine .inr fun i hi => ?_
      have hlane := hcomputed i hi
      rw [heq, hdefined i hi, if_neg hzero] at hlane
      exact (ushiftRight_eq_zero_iff _ _).mp hlane
  · intro hmeets
    apply lane_ext (by decide : 0 < 64) (by decide : 128 ≤ 64 * 2)
    intro i hi
    rw [hcomputed i hi, hdefined i hi]
    by_cases hzero : imm = 0
    · subst hzero
      rw [if_pos rfl]
      exact (BitVec.ushiftRight_zero _).symm
    · rw [if_neg hzero]
      exact ((ushiftRight_eq_zero_iff _ _).mpr (hmeets.resolve_left hzero i hi)).symm

theorem computed_iff (op : Packed) (dest src : XmmValue) (imm : BitVec 8) :
    op.computed dest src imm = op.definition dest src imm ↔ op.Meets dest src imm := by
  cases op with
  | shufps => exact shufps_iff dest src imm
  | pshufd => exact pshufd_iff src imm
  | pextrw => exact iff_of_true (pextrw_eq src imm) trivial
  | pinsrw => exact iff_of_true (pinsrw_eq dest src imm) trivial
  | pslldq => exact iff_of_true (pslldq_eq src imm) trivial
  | psrldq => exact iff_of_true (psrldq_eq src imm) trivial
  | psrlq => exact psrlq_iff src imm

section Instructions

open Registers
open Speculation (Word Regs)
open IsaMisc (Program Bus Fields getEffectiveAddress toBytes ofBytes StoreR32)

variable {F : Type} {c : Fields} {regs : Regs (Vectors F)} {bus : Bus}

/-- The source operand: a register, or bytes from memory with the lowest first -/
def operand (op : Packed) (c : Fields) (regs : Regs (Vectors F)) (bus : Bus) : Option XmmValue :=
  if c.inst.modrm_mod = 3 then
    some (if op = .pinsrw then (regs.word c.inst.modrm_rm).setWidth 16 |>.setWidth 128
      else regs.rest.xmm c.inst.modrm_rm)
  else
    (getEffectiveAddress c regs).toOption.bind fun address =>
      if op = .pinsrw then (bus.load address 2).map fun buffer => (ofBytes 16 buffer).setWidth 128
      else (bus.load address 8).bind fun low => (bus.load (address + 8) 8).map fun high =>
        ofBytes 64 high ++ ofBytes 64 low

def Packed.inPlace (op : Packed) : Bool := op = .pslldq || op = .psrldq || op = .psrlq

/-- The value in the destination: the other registers are as before, and nothing is written to
memory unless the destination lies there. -/
def destination (op : Packed) (c : Fields) (regs : Regs (Vectors F)) (value : XmmValue) :
    Regs (Vectors F) × List (Word × List UInt8) :=
  if op = .pextrw then (regs.setWord c.inst.modrm_reg (value.setWidth 32), [])
  else if !op.inPlace then (setXMM regs c.inst.modrm_reg value, [])
  else if c.inst.modrm_mod = 3 then (setXMM regs c.inst.modrm_rm value, [])
  else
    (regs, (getEffectiveAddress c regs).toOption.elim [] fun address =>
      [(address, toBytes (value.extractLsb' 0 64)),
        (address + 8, toBytes (value.extractLsb' 64 64))])

lemma setHalves (x : XmmValue) (high low : BitVec 64) :
    setAsUInt64 (setAsUInt64 x 0 low) 1 high = high ++ low := by
  apply lane_ext (by decide : 0 < 64) (by decide : 128 ≤ 64 * 2)
  intro i hi
  have hlanes : 64 * (i + 1) ≤ 128 := by omega
  rw [setAsUInt64, setAsUInt64, lane_setLane _ 1 _ hlanes, lane_setLane _ 0 _ hlanes]
  apply BitVec.eq_of_getLsbD_eq
  intro j hj
  rw [getLsbD_lane, BitVec.getLsbD_append, decide_eq_true hj, Bool.true_and]
  interval_cases i
  · simp [hj]
  · simp

lemma setHalves_getAsUInt64 (x value : XmmValue) :
    setAsUInt64 (setAsUInt64 x 0 (getAsUInt64 value 0)) 1 (getAsUInt64 value 1) = value := by
  apply lane_ext (by decide : 0 < 64) (by decide : 128 ≤ 64 * 2)
  intro i hi
  have hlanes : 64 * (i + 1) ≤ 128 := by omega
  rw [setAsUInt64, setAsUInt64, lane_setLane _ 1 _ hlanes, lane_setLane _ 0 _ hlanes]
  interval_cases i <;> rfl

lemma effect_loadXmmM128 {op : Packed} (hop : op ≠ .pinsrw)
    (next : XmmValue → Program (Vectors F)) :
    effect bus (LoadXmmM128 c regs next) =
      (operand op c regs bus).bind fun src => effect bus (next src) := by
  unfold LoadXmmM128 operand
  by_cases hmod : c.inst.modrm_mod = 3
  · rw [if_pos hmod, if_pos hmod, if_neg hop, Option.bind_some]
    dsimp only
    rw [setHalves_getAsUInt64]
  · rw [if_neg hmod, if_neg hmod]
    simp only [if_neg hop]
    cases getEffectiveAddress c regs with
    | error message => rfl
    | ok address =>
      simp only [effect, Except.toOption, Option.bind_some]
      cases bus.load address 8 with
      | none => rfl
      | some low =>
        simp only [Option.bind_some]
        cases bus.load (address + 8) 8 with
        | none => rfl
        | some high =>
          simp only [Option.map_some, Option.bind_some]
          rw [setHalves]

lemma effect_loadR32M16 (hrm : c.inst.modrm_rm < 8) (next : BitVec 16 → Program (Vectors F)) :
    effect bus (LoadR32M16 c regs next) =
      (operand .pinsrw c regs bus).bind fun src => effect bus (next (src.setWidth 16)) := by
  have hwidth : ∀ x : BitVec 16, (x.setWidth 128).setWidth 16 = x := by
    intro x
    rw [BitVec.setWidth_setWidth_of_le x (by decide), BitVec.setWidth_eq]
  unfold LoadR32M16 operand
  by_cases hmod : c.inst.modrm_mod = 3
  · rw [if_pos hmod, if_pos hmod, if_pos rfl, Option.bind_some, hwidth, Nat.add_comm,
      Proofs.ExchangeAddresses.read_general regs hrm]
  · rw [if_neg hmod, if_neg hmod]
    simp only [if_true]
    cases getEffectiveAddress c regs with
    | error message => rfl
    | ok address =>
      simp only [effect, Except.toOption, Option.bind_some]
      cases bus.load address 2 with
      | none => rfl
      | some buffer =>
        simp only [Option.map_some, Option.bind_some]
        rw [hwidth]

lemma storeR32_eq (hreg : c.inst.modrm_reg < 8) (value : Word) :
    StoreR32 c regs value = regs.setWord c.inst.modrm_reg value := by
  unfold StoreR32 Speculation.Regs.Write
  rw [Nat.add_comm, Proofs.ExchangeAddresses.info_general hreg]
  have hword : Info.word ⟨4 * c.inst.modrm_reg, 4⟩ = c.inst.modrm_reg :=
    Nat.mul_div_cancel_left _ (by decide)
  have hshift : Info.shift ⟨4 * c.inst.modrm_reg, 4⟩ = 0 := by
    unfold Info.shift
    rw [Nat.mul_mod_right]
  have hmask : mask 4 = BitVec.allOnes 32 := rfl
  simp only [hword, hshift, hmask, BitVec.shiftLeft_zero, BitVec.not_allOnes, BitVec.and_zero,
    BitVec.zero_or, BitVec.and_allOnes]

lemma effect_storeXmmM128 {op : Packed} (hop : op.inPlace = true) {value : XmmValue}
    {out : Regs (Vectors F) × List (Word × List UInt8)}
    (h : effect bus (StoreXmmM128 c regs value) = some out) :
    out = destination op c regs value ∧
      (c.inst.modrm_mod ≠ 3 → ∃ address, getEffectiveAddress c regs = .ok address) := by
  have hpextrw : op ≠ .pextrw := by
    rintro rfl
    cases hop
  unfold StoreXmmM128 at h
  unfold destination
  rw [if_neg hpextrw, hop, if_neg (by decide)]
  by_cases hmod : c.inst.modrm_mod = 3
  · rw [if_pos hmod] at h ⊢
    dsimp only at h
    rw [setHalves_getAsUInt64] at h
    exact ⟨(Option.some.inj h).symm, fun hcontra => absurd hmod hcontra⟩
  · rw [if_neg hmod] at h ⊢
    cases haddress : getEffectiveAddress c regs with
    | error message =>
      rw [haddress] at h
      cases h
    | ok address =>
      rw [haddress] at h
      refine ⟨?_, fun _ => ⟨address, rfl⟩⟩
      simp only [effect] at h
      split_ifs at h with hlow hhigh
      · exact (Option.some.inj h).symm
      · cases h

/-- An instruction that ends leaves the value that it computes in its destination. -/
lemma effect_executePacked (op : Packed) (hreg : c.inst.modrm_reg < 8) (hrm : c.inst.modrm_rm < 8)
    {out : Regs (Vectors F) × List (Word × List UInt8)}
    (h : effect bus (executePacked c regs op) = some out) :
    ∃ src, operand op c regs bus = some src ∧
      out = destination op c regs
        (op.computed (regs.rest.xmm c.inst.modrm_reg) src (getImmByte c.inst)) ∧
      (op.inPlace = true → c.inst.modrm_mod ≠ 3 →
        ∃ address, getEffectiveAddress c regs = .ok address) := by
  cases op with
  | shufps =>
    rw [executePacked, ExecuteInst_shufps_xmm_xmmm128_imm8,
      effect_loadXmmM128 (by decide : Packed.shufps ≠ .pinsrw), Option.bind_eq_some_iff] at h
    obtain ⟨src, hsrc, h⟩ := h
    exact ⟨src, hsrc, (Option.some.inj h).symm, fun h => absurd h (by decide)⟩
  | pshufd =>
    rw [executePacked, ExecuteInst_pshufd_xmm_xmmm128_imm8,
      effect_loadXmmM128 (by decide : Packed.pshufd ≠ .pinsrw), Option.bind_eq_some_iff] at h
    obtain ⟨src, hsrc, h⟩ := h
    exact ⟨src, hsrc, (Option.some.inj h).symm, fun h => absurd h (by decide)⟩
  | pextrw =>
    rw [executePacked, ExecuteInst_pextrw_r32_xmmm128_imm8,
      effect_loadXmmM128 (by decide : Packed.pextrw ≠ .pinsrw), Option.bind_eq_some_iff] at h
    obtain ⟨src, hsrc, h⟩ := h
    refine ⟨src, hsrc, ?_, fun h => absurd h (by decide)⟩
    rw [effect, storeR32_eq hreg] at h
    rw [← Option.some.inj h, destination, if_pos rfl, Packed.computed,
      BitVec.setWidth_setWidth_of_le _ (by decide)]
  | pinsrw =>
    rw [executePacked, ExecuteInst_pinsrw_xmm_r32m16_imm8, effect_loadR32M16 hrm,
      Option.bind_eq_some_iff] at h
    obtain ⟨src, hsrc, h⟩ := h
    exact ⟨src, hsrc, (Option.some.inj h).symm, fun h => absurd h (by decide)⟩
  | pslldq =>
    rw [executePacked, ExecuteInst_pslldq_xmmm128_imm8,
      effect_loadXmmM128 (by decide : Packed.pslldq ≠ .pinsrw), Option.bind_eq_some_iff] at h
    obtain ⟨src, hsrc, h⟩ := h
    obtain ⟨hout, haddress⟩ := effect_storeXmmM128 (rfl : Packed.pslldq.inPlace = true) h
    exact ⟨src, hsrc, hout, fun _ => haddress⟩
  | psrldq =>
    rw [executePacked, ExecuteInst_psrldq_xmmm128_imm8,
      effect_loadXmmM128 (by decide : Packed.psrldq ≠ .pinsrw), Option.bind_eq_some_iff] at h
    obtain ⟨src, hsrc, h⟩ := h
    obtain ⟨hout, haddress⟩ := effect_storeXmmM128 (rfl : Packed.psrldq.inPlace = true) h
    exact ⟨src, hsrc, hout, fun _ => haddress⟩
  | psrlq =>
    rw [executePacked, ExecuteInst_psrlq_xmmm128_imm8,
      effect_loadXmmM128 (by decide : Packed.psrlq ≠ .pinsrw), Option.bind_eq_some_iff] at h
    obtain ⟨src, hsrc, h⟩ := h
    obtain ⟨hout, haddress⟩ := effect_storeXmmM128 (rfl : Packed.psrlq.inPlace = true) h
    exact ⟨src, hsrc, hout, fun _ => haddress⟩

lemma setXMM_injective {index : ℕ} {value value' : XmmValue}
    (h : setXMM regs index value = setXMM regs index value') : value = value' := by
  have hxmm : (setXMM regs index value).rest.xmm index = value := Function.update_self ..
  rw [h] at hxmm
  exact hxmm.symm.trans (Function.update_self ..)

lemma toBytes_injective {x y : BitVec 64} (h : toBytes x = toBytes y) : x = y := by
  have hnat := congrArg leNat h
  unfold toBytes at hnat
  rw [leNat_leBytes_of_lt x.isLt, leNat_leBytes_of_lt y.isLt] at hnat
  exact BitVec.eq_of_toNat_eq hnat

lemma destination_injective {op : Packed} (hop : op ≠ .pextrw)
    (haddress : op.inPlace = true → c.inst.modrm_mod ≠ 3 →
      ∃ address, getEffectiveAddress c regs = .ok address) {value value' : XmmValue}
    (h : destination op c regs value = destination op c regs value') : value = value' := by
  unfold destination at h
  rw [if_neg hop, if_neg hop] at h
  cases hplace : op.inPlace with
  | false =>
    rw [hplace] at h
    exact setXMM_injective (congrArg Prod.fst h)
  | true =>
    have hnot : ¬ (!true) = true := Bool.false_ne_true
    rw [hplace, if_neg hnot, if_neg hnot] at h
    by_cases hmod : c.inst.modrm_mod = 3
    · rw [if_pos hmod, if_pos hmod] at h
      exact setXMM_injective (congrArg Prod.fst h)
    · obtain ⟨address, haddress⟩ := haddress hplace hmod
      rw [if_neg hmod, if_neg hmod, haddress] at h
      have hwrites := congrArg Prod.snd h
      simp only [Except.toOption, Option.elim_some, List.cons.injEq, Prod.mk.injEq, true_and,
        and_true] at hwrites
      apply lane_ext (by decide : 0 < 64) (by decide : 128 ≤ 64 * 2)
      intro i hi
      interval_cases i
      · exact toBytes_injective hwrites.1
      · exact toBytes_injective hwrites.2

lemma destination_eq_iff (op : Packed) (src : XmmValue)
    (haddress : op.inPlace = true → c.inst.modrm_mod ≠ 3 →
      ∃ address, getEffectiveAddress c regs = .ok address) :
    destination op c regs (op.computed dest src imm) =
        destination op c regs (op.definition dest src imm) ↔ op.Meets dest src imm := by
  rw [← computed_iff]
  constructor
  · intro hout
    by_cases hop : op = .pextrw
    · subst hop
      exact pextrw_eq src _
    · exact destination_injective hop haddress hout
  · intro hvalue
    rw [hvalue]

/-- An instruction that ends leaves the value of its definition in its destination, and everything
else as it was, exactly for the operands that meet its condition. -/
theorem executePacked_iff (op : Packed) (hreg : c.inst.modrm_reg < 8) (hrm : c.inst.modrm_rm < 8)
    {out : Regs (Vectors F) × List (Word × List UInt8)}
    (h : effect bus (executePacked c regs op) = some out) :
    ∃ src, operand op c regs bus = some src ∧
      (out = destination op c regs
          (op.definition (regs.rest.xmm c.inst.modrm_reg) src (getImmByte c.inst)) ↔
        op.Meets (regs.rest.xmm c.inst.modrm_reg) src (getImmByte c.inst)) := by
  obtain ⟨src, hsrc, rfl, haddress⟩ := effect_executePacked op hreg hrm h
  exact ⟨src, hsrc, destination_eq_iff op src haddress⟩

end Instructions

/-- XMM registers with the numbers from 1 up in their bytes -/
def countingRegs : Speculation.Regs (Vectors Unit) :=
  Speculation.Regs.initial ⟨(), fun _ => 0x100f0e0d0c0b0a090807060504030201#128⟩

/-- An instruction on the registers 1 and 2 -/
def registersInst (imm : ℕ) : IsaMisc.Fields :=
  ⟨{ modrm_mod := 3, modrm_reg := 1, modrm_rm := 2, imm := imm }, 0, false⟩

theorem executePacked_shufps :
    ∃ src, operand .shufps (registersInst 0xe4) countingRegs IsaMisc.zeroBus = some src ∧
      ((setXMM countingRegs 1 (shufpsValue (countingRegs.rest.xmm 1) (countingRegs.rest.xmm 2) 0xe4),
          []) = destination .shufps (registersInst 0xe4) countingRegs
            (Packed.shufps.definition (countingRegs.rest.xmm 1) src 0xe4) ↔
        Packed.shufps.Meets (countingRegs.rest.xmm 1) src 0xe4) := by
  refine executePacked_iff .shufps (by decide) (by decide) ?_
  rw [executePacked, ExecuteInst_shufps_xmm_xmmm128_imm8,
    effect_loadXmmM128 (by decide : Packed.shufps ≠ .pinsrw)]
  rfl

/-- `shufps` that copies the second lane and then the first one, `pshufd` that keeps every lane, and
`psrlq` by one bit -/
theorem executePacked_wrong : List.Forall (fun x => ∃ out,
    effect IsaMisc.zeroBus (executePacked (registersInst x.2) countingRegs x.1) = some out ∧
      ¬ ∃ src, operand x.1 (registersInst x.2) countingRegs IsaMisc.zeroBus = some src ∧
        out = destination x.1 (registersInst x.2) countingRegs
          (x.1.definition (countingRegs.rest.xmm 1) src (BitVec.ofNat 8 x.2)))
    [(Packed.shufps, 1), (Packed.pshufd, 0xe4), (Packed.psrlq, 1)] := by
  rw [List.forall_iff_forall_mem]
  intro x hx
  have hends : ∃ out, effect IsaMisc.zeroBus (executePacked (registersInst x.2) countingRegs x.1) =
      some out := by
    simp only [List.mem_cons, List.not_mem_nil, or_false] at hx
    rcases hx with rfl | rfl | rfl
    · exact ⟨_, rfl⟩
    · exact ⟨_, rfl⟩
    · exact ⟨_, rfl⟩
  obtain ⟨out, hout⟩ := hends
  refine ⟨out, hout, ?_⟩
  rintro ⟨src, hsrc, hright⟩
  obtain ⟨src', hsrc', hcomputed, haddress⟩ := effect_executePacked x.1
    (by decide : 1 < 8) (by decide : 2 < 8) hout
  obtain rfl := Option.some.inj (hsrc.symm.trans hsrc')
  have hmeets := (destination_eq_iff x.1 src haddress).mp (hcomputed.symm.trans hright)
  simp only [List.mem_cons, List.not_mem_nil, or_false] at hx
  rcases hx with rfl | rfl | rfl <;>
    · obtain rfl := Option.some.inj hsrc
      revert hmeets
      decide

end OISA.X86.IsaSse
