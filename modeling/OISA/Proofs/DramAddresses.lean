import OISA.Dram.System
import OISA.Lib.Bits

/-!
# Accepted DRAM addresses

The decoding cuts an address into bit fields.
-/

namespace OISA.Dram

open OISA.Lib

variable (controllers : List Geometry)

/-- The widths below the physical component, the lowest first. -/
def AddressSizes.offset (sizes : AddressSizes) : List ℕ :=
  [sizes.column_size, sizes.row_size, sizes.bank_size, sizes.rank_size, sizes.logical_size]

def Geometry.limits (c : Geometry) : List ℕ :=
  [c.num_columns, c.num_rows, c.num_banks, c.num_ranks, c.num_channels]

/-- The components below the physical one in the same order. -/
def Address.offset (a : Address) : List ℕ := [a.column, a.row, a.bank, a.rank, a.logical]

lemma Address.ext_offset {a b : Address} (hphysical : a.physical = b.physical)
    (h : a.offset = b.offset) : a = b := by
  obtain ⟨_, _, _, _, _, _⟩ := a
  obtain ⟨_, _, _, _, _, _⟩ := b
  simp only [Address.offset, List.cons.injEq] at h
  obtain ⟨rfl, rfl, rfl, rfl, rfl, _⟩ := h
  obtain rfl := hphysical
  rfl

lemma located_iff (a : Address) :
    Located controllers a ↔
      ∃ c, controllers[a.physical]? = some c ∧ Below a.offset c.limits := by
  simp only [Located, Address.offset, Geometry.limits, Below, and_true]
  exact exists_congr fun c => and_congr_right fun _ => by tauto

lemma DecodeAddress_offset (sizes : AddressSizes) (n : ℕ) :
    (DecodeAddress sizes n).offset = fields sizes.offset n := by
  simp only [DecodeAddress, Address.offset, AddressSizes.offset, fields]
  norm_cast

lemma DecodeAddress_physical (sizes : AddressSizes) (n : ℕ) :
    (DecodeAddress sizes n).physical =
      n / 2 ^ sizes.offset.sum % 2 ^ sizes.physical_size := by
  simp only [DecodeAddress, AddressSizes.offset, List.sum_cons, List.sum_nil, add_zero, pow_add,
    ← Nat.div_div_eq_div_mul]
  norm_cast

lemma two_pow_shifts_le (fuel : ℕ) {num : ℕ} (h : 0 < num) : 2 ^ shifts fuel num ≤ num := by
  induction fuel generalizing num with
  | zero => exact h
  | succ fuel ih =>
    rw [shifts]
    by_cases hzero : num / 2 = 0
    · rw [if_pos hzero]
      exact h
    · rw [if_neg hzero, pow_succ]
      have hhalf := ih (Nat.pos_of_ne_zero hzero)
      omega

/-- The addresses of one controller. -/
def block : ℕ := 2 ^ (GenerateAddressSizes controllers).offset.sum

def Accepted (a : ℤ) (r : Request) : Prop :=
  Read controllers a = some r ∨ Write controllers a = some r

lemma request_eq_some {type : RequestType} {a : ℤ} {r : Request} :
    request controllers type a = some r ↔ (0 ≤ a ∧ a ≤ getCapacity controllers) ∧
      r = Request.new (GenerateAddressSizes controllers) type a := by
  unfold request
  by_cases h : a < 0 ∨ a > getCapacity controllers
  · rw [if_pos h]
    exact ⟨nofun, fun ⟨hin, _⟩ => by omega⟩
  · rw [if_neg h, Option.some.injEq, eq_comm]
    exact ⟨fun hr => ⟨by omega, hr⟩, And.right⟩

lemma accepted_iff {a : ℤ} {r : Request} :
    Accepted controllers a r ↔ (0 ≤ a ∧ a ≤ getCapacity controllers) ∧
      (r = Request.new (GenerateAddressSizes controllers) .RequestRead a ∨
        r = Request.new (GenerateAddressSizes controllers) .RequestWrite a) := by
  rw [Accepted, Read, Write, request_eq_some, request_eq_some, and_or_left]

/-- Every accepted address has a location. -/
def AllLocated : Prop := ∀ a r, Accepted controllers a r → Located controllers r.address

/-- Different accepted addresses have different locations. -/
def AllDistinct : Prop :=
  ∀ a b r r', Accepted controllers a r → Accepted controllers b r' → r.address = r'.address → a = b

def decoded (n : ℕ) : Address := DecodeAddress (GenerateAddressSizes controllers) n

lemma decoded_offset (n : ℕ) :
    (decoded controllers n).offset = fields (GenerateAddressSizes controllers).offset n :=
  DecodeAddress_offset _ n

lemma decoded_physical (n : ℕ) : (decoded controllers n).physical =
    n / block controllers % 2 ^ (GenerateAddressSizes controllers).physical_size :=
  DecodeAddress_physical _ n

lemma allLocated_iff {capacity : ℕ} (hcap : getCapacity controllers = capacity) :
    AllLocated controllers ↔ ∀ n ≤ capacity, Located controllers (decoded controllers n) := by
  constructor
  · intro h n hn
    exact h n _ ((accepted_iff controllers).mpr ⟨⟨Int.natCast_nonneg n, by omega⟩, .inl rfl⟩)
  · intro h a r hr
    obtain ⟨⟨hnonneg, hle⟩, hr⟩ := (accepted_iff controllers).mp hr
    obtain ⟨n, rfl⟩ := Int.eq_ofNat_of_zero_le hnonneg
    have hn := h n (by omega)
    rcases hr with rfl | rfl <;> exact hn

lemma allDistinct_iff {capacity : ℕ} (hcap : getCapacity controllers = capacity) :
    AllDistinct controllers ↔ ∀ n ≤ capacity, ∀ m ≤ capacity,
      decoded controllers n = decoded controllers m → n = m := by
  constructor
  · intro h n hn m hm heq
    have haccept : ∀ k : ℕ, k ≤ capacity → Accepted controllers k
        (Request.new (GenerateAddressSizes controllers) .RequestRead k) := fun k hk =>
      (accepted_iff controllers).mpr ⟨⟨Int.natCast_nonneg k, by omega⟩, .inl rfl⟩
    exact Int.ofNat.inj (h n m _ _ (haccept n hn) (haccept m hm) heq)
  · intro h a b r r' hr hr' heq
    obtain ⟨⟨hnonneg, hle⟩, hr⟩ := (accepted_iff controllers).mp hr
    obtain ⟨⟨hnonneg', hle'⟩, hr'⟩ := (accepted_iff controllers).mp hr'
    obtain ⟨n, rfl⟩ := Int.eq_ofNat_of_zero_le hnonneg
    obtain ⟨m, rfl⟩ := Int.eq_ofNat_of_zero_le hnonneg'
    have hnm := h n (by omega) m (by omega)
    have heq' : decoded controllers n = decoded controllers m := by
      rcases hr with rfl | rfl <;> rcases hr' with rfl | rfl <;> exact heq
    rw [hnm heq']

lemma decoded_injective_iff (capacity : ℕ) :
    (∀ n ≤ capacity, ∀ m ≤ capacity, decoded controllers n = decoded controllers m → n = m) ↔
      capacity < block controllers * 2 ^ (GenerateAddressSizes controllers).physical_size := by
  set range := block controllers * 2 ^ (GenerateAddressSizes controllers).physical_size
  have hblock : 0 < block controllers := Nat.two_pow_pos _
  constructor
  · intro h
    by_contra hge
    rw [not_lt] at hge
    -- the first number out of range decodes like zero
    have heq : decoded controllers range = decoded controllers 0 := by
      apply Address.ext_offset
      · rw [decoded_physical, decoded_physical, Nat.mul_div_cancel_left _ hblock, Nat.mod_self,
          Nat.zero_div, Nat.zero_mod]
      · rw [decoded_offset, decoded_offset]
        have hadd := fields_add_mul (GenerateAddressSizes controllers).offset 0
          (2 ^ (GenerateAddressSizes controllers).physical_size)
        rw [zero_add] at hadd
        exact hadd
    have hzero := h range hge 0 (Nat.zero_le _) heq
    have hpos : 0 < range := Nat.mul_pos hblock (Nat.two_pow_pos _)
    omega
  · intro h n hn m hm heq
    have hphysical := congrArg Address.physical heq
    have hoffset := congrArg Address.offset heq
    rw [decoded_physical, decoded_physical, Nat.mod_eq_of_lt (Nat.div_lt_of_lt_mul (by omega)),
      Nat.mod_eq_of_lt (Nat.div_lt_of_lt_mul (by omega))] at hphysical
    rw [decoded_offset, decoded_offset] at hoffset
    have hsplit : ∀ k, fields (GenerateAddressSizes controllers).offset k =
        fields (GenerateAddressSizes controllers).offset (k % block controllers) := by
      intro k
      conv_lhs => rw [← Nat.mod_add_div k (block controllers)]
      exact fields_add_mul _ _ _
    rw [hsplit n, hsplit m] at hoffset
    have hmod : n % block controllers = m % block controllers :=
      fields_injective (Nat.mod_lt _ hblock) (Nat.mod_lt _ hblock) hoffset
    rw [← Nat.div_add_mod n (block controllers), ← Nat.div_add_mod m (block controllers), hmod,
      hphysical]

lemma located_up_to_iff {capacity : ℕ} (hpos : 0 < controllers.length)
    (hroom : capacity < block controllers * 2 ^ (GenerateAddressSizes controllers).physical_size) :
    (∀ n ≤ capacity, Located controllers (decoded controllers n)) ↔
      ∀ p c, controllers[p]? = some c → block controllers * p ≤ capacity →
        Within (GenerateAddressSizes controllers).offset c.limits
          (min (capacity - block controllers * p) (block controllers - 1)) := by
  have hblock : 0 < block controllers := Nat.two_pow_pos _
  have hphysical : ∀ n ≤ capacity, (decoded controllers n).physical = n / block controllers := by
    intro n hn
    rw [decoded_physical, Nat.mod_eq_of_lt (Nat.div_lt_of_lt_mul (by omega))]
  constructor
  · intro h p c hc hreach
    rw [← below_fields_iff]
    intro k hk
    have hk' : k < block controllers := by omega
    have hn : k + block controllers * p ≤ capacity := by omega
    obtain ⟨c', hc', hbelow⟩ := (located_iff controllers _).mp (h _ hn)
    rw [hphysical _ hn, Nat.add_mul_div_left _ _ hblock, Nat.div_eq_of_lt hk', zero_add, hc,
      Option.some.injEq] at hc'
    subst hc'
    rw [decoded_offset] at hbelow
    rwa [show fields (GenerateAddressSizes controllers).offset (k + block controllers * p) = _
      from fields_add_mul _ _ _] at hbelow
  · intro h n hn
    have hlt : n / block controllers < controllers.length := by
      have hdiv : n / block controllers < 2 ^ (GenerateAddressSizes controllers).physical_size :=
        Nat.div_lt_of_lt_mul (by omega)
      exact hdiv.trans_le (two_pow_shifts_le 32 hpos)
    obtain ⟨c, hc⟩ : ∃ c, controllers[n / block controllers]? = some c :=
      ⟨_, List.getElem?_eq_getElem hlt⟩
    have hsum := Nat.mod_add_div n (block controllers)
    have hmod := Nat.mod_lt n hblock
    have hwithin := h _ c hc (by omega)
    rw [← below_fields_iff] at hwithin
    refine (located_iff controllers _).mpr ⟨c, by rw [hphysical n hn]; exact hc, ?_⟩
    rw [decoded_offset]
    have hbelow := hwithin (n % block controllers) (by omega)
    have hfields : fields (GenerateAddressSizes controllers).offset n =
        fields (GenerateAddressSizes controllers).offset (n % block controllers) := by
      conv_lhs => rw [← hsum]
      exact fields_add_mul _ _ _
    rwa [hfields]

/-- The geometries without a slip: the accepted range is empty, or below the range of the bit
fields and, in each controller it reaches, within the size of the controller. -/
def GeometryFits : Prop :=
  getCapacity controllers < 0 ∨
    0 < controllers.length ∧
    (getCapacity controllers).toNat <
      block controllers * 2 ^ (GenerateAddressSizes controllers).physical_size ∧
    ∀ p c, controllers[p]? = some c → block controllers * p ≤ (getCapacity controllers).toNat →
      Within (GenerateAddressSizes controllers).offset c.limits
        (min ((getCapacity controllers).toNat - block controllers * p) (block controllers - 1))

/-- **DRAM address mapping**: the accepted addresses decode to different existing locations
exactly when the geometry fits. -/
theorem addresses_mapped_iff :
    AllLocated controllers ∧ AllDistinct controllers ↔ GeometryFits controllers := by
  unfold GeometryFits
  by_cases hneg : getCapacity controllers < 0
  · have hnone : ∀ a r, ¬Accepted controllers a r := fun a r hr => by
      obtain ⟨⟨hnonneg, hle⟩, _⟩ := (accepted_iff controllers).mp hr
      omega
    exact ⟨fun _ => .inl hneg, fun _ => ⟨fun a r hr => absurd hr (hnone a r),
      fun a _ r _ hr => absurd hr (hnone a r)⟩⟩
  · obtain ⟨capacity, hcap⟩ := Int.eq_ofNat_of_zero_le (not_lt.mp hneg)
    rw [allLocated_iff controllers hcap, allDistinct_iff controllers hcap,
      decoded_injective_iff, hcap, Int.toNat_natCast]
    constructor
    · rintro ⟨hlocated, hroom⟩
      have hpos : 0 < controllers.length := by
        obtain ⟨c, hc, _⟩ := hlocated 0 (Nat.zero_le _)
        obtain ⟨hlt, _⟩ := List.getElem?_eq_some_iff.mp hc
        omega
      exact .inr ⟨hpos, hroom, (located_up_to_iff controllers hpos hroom).mp hlocated⟩
    · rintro (hneg' | ⟨hpos, hroom, hwithin⟩)
      · omega
      · exact ⟨(located_up_to_iff controllers hpos hroom).mpr hwithin, hroom⟩

/-- The default geometry of one controller. -/
def defaultGeometry : Geometry where
  num_channels := 1
  num_ranks := 2
  num_banks := 8
  num_rows := 1024
  num_columns := 1024
  valid := by decide

/-- The default configuration accepts the addresses zero and 2²⁴, which have one location. -/
theorem default_addresses_collide :
    getCapacity [defaultGeometry] = 2 ^ 24 ∧
      (∃ r r', Read [defaultGeometry] 0 = some r ∧ Read [defaultGeometry] (2 ^ 24) = some r' ∧
        r.address = r'.address) ∧ ¬AllDistinct [defaultGeometry] := by
  have hzero : Read [defaultGeometry] 0 =
      some (Request.new (GenerateAddressSizes [defaultGeometry]) .RequestRead 0) := by
    decide +kernel
  have hlast : Read [defaultGeometry] (2 ^ 24) =
      some (Request.new (GenerateAddressSizes [defaultGeometry]) .RequestRead (2 ^ 24)) := by
    decide +kernel
  have hsame : (Request.new (GenerateAddressSizes [defaultGeometry]) .RequestRead 0).address =
      (Request.new (GenerateAddressSizes [defaultGeometry]) .RequestRead (2 ^ 24)).address := by
    decide +kernel
  refine ⟨by decide +kernel, ⟨_, _, hzero, hlast, hsame⟩, fun h => ?_⟩
  exact absurd (h 0 (2 ^ 24) _ _ (.inl hzero) (.inl hlast) hsame) (by norm_num)

end OISA.Dram
