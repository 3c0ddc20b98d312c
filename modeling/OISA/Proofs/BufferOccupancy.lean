import OISA.Lib.Runs
import OISA.Lib.Timelines
import OISA.Net.Buffer

/-!
# The occupancy of buffers

The accumulated occupancy should be the total of what a buffer held in each cycle.
-/

namespace OISA.Net

open OISA.Lib

variable {P : Type} [DecidableEq P] (getSize : P → ℕ)

/-- The bytes of the packets in a buffer -/
def Buffer.bytes (buffer : Buffer P) : ℤ := (buffer.packets.map getSize).sum

/-- A buffer with the cycle of its last operation, and what it held in each cycle. -/
structure Observed (P : Type) where
  buffer : Buffer P
  cycle : ℕ := 0
  bytes : ℕ → ℤ := fun _ => 0
  packets : ℕ → ℤ := fun _ => 0

/-- An operation in a cycle that is not before the last one. -/
def Observed.perform (op : ℕ × BufferCall P) (s : Observed P) : Option (Observed P) :=
  if op.1 < s.cycle then none
  else (op.2.perform getSize op.1 s.buffer).map fun buffer => {
    buffer := buffer
    cycle := op.1
    bytes := Timeline.set s.bytes op.1 (buffer.bytes getSize)
    packets := Timeline.set s.packets op.1 buffer.packets.length }

/-- The accumulated occupancy is the total over the cycles that have passed. -/
structure Observed.Accounted (s : Observed P) : Prop where
  bytes : s.buffer.accumulated_occupancy_in_bytes = Timeline.total s.bytes s.cycle
  packets : s.buffer.accumulated_occupancy_in_packets = Timeline.total s.packets s.cycle

structure Buffer.Sampled (buffer : Buffer P) : Prop where
  bytes : buffer.occupancy_in_bytes = buffer.bytes getSize
  packets : buffer.occupancy_in_packets = buffer.packets.length

/-- An operation of a later cycle finds samples of the contents, and is not a removal. -/
def Observed.Meets (op : ℕ × BufferCall P) (s : Observed P) : Prop :=
  op.1 = s.cycle ∨ (∀ packet, op.2 ≠ .RemovePacket packet) ∧ s.buffer.Sampled getSize

/-- The samples are from the last operation, and the contents have been the same since. -/
structure Observed.Steady (s : Observed P) : Prop where
  measured : s.buffer.occupancy_measured_cycle = s.cycle
  bytes : ∀ i, s.cycle ≤ i → s.bytes i = s.buffer.bytes getSize
  packets : ∀ i, s.cycle ≤ i → s.packets i = s.buffer.packets.length

variable {getSize}

/-- What an insertion and an extraction do to the statistics -/
structure Measures (cycle : ℤ) (buffer buffer' : Buffer P) : Prop where
  bytes : buffer'.accumulated_occupancy_in_bytes = buffer.accumulated_occupancy_in_bytes +
    buffer.occupancy_in_bytes * (cycle - buffer.occupancy_measured_cycle)
  packets : buffer'.accumulated_occupancy_in_packets = buffer.accumulated_occupancy_in_packets +
    buffer.occupancy_in_packets * (cycle - buffer.occupancy_measured_cycle)
  measured : buffer'.occupancy_measured_cycle = cycle

lemma perform_cases {cycle : ℤ} {op : BufferCall P} {buffer buffer' : Buffer P}
    (h : op.perform getSize cycle buffer = some buffer') :
    ((∀ packet, op ≠ .RemovePacket packet) ∧ Measures cycle buffer buffer') ∨
    (∃ packet, op = .RemovePacket packet) ∧ buffer.packets ≠ [] ∧
      buffer'.accumulated_occupancy_in_bytes = buffer.accumulated_occupancy_in_bytes ∧
      buffer'.accumulated_occupancy_in_packets = buffer.accumulated_occupancy_in_packets ∧
      buffer'.occupancy_measured_cycle = buffer.occupancy_measured_cycle := by
  cases op with
  | InsertPacket packet =>
    left
    refine ⟨fun _ hno => (by cases hno), ?_⟩
    rw [BufferCall.perform, Buffer.InsertPacket] at h
    split_ifs at h
    obtain rfl := Option.some.inj h
    exact ⟨rfl, rfl, rfl⟩
  | ExtractPacket =>
    left
    refine ⟨fun _ hno => (by cases hno), ?_⟩
    rw [BufferCall.perform, Buffer.ExtractPacket] at h
    cases hpackets : buffer.packets with
    | nil =>
      rw [hpackets] at h
      cases h
    | cons packet packets =>
      rw [hpackets] at h
      obtain rfl := Option.some.inj h
      exact ⟨rfl, rfl, rfl⟩
  | RemovePacket packet =>
    right
    rw [BufferCall.perform, Buffer.RemovePacket] at h
    split_ifs at h with hmem
    obtain rfl := Option.some.inj h
    exact ⟨⟨packet, rfl⟩, List.ne_nil_of_mem hmem, rfl, rfl, rfl⟩

namespace Observed

variable {op : ℕ × BufferCall P} {s s' : Observed P}

lemma perform_eq_some (h : perform getSize op s = some s') : s.cycle ≤ op.1 ∧ ∃ buffer,
    op.2.perform getSize op.1 s.buffer = some buffer ∧ s' = {
      buffer := buffer
      cycle := op.1
      bytes := Timeline.set s.bytes op.1 (buffer.bytes getSize)
      packets := Timeline.set s.packets op.1 buffer.packets.length } := by
  rw [perform] at h
  split_ifs at h with hlt
  obtain ⟨buffer, hbuffer, rfl⟩ := Option.map_eq_some_iff.mp h
  exact ⟨not_lt.mp hlt, buffer, hbuffer, rfl⟩

/-- **One operation**: the account stays right exactly under the condition. -/
lemma accounted_step_iff (hsteady : s.Steady getSize) (haccount : s.Accounted)
    (h : perform getSize op s = some s') : s'.Accounted ↔ Meets getSize op s := by
  obtain ⟨hle, buffer, hbuffer, rfl⟩ := perform_eq_some h
  have hbytes := Timeline.total_of_constant hle hsteady.bytes
  have hpackets := Timeline.total_of_constant hle hsteady.packets
  rw [← haccount.bytes] at hbytes
  rw [← haccount.packets] at hpackets
  have hgoal : Accounted {
      buffer := buffer
      cycle := op.1
      bytes := Timeline.set s.bytes op.1 (buffer.bytes getSize)
      packets := Timeline.set s.packets op.1 buffer.packets.length } ↔
      buffer.accumulated_occupancy_in_bytes = s.buffer.accumulated_occupancy_in_bytes +
        s.buffer.bytes getSize * ((op.1 : ℤ) - s.cycle) ∧
      buffer.accumulated_occupancy_in_packets = s.buffer.accumulated_occupancy_in_packets +
        s.buffer.packets.length * ((op.1 : ℤ) - s.cycle) := by
    rw [← hbytes, ← hpackets]
    constructor
    · rintro ⟨hb, hp⟩
      exact ⟨hb.trans (Timeline.total_set le_rfl), hp.trans (Timeline.total_set le_rfl)⟩
    · rintro ⟨hb, hp⟩
      exact ⟨hb.trans (Timeline.total_set le_rfl).symm, hp.trans (Timeline.total_set le_rfl).symm⟩
  rw [hgoal]
  by_cases hsame : op.1 = s.cycle
  · -- no time has passed
    have hzero : (op.1 : ℤ) - s.cycle = 0 := by rw [hsame, sub_self]
    refine iff_of_true ?_ (.inl hsame)
    rw [hzero, mul_zero, mul_zero, add_zero, add_zero]
    rcases perform_cases hbuffer with ⟨-, hmeasures⟩ | ⟨-, -, hb, hp, -⟩
    · rw [hmeasures.bytes, hmeasures.packets, hsteady.measured, hzero, mul_zero, mul_zero,
        add_zero, add_zero]
      exact ⟨rfl, rfl⟩
    · exact ⟨hb, hp⟩
  · have hpos : (op.1 : ℤ) - s.cycle ≠ 0 := by
      rw [sub_ne_zero]
      exact_mod_cast hsame
    rw [Meets, or_iff_right hsame]
    rcases perform_cases hbuffer with ⟨hop, hmeasures⟩ | ⟨⟨packet, hop⟩, hnonempty, hb, hp, -⟩
    · rw [hmeasures.bytes, hmeasures.packets, hsteady.measured, add_right_inj, add_right_inj,
        mul_left_inj' hpos, mul_left_inj' hpos]
      constructor
      · rintro ⟨hb, hp⟩
        exact ⟨hop, hb, hp⟩
      · rintro ⟨-, hb, hp⟩
        exact ⟨hb, hp⟩
    · -- a removal adds nothing, while at least its packet was there
      refine iff_of_false ?_ fun hmeets => hmeets.1 packet hop
      rintro ⟨-, hpackets⟩
      rw [hp, left_eq_add, mul_eq_zero, or_iff_left hpos] at hpackets
      exact hnonempty (List.length_eq_zero_iff.mp (by exact_mod_cast hpackets))

lemma steady_step (hsteady : s.Steady getSize) (hmeets : Meets getSize op s)
    (h : perform getSize op s = some s') : s'.Steady getSize := by
  obtain ⟨hle, buffer, hbuffer, rfl⟩ := perform_eq_some h
  refine ⟨?_, fun i hi => Timeline.set_of_le hi, fun i hi => Timeline.set_of_le hi⟩
  rcases perform_cases hbuffer with ⟨-, hmeasures⟩ | ⟨⟨packet, hop⟩, -, -, -, hmeasured⟩
  · exact hmeasures.measured
  · rcases hmeets with hsame | ⟨hno, -⟩
    · change buffer.occupancy_measured_cycle = (op.1 : ℤ)
      rw [hmeasured, hsteady.measured, hsame]
    · exact absurd hop (hno packet)

/-- A buffer without packets, at cycle zero -/
def start (size : ℤ) : Observed P where
  buffer := { size := size }

omit [DecidableEq P] in
lemma steady_start (size : ℤ) : (start size : Observed P).Steady getSize :=
  ⟨rfl, fun _ _ => rfl, fun _ _ => rfl⟩

omit [DecidableEq P] in
lemma accounted_start (size : ℤ) : (start size : Observed P).Accounted :=
  ⟨(Finset.sum_range_zero _).symm, (Finset.sum_range_zero _).symm⟩

/-- **Occupancy**: the accumulated occupancy is right in every state exactly when each operation in
a later cycle is an insertion or an extraction that finds samples which agree with the contents. -/
theorem accounted_iff (getSize : P → ℕ) (size : ℤ) (ops : List (ℕ × BufferCall P)) :
    (∀ before, before <+: ops → ∀ s, run (perform getSize) before (start size) = some s →
      s.Accounted) ↔
    Along (perform getSize) (fun op s => (perform getSize op s).isSome → Meets getSize op s) ops
      (start size) := by
  rw [forall_reached_iff, and_iff_right (accounted_start size)]
  refine along_iff (Q := fun s => s.Steady getSize ∧ s.Accounted) ?_ ?_
    ⟨steady_start size, accounted_start size⟩
  · rintro op s ⟨hsteady, haccount⟩
    constructor
    · intro hall hsome
      obtain ⟨s', hs'⟩ := Option.isSome_iff_exists.mp hsome
      exact (accounted_step_iff hsteady haccount hs').mp (hall s' hs')
    · intro hmeets s' hs'
      exact (accounted_step_iff hsteady haccount hs').mpr
        (hmeets (Option.isSome_of_eq_some hs'))
  · rintro op s s' ⟨hsteady, haccount⟩ hmeets hs'
    have hmeets' := hmeets (Option.isSome_of_eq_some hs')
    exact ⟨steady_step hsteady hmeets' hs',
      (accounted_step_iff hsteady haccount hs').mpr hmeets'⟩

/-- A packet that stays for ten cycles is not counted when the next one comes. -/
theorem not_accounted : ¬∀ (getSize : ℕ → ℕ) (size : ℤ) (ops : List (ℕ × BufferCall ℕ))
    (s : Observed ℕ), run (perform getSize) ops (start size) = some s → s.Accounted := by
  intro h
  have haccount := h (fun _ => 4) 8 [(0, .InsertPacket 1), (10, .InsertPacket 2)] _ rfl
  exact absurd haccount.packets (by decide)

end Observed

end OISA.Net
