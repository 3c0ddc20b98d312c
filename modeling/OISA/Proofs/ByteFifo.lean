import OISA.Lib.Runs
import OISA.Util.Buffer

/-!
# Byte buffers are queues

A buffer represents the bytes that were written and not yet read, also round the end of its array
and when it grows.
-/

namespace OISA.Util

open OISA.Lib

structure Represents (buffer : buffer_t) (queue : List UInt8) : Prop where
  size_eq : buffer.data.length = buffer.size
  size_int : buffer.size < 2 ^ 31
  count_eq : buffer.count = queue.length
  tail_eq : buffer.tail = (buffer.head + buffer.count) % buffer.size
  circular : Circular buffer.data buffer.head queue

lemma int_of_lt {n : ℕ} (h : n < 2 ^ 31) : int n = some n := if_pos h

lemma int_of_le {n : ℕ} (h : 2 ^ 31 ≤ n) : int n = none := if_neg (not_lt.mpr h)

lemma copyFrom_eq {data : List UInt8} {offset size : ℕ} (h : offset + size ≤ data.length) :
    copyFrom data offset size = some ((data.drop offset).take size) := if_pos h

lemma copyTo_eq {data bytes : List UInt8} {offset : ℕ}
    (h : offset + bytes.length ≤ data.length) :
    copyTo data offset bytes = some (overwrite data offset bytes) := if_pos h

lemma represents_create (size : ℕ) (hpos : 0 < size) (hint : size < 2 ^ 31) :
    Represents (buffer_create size) [] where
  size_eq := List.length_replicate
  size_int := hint
  count_eq := rfl
  tail_eq := (Nat.zero_mod size).symm
  circular := .nil (by rw [buffer_create, List.length_replicate]; exact hpos)

def WriteFits (buffer : buffer_t) (size : ℕ) : Prop :=
  buffer.count + size < 2 ^ 31 ∧ if buffer.count + size ≤ buffer.size
    then buffer.tail + size < 2 ^ 31 else buffer.size * 2 < 2 ^ 31

variable {buffer : buffer_t} {queue : List UInt8}

namespace Represents

lemma head_lt (h : Represents buffer queue) : buffer.head < buffer.size :=
  h.size_eq ▸ h.circular.head_lt

lemma count_le (h : Represents buffer queue) : buffer.count ≤ buffer.size := by
  rw [h.count_eq, ← h.size_eq]
  exact h.circular.length_le

lemma tail_lt (h : Represents buffer queue) : buffer.tail < buffer.size := by
  rw [h.tail_eq]
  exact Nat.mod_lt _ (Nat.zero_lt_of_lt h.head_lt)

lemma grow (h : Represents buffer queue) (size : ℕ) (hsize : buffer.size ≤ size)
    (hcount : buffer.count < size) (hint : size < 2 ^ 31) :
    ∃ buffer', Util.grow buffer size = some (true, buffer') ∧ Represents buffer' queue ∧
      buffer'.size = size ∧ buffer'.tail = buffer.count := by
  have hhead := h.head_lt
  have hlength := h.size_eq
  have hright : ((buffer.data.drop buffer.head).take (buffer.size - buffer.head)) =
      buffer.data.drop buffer.head :=
    List.take_of_length_le (by rw [List.length_drop, hlength])
  have hright' : (buffer.data.drop buffer.head).length = buffer.size - buffer.head := by
    rw [List.length_drop, hlength]
  have hleft' : (buffer.data.take buffer.head).length = buffer.head := by
    rw [List.length_take]
    omega
  -- the two pieces are the front of the new array
  have hdata : overwrite (overwrite (List.replicate size (0 : UInt8)) 0
      (buffer.data.drop buffer.head)) (buffer.size - buffer.head) (buffer.data.take buffer.head) =
      buffer.data.drop buffer.head ++ buffer.data.take buffer.head ++
        (List.replicate size (0 : UInt8)).drop buffer.size := by
    have hsum : buffer.size - buffer.head + buffer.head = buffer.size := by omega
    unfold overwrite
    rw [List.take_zero, List.nil_append, hright', hleft', zero_add, hsum,
      List.take_append_of_le_length hright'.ge, List.take_of_length_le hright'.le,
      List.drop_append, hright', List.drop_eq_nil_of_le (hright'.trans_le (Nat.sub_le _ _)),
      List.nil_append, List.drop_drop]
    congr 2
    omega
  have hcircular := h.circular.unroll ((List.replicate size (0 : UInt8)).drop buffer.size)
  unfold Util.grow
  rw [if_neg (not_lt.mpr hsize), copyFrom_eq (by omega), hright]
  dsimp only [Option.bind_eq_bind, Option.bind_some]
  rw [copyTo_eq (by rw [hright', List.length_replicate]; omega), copyFrom_eq (by omega),
    List.drop_zero]
  dsimp only [Option.bind_some]
  rw [copyTo_eq (by
    rw [length_overwrite (by rw [hright', List.length_replicate]; omega), hleft',
      List.length_replicate]
    omega), hdata]
  refine ⟨_, rfl, ⟨?_, hint, h.count_eq, ?_, hcircular⟩, rfl, rfl⟩
  · rw [List.length_append, List.length_append, hright', hleft', List.length_drop,
      List.length_replicate]
    change _ = size
    omega
  · change buffer.count = (0 + buffer.count) % size
    rw [zero_add, Nat.mod_eq_of_lt hcount]

lemma growToFit (h : Represents buffer queue) (size : ℕ) :
    (growToFit buffer size = none ∧ (2 ^ 31 ≤ buffer.count + size ∨
      buffer.size < buffer.count + size ∧ 2 ^ 31 ≤ buffer.size * 2)) ∨
    ∃ buffer', Util.growToFit buffer size = some (true, buffer') ∧ Represents buffer' queue ∧
      buffer.count + size < 2 ^ 31 ∧ buffer'.count + size ≤ buffer'.size ∧
      (buffer.count + size ≤ buffer.size ∧ buffer' = buffer ∨
        buffer.size < buffer.count + size ∧ buffer.size * 2 < 2 ^ 31 ∧
          buffer'.tail = buffer.count) := by
  have hcount := h.count_le
  by_cases hint : buffer.count + size < 2 ^ 31
  swap
  · refine .inl ⟨?_, .inl (not_lt.mp hint)⟩
    rw [Util.growToFit, int_of_le (not_lt.mp hint)]
  by_cases hroom : buffer.count + size ≤ buffer.size
  · refine .inr ⟨buffer, ?_, h, hint, hroom, .inl ⟨hroom, rfl⟩⟩
    rw [Util.growToFit, int_of_lt hint]
    exact if_pos hroom
  by_cases hdouble : buffer.size * 2 < 2 ^ 31
  swap
  · refine .inl ⟨?_, .inr ⟨not_le.mp hroom, not_lt.mp hdouble⟩⟩
    rw [Util.growToFit, int_of_lt hint, int_of_le (not_lt.mp hdouble)]
    exact if_neg hroom
  -- one step makes enough room
  obtain ⟨buffer', hgrow, h', hsize, htail⟩ := h.grow
    (max (buffer.count + size) (buffer.size * 2)) (by omega) (by omega) (by omega)
  have hcount' : buffer'.count = buffer.count := h'.count_eq.trans h.count_eq.symm
  have hroom' : buffer'.count + size ≤ buffer'.size := by omega
  refine .inr ⟨buffer', ?_, h', hint, hroom', .inr ⟨not_le.mp hroom, hdouble, htail⟩⟩
  rw [Util.growToFit, int_of_lt hint, int_of_lt hdouble]
  dsimp only
  rw [if_neg hroom]
  split
  next grown hgrown =>
    obtain rfl : grown = buffer' := by
      rw [hgrow] at hgrown
      exact (Prod.mk.inj (Option.some.inj hgrown)).2.symm
    rw [Util.growToFit, int_of_lt (by omega)]
    exact if_pos hroom'
  next hno => exact absurd hgrow (hno buffer')

lemma read (h : Represents buffer queue) (n : ℕ) :
    (buffer_read buffer n = none ∧ 2 ^ 31 ≤ buffer.head + min n buffer.count) ∨
    ∃ buffer', buffer_read buffer n = some (queue.take n, buffer') ∧
      Represents buffer' (queue.drop n) ∧ buffer.head + min n buffer.count < 2 ^ 31 := by
  have hhead := h.head_lt
  have hcount := h.count_le
  have hsize := h.size_eq
  have hqueue := h.count_eq
  have htake : queue.take n = queue.take (min n buffer.count) := by
    rw [hqueue, List.take_eq_take_iff]
    omega
  have hdrop : queue.drop n = queue.drop (min n buffer.count) := by
    rw [hqueue]
    rcases le_total n queue.length with hn | hn
    · rw [min_eq_left hn]
    · rw [min_eq_right hn, List.drop_of_length_le hn, List.drop_of_length_le le_rfl]
  have hle : min n buffer.count ≤ queue.length := hqueue ▸ min_le_right _ _
  have hbytes := h.circular.take_eq hle
  rw [hsize] at hbytes
  unfold buffer_read
  dsimp only [Option.bind_eq_bind]
  rw [copyFrom_eq (by omega), copyFrom_eq (by omega), List.drop_zero]
  dsimp only [Option.bind_some]
  by_cases hint : buffer.head + min n buffer.count < 2 ^ 31
  · rw [int_of_lt hint, hbytes]
    refine .inr ⟨_, by rw [htake]; rfl, ?_, hint⟩
    rw [hdrop]
    refine ⟨hsize, h.size_int, ?_, ?_, ?_⟩
    · rw [List.length_drop, ← hqueue]
    · change buffer.tail = ((buffer.head + min n buffer.count) % buffer.size +
        (buffer.count - min n buffer.count)) % buffer.size
      rw [h.tail_eq, Nat.mod_add_mod]
      congr 1
      omega
    · have hmoved := h.circular.drop hle
      rwa [hsize] at hmoved
  · rw [int_of_le (not_lt.mp hint)]
    exact .inl ⟨rfl, not_lt.mp hint⟩

lemma write_roomy (h : Represents buffer queue) {bytes : List UInt8}
    (hroom : buffer.count + bytes.length ≤ buffer.size) (htail : buffer.tail + bytes.length < 2 ^ 31)
    (hint : buffer.count + bytes.length < 2 ^ 31) :
    ∃ data, (copyTo buffer.data buffer.tail
        (bytes.take (min (buffer.size - buffer.tail) bytes.length))).bind
        (copyTo · 0 (bytes.drop (min (buffer.size - buffer.tail) bytes.length))) = some data ∧
      Represents { buffer with
        data := data
        tail := (buffer.tail + bytes.length) % buffer.size
        count := buffer.count + bytes.length } (queue ++ bytes) := by
  have hsize := h.size_eq
  have hlt := h.tail_lt
  have hqueue := h.count_eq
  have hfits : buffer.tail + (bytes.take (min (buffer.size - buffer.tail) bytes.length)).length ≤
      buffer.data.length := by
    rw [List.length_take]
    omega
  have hfits' : 0 + (bytes.drop (min (buffer.size - buffer.tail) bytes.length)).length ≤
      (overwrite buffer.data buffer.tail
        (bytes.take (min (buffer.size - buffer.tail) bytes.length))).length := by
    rw [length_overwrite hfits, List.length_drop]
    omega
  have htail' : buffer.tail = (buffer.head + queue.length) % buffer.data.length := by
    rw [hsize, ← hqueue]
    exact h.tail_eq
  have hcircular := h.circular.append bytes (by omega) htail'
  rw [hsize] at hcircular
  refine ⟨overwrite (overwrite buffer.data buffer.tail
      (bytes.take (min (buffer.size - buffer.tail) bytes.length))) 0
      (bytes.drop (min (buffer.size - buffer.tail) bytes.length)), ?_,
    (length_overwrite hfits').trans ((length_overwrite hfits).trans hsize), h.size_int, ?_, ?_,
    hcircular⟩
  · rw [copyTo_eq hfits, Option.bind_some, copyTo_eq hfits']
  · change buffer.count + bytes.length = _
    rw [List.length_append, hqueue]
  · change (buffer.tail + bytes.length) % buffer.size =
      (buffer.head + (buffer.count + bytes.length)) % buffer.size
    rw [h.tail_eq, Nat.mod_add_mod, add_assoc]

lemma write (h : Represents buffer queue) (bytes : List UInt8) :
    (buffer_write buffer bytes = none ∧ ¬WriteFits buffer bytes.length) ∨
    ∃ buffer', buffer_write buffer bytes = some (bytes.length, buffer') ∧
      Represents buffer' (queue ++ bytes) ∧ WriteFits buffer bytes.length := by
  have hcount := h.count_le
  unfold buffer_write
  rcases h.growToFit bytes.length with ⟨hnone, hover⟩ | ⟨buffer', hsome, h', hint, hroom, hgrown⟩
  · left
    dsimp only [Option.bind_eq_bind]
    rw [hnone]
    refine ⟨rfl, fun hfits => ?_⟩
    obtain ⟨hsum, hrest⟩ := hfits
    rcases hover with hover | ⟨hlarge, hover⟩
    · omega
    · rw [if_neg (not_le.mpr hlarge)] at hrest
      omega
  have hcount' : buffer'.count = buffer.count := h'.count_eq.trans h.count_eq.symm
  dsimp only [Option.bind_eq_bind]
  rw [hsome]
  dsimp only [Option.bind_some]
  rw [if_neg (by decide : ¬(!true) = true)]
  by_cases htail : buffer'.tail + bytes.length < 2 ^ 31
  · obtain ⟨data, hcopy, hrep⟩ := h'.write_roomy hroom htail (by omega)
    right
    rw [Option.bind_eq_some_iff] at hcopy
    obtain ⟨data', hfirst, hsecond⟩ := hcopy
    rw [hfirst]
    dsimp only [Option.bind_some]
    rw [hsecond, int_of_lt htail, int_of_lt (by omega)]
    refine ⟨_, rfl, hrep, hint, ?_⟩
    rcases hgrown with ⟨hfit, rfl⟩ | ⟨hlarge, hdouble, -⟩
    · rw [if_pos hfit]
      exact htail
    · rw [if_neg (not_le.mpr hlarge)]
      exact hdouble
  · -- only a buffer that did not grow has its tail behind the count
    rcases hgrown with ⟨hfit, rfl⟩ | ⟨-, -, htail'⟩
    swap
    · omega
    left
    have hno : ¬WriteFits buffer' bytes.length := by
      rintro ⟨-, hrest⟩
      rw [if_pos hfit] at hrest
      exact htail hrest
    refine ⟨?_, hno⟩
    rw [int_of_le (not_lt.mp htail)]
    simp only [Option.bind_none, Option.bind_fun_none]

end Represents

inductive BufferOp
  | write (bytes : List UInt8)
  | read (size : ℕ)

/-- A buffer with the bytes that were written to it and read from it. -/
structure Session where
  buffer : buffer_t
  written : List UInt8 := []
  read : List UInt8 := []
  deriving DecidableEq, Repr

def BufferOp.perform : BufferOp → Session → Option Session
  | .write bytes, s => (buffer_write s.buffer bytes).map fun (_, buffer) =>
    { s with
      buffer := buffer
      written := s.written ++ bytes }
  | .read size, s => (buffer_read s.buffer size).map fun (dest, buffer) =>
    { s with
      buffer := buffer
      read := s.read ++ dest }

/-- The `int` sums of an operation stay in range. -/
def BufferOp.Fits : BufferOp → buffer_t → Prop
  | .write bytes, buffer => WriteFits buffer bytes.length
  | .read size, buffer => buffer.head + min size buffer.count < 2 ^ 31

def Session.Queued (s : Session) : Prop :=
  ∃ queue, Represents s.buffer queue ∧ s.read ++ queue = s.written

lemma queued_step {op : BufferOp} {s s' : Session} (h : s.Queued) (hstep : op.perform s = some s') :
    s'.Queued := by
  obtain ⟨queue, hrep, hbytes⟩ := h
  cases op with
  | write bytes =>
    rcases hrep.write bytes with ⟨hnone, -⟩ | ⟨buffer', hsome, hrep', -⟩
    · rw [BufferOp.perform, hnone] at hstep
      cases hstep
    · rw [BufferOp.perform, hsome] at hstep
      obtain rfl := Option.some.inj hstep
      exact ⟨_, hrep', by rw [← List.append_assoc, hbytes]⟩
  | read size =>
    rcases hrep.read size with ⟨hnone, -⟩ | ⟨buffer', hsome, hrep', -⟩
    · rw [BufferOp.perform, hnone] at hstep
      cases hstep
    · rw [BufferOp.perform, hsome] at hstep
      obtain rfl := Option.some.inj hstep
      exact ⟨_, hrep', by rw [List.append_assoc, List.take_append_drop, hbytes]⟩

lemma perform_isSome_iff {op : BufferOp} {s : Session} (h : s.Queued) :
    (op.perform s).isSome ↔ op.Fits s.buffer := by
  obtain ⟨queue, hrep, -⟩ := h
  cases op with
  | write bytes =>
    rcases hrep.write bytes with ⟨hnone, hno⟩ | ⟨buffer', hsome, -, hfits⟩
    · rw [BufferOp.perform, hnone]
      exact iff_of_false Bool.false_ne_true hno
    · rw [BufferOp.perform, hsome]
      exact iff_of_true rfl hfits
  | read size =>
    rcases hrep.read size with ⟨hnone, hover⟩ | ⟨buffer', hsome, -, hfits⟩
    · rw [BufferOp.perform, hnone]
      exact iff_of_false Bool.false_ne_true (not_lt.mpr hover)
    · rw [BufferOp.perform, hsome]
      exact iff_of_true rfl hfits

/-- **Byte queue**: after every run of writes and reads the bytes read are the first bytes written,
and the count is the number of the others. -/
theorem buffer_fifo {size : ℕ} (hpos : 0 < size) (hint : size < 2 ^ 31) {ops : List BufferOp}
    {s : Session} (hrun : run BufferOp.perform ops { buffer := buffer_create size } = some s) :
    (∃ unread, s.read ++ unread = s.written ∧ buffer_count s.buffer = unread.length ∧
      (∀ n dest buffer, buffer_read s.buffer n = some (dest, buffer) →
        dest = unread.take n ∧ dest.length = min n (buffer_count s.buffer)) ∧
      ∀ bytes n buffer, buffer_write s.buffer bytes = some (n, buffer) → n = bytes.length) ∧
    ∀ op : BufferOp, (op.perform s).isSome ↔ op.Fits s.buffer := by
  have hqueued : s.Queued := run_invariant (P := fun _ _ => True) (Q := Session.Queued)
    (fun _ _ _ h _ hstep => queued_step h hstep) ⟨[], represents_create _ hpos hint, rfl⟩
    (along_of_forall (fun _ _ => trivial) _ _) hrun
  refine ⟨?_, fun op => perform_isSome_iff hqueued⟩
  obtain ⟨queue, hrep, hbytes⟩ := hqueued
  refine ⟨queue, hbytes, hrep.count_eq, fun n dest buffer hread => ?_,
    fun bytes n buffer hwrite => ?_⟩
  · rcases hrep.read n with ⟨hnone, -⟩ | ⟨buffer', hsome, -, -⟩
    · rw [hnone] at hread
      cases hread
    · rw [hsome, Option.some.injEq, Prod.mk.injEq] at hread
      refine ⟨hread.1.symm, ?_⟩
      rw [← hread.1, List.length_take, buffer_count, hrep.count_eq]
  · rcases hrep.write bytes with ⟨hnone, -⟩ | ⟨buffer', hsome, -, -⟩
    · rw [hnone] at hwrite
      cases hwrite
    · rw [hsome, Option.some.injEq, Prod.mk.injEq] at hwrite
      exact hwrite.1.symm

/-- Three bytes written to a buffer of two, two of them read, and three more written: the array
grows while it is partly filled. -/
theorem buffer_fifo_growing : ∃ s, run BufferOp.perform
    [.write [1, 2], .read 1, .write [3], .write [4, 5, 6]] { buffer := buffer_create 2 } = some s ∧
    ∃ unread, s.read ++ unread = s.written ∧ buffer_count s.buffer = unread.length := by
  have hrun : (run BufferOp.perform [.write [1, 2], .read 1, .write [3], .write [4, 5, 6]]
      { buffer := buffer_create 2 }).isSome := by
    decide +kernel
  obtain ⟨s, hs⟩ := Option.isSome_iff_exists.mp hrun
  obtain ⟨⟨unread, hbytes, hcount, -⟩, -⟩ :=
    buffer_fifo (by norm_num : 0 < 2) (by norm_num) hs
  exact ⟨s, hs, unread, hbytes, hcount⟩

/-- A buffer that holds `2 ^ 31 - 1` bytes cannot count one more. -/
theorem not_buffer_unbounded : ¬∀ (size : ℕ) (ops : List BufferOp), 0 < size → size < 2 ^ 31 →
    ∃ s, run BufferOp.perform ops { buffer := buffer_create size } = some s := by
  intro hall
  obtain ⟨s, hs⟩ := hall (2 ^ 31 - 1) [.write (List.replicate (2 ^ 31 - 1) 0), .write [0]]
    (by norm_num) (by norm_num)
  have hlength : (List.replicate (2 ^ 31 - 1) (0 : UInt8)).length = 2 ^ 31 - 1 :=
    List.length_replicate
  generalize List.replicate (2 ^ 31 - 1) (0 : UInt8) = bytes at hs hlength
  rw [run_cons, Option.bind_eq_some_iff] at hs
  obtain ⟨s₁, hs₁, hs⟩ := hs
  rw [run_cons, Option.bind_eq_some_iff] at hs
  obtain ⟨s₂, hs₂, -⟩ := hs
  have hrep := represents_create (2 ^ 31 - 1) (by norm_num) (by norm_num)
  have hfits := (perform_isSome_iff (queued_step ⟨[], hrep, rfl⟩ hs₁)).mp
    (Option.isSome_of_eq_some hs₂)
  rcases hrep.write bytes with ⟨hnone, -⟩ | ⟨buffer', hsome, hrep', -⟩
  · rw [BufferOp.perform, hnone] at hs₁
    cases hs₁
  · rw [BufferOp.perform, hsome] at hs₁
    obtain rfl := Option.some.inj hs₁
    have hsum := hfits.1
    have hcount := hrep'.count_eq
    rw [List.nil_append, hlength] at hcount
    dsimp only [List.length_singleton] at hsum
    omega

end OISA.Util
