import OISA.Memory.Accesses
import OISA.Lib.Runs

/-!
# Coalesced accesses

What the lists of in-flight accesses of a module keep over every sequence of first and last events
of accesses.
-/

namespace OISA.Memory.Accesses

open OISA.Esim OISA.Lib

section Groups

/-- From the master frame to the access there are only accesses of its kind, and only to its block
if it is a write. -/
def Group (m : Accesses) (master_frame frame : FrameId) : Prop :=
  ∃ older between younger,
    m.accesses = older ++ master_frame :: (between ++ frame :: younger) ∧
    ∀ f ∈ master_frame :: between,
      (m.frames f).access_type = (m.frames frame).access_type ∧
      ((m.frames frame).access_type ≠ .Load → m.block f = m.block frame)

/-- What a master frame is to the access that is attached to it. -/
structure Attached (m : Accesses) (master_frame frame : FrameId) : Prop where
  group : m.Group master_frame frame
  same_block : m.block master_frame = m.block frame
  no_master : (m.frames master_frame).master_frame = none
  coalesced : (m.frames frame).coalesced = true

structure Consistent (m : Accesses) : Prop where
  nodup : m.accesses.Nodup
  typed : ∀ f ∈ m.accesses, (m.frames f).access_type ≠ .Invalid
  writes : m.write_accesses = m.accesses.filter fun f => (m.frames f).access_type = .Store
  table : m.in_flight_block_addresses = m.accesses.map fun f => (m.block f, f)
  ids : m.in_flight_access_ids = m.accesses
  count : m.num_coalesced_accesses = m.accesses.countP fun f => (m.frames f).coalesced
  attached : ∀ f ∈ m.accesses, ∀ a, (m.frames f).master_frame = some a → m.Attached a f

lemma consistent_new (log_block_size : ℕ) : Consistent (new log_block_size) where
  nodup := List.nodup_nil
  typed := by intro f hf; cases hf
  writes := rfl
  table := rfl
  ids := rfl
  count := rfl
  attached := by intro f hf; cases hf

variable {m m' : Accesses}

lemma Group.congr {a f : FrameId} (h : m.Group a f)
    (hlist : ∃ younger, m'.accesses = m.accesses ++ younger)
    (htype : ∀ g ∈ m.accesses, (m'.frames g).access_type = (m.frames g).access_type)
    (hblock : ∀ g ∈ m.accesses, m'.block g = m.block g) : m'.Group a f := by
  obtain ⟨older, between, younger, hsplit, hkind⟩ := h
  obtain ⟨more, hmore⟩ := hlist
  have hmem : ∀ g ∈ a :: between, g ∈ m.accesses := by
    intro g hg
    rw [hsplit]
    simp only [List.mem_append, List.mem_cons] at hg ⊢
    tauto
  have hf : f ∈ m.accesses := by
    rw [hsplit]
    simp
  refine ⟨older, between, younger ++ more, ?_, ?_⟩
  · rw [hmore, hsplit]
    simp
  · intro g hg
    rw [htype g (hmem g hg), htype f hf, hblock g (hmem g hg), hblock f hf]
    exact hkind g hg

lemma Group.mem {a f : FrameId} (h : m.Group a f) : a ∈ m.accesses ∧ f ∈ m.accesses := by
  obtain ⟨older, between, younger, hsplit, _⟩ := h
  rw [hsplit]
  simp

end Groups

/-! ## The access to coalesce with -/

section Find

variable {m : Accesses} {access_type : Module.AccessType} {address : ℕ}

/-- The list ends with accesses of the kind, from the frame on, and the frame has the block. -/
structure Tail (m : Accesses) (access_type : Module.AccessType) (address : ℕ) (list : List FrameId)
    (a : FrameId) : Prop where
  split : ∃ older between, list = older ++ a :: between ∧
    ∀ f ∈ a :: between, (m.frames f).access_type = access_type ∧
      (access_type ≠ .Load → m.block f = address >>> m.log_block_size)
  same_block : m.block a = address >>> m.log_block_size
  no_master : (m.frames a).master_frame = none

lemma masterOf_tail (h : Consistent m) {older between : List FrameId} {f : FrameId}
    (hlist : m.accesses = older ++ f :: between)
    (hkind : ∀ g ∈ f :: between, (m.frames g).access_type = access_type ∧
      (access_type ≠ .Load → m.block g = address >>> m.log_block_size))
    (hblock : m.block f = address >>> m.log_block_size) :
    ∃ a, m.masterOf f = some (some a) ∧ m.Tail access_type address m.accesses a := by
  unfold masterOf
  cases hmaster : (m.frames f).master_frame with
  | none => exact ⟨f, rfl, ⟨older, between, hlist, hkind⟩, hblock, hmaster⟩
  | some a =>
    have hf : f ∈ m.accesses := by
      rw [hlist]
      simp
    obtain ⟨⟨older', between', younger', hsplit, hgroup⟩, hsame, hnone, _⟩ :=
      h.attached f hf a hmaster
    refine ⟨a, if_pos hnone, ⟨older', between' ++ f :: younger', hsplit, ?_⟩,
      hsame.trans hblock, hnone⟩
    -- the frame is at one position of the list only
    have hnodup := h.nodup
    rw [hlist] at hnodup hsplit
    have hnot := (List.nodup_middle.mp hnodup).notMem
    rw [List.mem_append, not_or] at hnot
    have hsplit' : older ++ f :: between = (older' ++ a :: between') ++ f :: younger' := by
      rw [hsplit]
      simp
    have hnot' : f ∉ older' ++ a :: between' ∧ f ∉ younger' := by
      rw [hsplit'] at hnodup
      have hnotMem := (List.nodup_middle.mp hnodup).notMem
      rw [List.mem_append, not_or] at hnotMem
      exact hnotMem
    have hyounger : between = younger' :=
      ((List.append_cons_inj_of_notMem hnot'.1 hnot'.2).mp hsplit'.symm).2.2.symm
    obtain ⟨htype, hwrite⟩ := hkind f List.mem_cons_self
    intro g hg
    rw [← List.cons_append, List.mem_append] at hg
    cases hg with
    | inl hbefore =>
      have hg := hgroup g hbefore
      rw [htype, hblock] at hg
      exact hg
    | inr hafter =>
      rw [← hyounger] at hafter
      exact hkind g hafter

lemma coalesceLoad_tail (h : Consistent m) (list between : List FrameId)
    (hlist : m.accesses = list.reverse ++ between)
    (hloads : ∀ g ∈ between, (m.frames g).access_type = .Load) :
    ∃ found, m.coalesceLoad address list = some found ∧
      ∀ a, found = some a → m.Tail .Load address m.accesses a := by
  induction list generalizing between with
  | nil => exact ⟨none, rfl, fun a ha => by cases ha⟩
  | cons f rest ih =>
    rw [List.reverse_cons, List.append_assoc, List.singleton_append] at hlist
    unfold coalesceLoad
    by_cases htype : (m.frames f).access_type = .Load
    · have hkind : ∀ g ∈ f :: between, (m.frames g).access_type = .Load := by
        intro g hg
        cases List.mem_cons.mp hg with
        | inl heq => rw [heq]; exact htype
        | inr hmem => exact hloads g hmem
      rw [if_neg (not_not.mpr htype)]
      by_cases hblock : m.block f = address >>> m.log_block_size
      · rw [if_pos hblock]
        have hkind' : ∀ g ∈ f :: between, (m.frames g).access_type = .Load ∧
            (Module.AccessType.Load ≠ .Load → m.block g = address >>> m.log_block_size) :=
          fun g hg => ⟨hkind g hg, fun hne => absurd rfl hne⟩
        obtain ⟨a, ha, htail⟩ := masterOf_tail h hlist hkind' hblock
        refine ⟨some a, ha, ?_⟩
        intro a' ha'
        rw [← Option.some.inj ha']
        exact htail
      · rw [if_neg hblock]
        exact ih (f :: between) hlist hkind
    · rw [if_pos htype]
      exact ⟨none, rfl, fun a ha => by cases ha⟩

lemma coalesceWrite_tail (h : Consistent m) {tail : FrameId} {older : List FrameId}
    (hlist : m.accesses = older ++ [tail]) :
    ∃ found, m.coalesceWrite access_type address tail = some found ∧
      ∀ a, found = some a → m.Tail access_type address m.accesses a := by
  have hnone : ∃ found : Option FrameId, some none = some found ∧
      ∀ a, found = some a → m.Tail access_type address m.accesses a :=
    ⟨none, rfl, fun a ha => by cases ha⟩
  unfold coalesceWrite
  split_ifs with htype hblock hlocked
  · exact hnone
  · exact hnone
  · exact hnone
  · rw [not_not] at htype hblock
    obtain ⟨a, ha, htail⟩ := masterOf_tail h hlist
      (fun g hg => by
        rw [List.mem_singleton.mp hg]
        exact ⟨htype, fun _ => hblock⟩) hblock
    refine ⟨some a, ha, ?_⟩
    intro a' ha'
    rw [← Option.some.inj ha']
    exact htail

end Find

section Start

variable {m : Accesses} {frame : FrameId} {access_type : Module.AccessType} {address : ℕ}

def started (m : Accesses) (frame : FrameId) (access_type : Module.AccessType) (address : ℕ) :
    Accesses :=
  StartAccess { m with frames := Function.update m.frames frame { address := address } } frame
    access_type

lemma started_frame :
    (m.started frame access_type address).frames frame =
      { address := address, access_type := access_type } := by
  unfold started StartAccess
  simp

lemma started_frames {f : FrameId} (hne : f ≠ frame) :
    (m.started frame access_type address).frames f = m.frames f := by
  unfold started StartAccess
  dsimp only
  rw [Function.update_of_ne hne, Function.update_of_ne hne]

lemma started_block {f : FrameId} (hne : f ≠ frame) :
    (m.started frame access_type address).block f = m.block f := by
  unfold block
  rw [started_frames hne]
  rfl

lemma started_block_self :
    (m.started frame access_type address).block frame = address >>> m.log_block_size := by
  unfold block
  rw [started_frame]
  rfl

lemma started_accesses :
    (m.started frame access_type address).accesses = m.accesses ++ [frame] := rfl

lemma Attached.started {a f : FrameId} (h : m.Attached a f) (hnot : frame ∉ m.accesses) :
    (m.started frame access_type address).Attached a f := by
  have hmem := h.group.mem
  have hne : ∀ g ∈ m.accesses, g ≠ frame := fun g hg heq => hnot (heq ▸ hg)
  refine ⟨h.group.congr ⟨[frame], rfl⟩ ?_ ?_, ?_, ?_, ?_⟩
  · intro g hg
    rw [started_frames (hne g hg)]
  · intro g hg
    exact started_block (hne g hg)
  · rw [started_block (hne a hmem.1), started_block (hne f hmem.2)]
    exact h.same_block
  · rw [started_frames (hne a hmem.1)]
    exact h.no_master
  · rw [started_frames (hne f hmem.2)]
    exact h.coalesced

/-- Recording an access keeps the lists. -/
lemma Consistent.started (h : Consistent m) (hnot : frame ∉ m.accesses)
    (htype : access_type ≠ .Invalid) : Consistent (m.started frame access_type address) := by
  have hne : ∀ g ∈ m.accesses, g ≠ frame := fun g hg heq => hnot (heq ▸ hg)
  refine ⟨?_, ?_, ?_, ?_, ?_, ?_, ?_⟩
  · rw [started_accesses]
    rw [← List.concat_eq_append]
    exact h.nodup.concat hnot
  · intro f hf
    rw [started_accesses, List.mem_append, List.mem_singleton] at hf
    by_cases heq : f = frame
    · rw [heq, started_frame]
      exact htype
    · rw [started_frames heq]
      exact h.typed f (hf.resolve_right heq)
  · have hold : (m.accesses.filter fun f =>
        ((m.started frame access_type address).frames f).access_type = .Store) =
        m.write_accesses := by
      rw [h.writes]
      apply List.filter_congr
      intro f hf
      rw [started_frames (hne f hf)]
    rw [started_accesses, List.filter_append, hold]
    by_cases hstore : access_type = .Store
    · rw [List.filter_cons_of_pos (by rw [started_frame]; simpa using hstore)]
      exact if_pos hstore
    · rw [List.filter_cons_of_neg (by rw [started_frame]; simpa using hstore), List.filter_nil,
        List.append_nil]
      exact if_neg hstore
  · have hold : (m.accesses.map fun f => ((m.started frame access_type address).block f, f)) =
        m.in_flight_block_addresses := by
      rw [h.table]
      apply List.map_congr_left
      intro f hf
      rw [started_block (hne f hf)]
    rw [started_accesses, List.map_append, hold, List.map_singleton, started_block_self]
    change m.in_flight_block_addresses ++ [_] = _
    congr 3
    unfold block
    simp
  · change m.in_flight_access_ids ++ [frame] = m.accesses ++ [frame]
    rw [h.ids]
  · have hold : (m.accesses.countP fun f =>
        ((m.started frame access_type address).frames f).coalesced) =
        m.num_coalesced_accesses := by
      rw [h.count]
      apply List.countP_congr
      intro f hf
      rw [started_frames (hne f hf)]
    rw [started_accesses, List.countP_append, hold, List.countP_singleton, started_frame]
    rfl
  · intro f hf a ha
    rw [started_accesses, List.mem_append, List.mem_singleton] at hf
    by_cases heq : f = frame
    · rw [heq, started_frame] at ha
      cases ha
    · rw [started_frames heq] at ha
      exact (h.attached f (hf.resolve_right heq) a ha).started hnot

lemma masterOf_started (h : Consistent m) (hnot : frame ∉ m.accesses) {f : FrameId}
    (hf : f ∈ m.accesses) :
    (m.started frame access_type address).masterOf f = m.masterOf f := by
  have hne : ∀ g ∈ m.accesses, g ≠ frame := fun g hg heq => hnot (heq ▸ hg)
  unfold masterOf
  rw [started_frames (hne f hf)]
  cases hmaster : (m.frames f).master_frame with
  | none => rfl
  | some a =>
    have ha := (h.attached f hf a hmaster).group.mem.1
    dsimp only
    rw [started_frames (hne a ha)]

lemma coalesceLoad_started (h : Consistent m) (hnot : frame ∉ m.accesses) (list : List FrameId)
    (hlist : ∀ f ∈ list, f ∈ m.accesses) :
    (m.started frame access_type address).coalesceLoad address list =
      m.coalesceLoad address list := by
  have hne : ∀ g ∈ m.accesses, g ≠ frame := fun g hg heq => hnot (heq ▸ hg)
  induction list with
  | nil => rfl
  | cons f rest ih =>
    have hf := hlist f List.mem_cons_self
    unfold coalesceLoad
    rw [started_frames (hne f hf), started_block (hne f hf), masterOf_started h hnot hf,
      ih fun g hg => hlist g (List.mem_cons_of_mem f hg)]
    rfl

lemma coalesceWrite_started (h : Consistent m) (hnot : frame ∉ m.accesses) {tail : FrameId}
    (htail : tail ∈ m.accesses) :
    (m.started frame access_type address).coalesceWrite access_type address tail =
      m.coalesceWrite access_type address tail := by
  have hne : tail ≠ frame := fun heq => hnot (heq ▸ htail)
  unfold coalesceWrite
  rw [started_frames hne, started_block hne, masterOf_started h hnot htail]
  rfl

lemma getInFlightAddress_isSome (h : Consistent m) (older : Option FrameId) :
    (m.getInFlightAddress address older).isSome := by
  unfold getInFlightAddress
  cases hfind : m.in_flight_block_addresses.find? fun entry =>
      entry.1 = address >>> m.log_block_size ∧ older.all (entry.2 < ·) with
  | none => rfl
  | some entry =>
    have hmem := List.mem_of_find?_eq_some hfind
    have hprop := List.find?_some hfind
    rw [decide_eq_true_eq] at hprop
    rw [h.table] at hmem
    obtain ⟨f, _, rfl⟩ := List.mem_map.mp hmem
    dsimp only
    rw [if_pos hprop.1]
    rfl

/-- The search for an access to coalesce with succeeds, and finds the master of a group that the
new access continues. -/
lemma canCoalesce_tail (h : Consistent m) (hnot : frame ∉ m.accesses)
    (htype : access_type ≠ .Invalid) :
    ∃ found, (m.started frame access_type address).canCoalesce access_type address (some frame) =
        some found ∧
      ∀ a, found = some a → m.Tail access_type address m.accesses a := by
  have hnone : ∃ found : Option FrameId, some none = some found ∧
      ∀ a, found = some a → m.Tail access_type address m.accesses a :=
    ⟨none, rfl, fun a ha => by cases ha⟩
  unfold canCoalesce
  rw [started_accesses, if_neg (by simp), if_neg htype]
  have hs : Consistent (m.started frame access_type address) := h.started hnot htype
  obtain ⟨found, hfound⟩ := Option.isSome_iff_exists.mp
    (getInFlightAddress_isSome hs (some frame))
  rw [hfound, Option.bind_some]
  cases found with
  | none => exact hnone
  | some _ =>
    dsimp only
    have hbefore : (m.accesses ++ [frame]).takeWhile (fun f => decide (f ≠ frame)) =
        m.accesses := by
      rw [List.takeWhile_append_of_pos, List.takeWhile_cons_of_neg (by simp), List.append_nil]
      intro f hf
      exact decide_eq_true fun heq => hnot (heq ▸ hf)
    rw [if_neg (by simp), hbefore]
    cases hlist : m.accesses.reverse with
    | nil => exact hnone
    | cons tail rest =>
      have haccesses : m.accesses = rest.reverse ++ [tail] := by
        rw [← List.reverse_reverse m.accesses, hlist, List.reverse_cons]
      have htail : tail ∈ m.accesses := by
        rw [haccesses]
        simp
      cases access_type with
      | Invalid => exact absurd rfl htype
      | Load =>
        dsimp only
        rw [coalesceLoad_started h hnot _ fun f hf => List.mem_reverse.mp (hlist ▸ hf)]
        apply coalesceLoad_tail h (tail :: rest) []
        · rw [← hlist, List.reverse_reverse, List.append_nil]
        · intro g hg
          cases hg
      | Store =>
        dsimp only
        rw [coalesceWrite_started h hnot htail]
        exact coalesceWrite_tail h haccesses
      | NCStore =>
        dsimp only
        rw [coalesceWrite_started h hnot htail]
        exact coalesceWrite_tail h haccesses

end Start

section Steps

variable {m m' : Accesses} {frame master_frame : FrameId}

/-- An access that was found becomes the master of the new one. -/
lemma Consistent.coalesce {access_type : Module.AccessType} {address : ℕ} (h : Consistent m)
    (hnot : frame ∉ m.accesses) (htype : access_type ≠ .Invalid)
    (htail : m.Tail access_type address m.accesses master_frame) :
    ∃ m', (m.started frame access_type address).Coalesce master_frame frame = some m' ∧
      Consistent m' := by
  have hs : Consistent (m.started frame access_type address) := h.started hnot htype
  obtain ⟨⟨older, between, hsplit, hkind⟩, hblock, hnone⟩ := htail
  have hmaster : master_frame ∈ m.accesses := by
    rw [hsplit]
    simp
  have hne : ∀ g ∈ m.accesses, g ≠ frame := fun g hg heq => hnot (heq ▸ hg)
  unfold Coalesce
  rw [if_neg]
  · refine ⟨_, rfl, ?_⟩
    generalize hm' : Accesses.mk _ _ _ _ _ _ _ = m'
    have hframe : m'.frames frame = { address := address, access_type := access_type
                                      coalesced := true, master_frame := some master_frame } := by
      rw [← hm']
      dsimp only
      rw [Function.update_self, started_frame]
    have hframes : ∀ g, g ≠ frame →
        m'.frames g = (m.started frame access_type address).frames g := by
      intro g hg
      rw [← hm']
      exact Function.update_of_ne hg _ _
    have hsame : ∀ g, (m'.frames g).access_type =
        ((m.started frame access_type address).frames g).access_type ∧
        m'.block g = (m.started frame access_type address).block g := by
      intro g
      unfold block
      by_cases hg : g = frame
      · rw [hg, hframe, started_frame, ← hm']
        exact ⟨rfl, rfl⟩
      · rw [hframes g hg, ← hm']
        exact ⟨rfl, rfl⟩
    have hlist : m'.accesses = m.accesses ++ [frame] := by rw [← hm']; rfl
    refine ⟨?_, ?_, ?_, ?_, ?_, ?_, ?_⟩
    · rw [hlist]
      exact hs.nodup
    · intro f hf
      rw [(hsame f).1]
      rw [hlist] at hf
      exact hs.typed f hf
    · rw [hlist]
      simp only [hsame]
      rw [← hm']
      exact hs.writes
    · rw [hlist]
      simp only [hsame]
      rw [← hm']
      exact hs.table
    · rw [hlist, ← hm']
      exact hs.ids
    · have hold : m.accesses.countP (fun f => (m'.frames f).coalesced) =
          m.num_coalesced_accesses := by
        rw [h.count]
        apply List.countP_congr
        intro f hf
        rw [hframes f (hne f hf), started_frames (hne f hf)]
      rw [hlist, List.countP_append, hold, List.countP_singleton, hframe, ← hm']
      rfl
    · intro f hf a ha
      rw [hlist] at hf
      by_cases heq : f = frame
      · rw [heq, hframe] at ha
        have hmasterEq : master_frame = a := Option.some.inj ha
        rw [heq, ← hmasterEq]
        refine ⟨⟨older, between, [], ?_, ?_⟩, ?_, ?_, ?_⟩
        · rw [hlist, hsplit]
          simp
        · intro g hg
          have hgm : g ∈ m.accesses := by
            rw [hsplit]
            exact List.mem_append_right older hg
          rw [(hsame g).1, (hsame g).2, hframe, (hsame frame).2, started_block_self,
            started_frames (hne g hgm), started_block (hne g hgm)]
          exact hkind g hg
        · rw [(hsame _).2, (hsame _).2, started_block (hne _ hmaster), started_block_self]
          exact hblock
        · rw [hframes _ (hne _ hmaster), started_frames (hne _ hmaster)]
          exact hnone
        · rw [hframe]
      · rw [hframes f heq] at ha
        have hattached := hs.attached f hf a ha
        have hfm : f ∈ m.accesses := by
          rw [List.mem_append, List.mem_singleton] at hf
          exact hf.resolve_right heq
        rw [started_frames heq] at ha
        have ham := (h.attached f hfm a ha).group.mem.1
        refine ⟨hattached.group.congr ⟨[], ?_⟩ (fun g _ => (hsame g).1) (fun g _ => (hsame g).2),
          ?_, ?_, ?_⟩
        · rw [hlist, List.append_nil]
          rfl
        · rw [(hsame a).2, (hsame f).2]
          exact hattached.same_block
        · rw [hframes a (hne a ham)]
          exact hattached.no_master
        · rw [hframes f heq]
          exact hattached.coalesced
  · rw [started_frames (hne _ hmaster), started_frame]
    have hcount := hs.count
    have hle := List.countP_le_length (p := fun f =>
      ((m.started frame access_type address).frames f).coalesced)
      (l := (m.started frame access_type address).accesses)
    rintro (h1 | h2 | h3)
    · exact h1 hnone
    · exact htype h2
    · omega

lemma detach_frames (finished : FrameId) (frames : FrameId → Frame) (list : List FrameId)
    (hnodup : list.Nodup) (f : FrameId) :
    detach finished frames list f =
      if f ∈ list ∧ (frames f).master_frame = some finished then
        { frames f with master_frame := none }
      else frames f := by
  unfold detach
  induction list generalizing frames with
  | nil => simp
  | cons g rest ih =>
    rw [List.foldl_cons, ih _ hnodup.of_cons]
    have hg : g ∉ rest := (List.nodup_cons.mp hnodup).1
    by_cases hf : f = g
    · rw [hf, if_neg (fun hand => hg hand.1)]
      by_cases hmaster : (frames g).master_frame = some finished
      · rw [if_pos hmaster, Function.update_self, if_pos ⟨List.mem_cons_self, hmaster⟩]
      · rw [if_neg hmaster, if_neg (fun hand => hmaster hand.2)]
    · have hsame : (if (frames g).master_frame = some finished then
          Function.update frames g { frames g with master_frame := none } else frames) f =
          frames f := by
        split_ifs
        · exact Function.update_of_ne hf _ _
        · rfl
      rw [hsame]
      simp only [List.mem_cons, hf, false_or]

lemma detach_keeps (finished : FrameId) (frames : FrameId → Frame) (list : List FrameId)
    (hnodup : list.Nodup) (f : FrameId) :
    (detach finished frames list f).access_type = (frames f).access_type ∧
      (detach finished frames list f).address = (frames f).address ∧
      (detach finished frames list f).coalesced = (frames f).coalesced := by
  rw [detach_frames finished frames list hnodup]
  split_ifs <;> exact ⟨rfl, rfl, rfl⟩

/-- Finishing an access keeps the lists, in any order. -/
lemma Consistent.finish (h : Consistent m) (hmem : frame ∈ m.accesses) :
    ∃ m', m.FinishAccess frame = some m' ∧ Consistent m' := by
  have hcoalesced : (m.frames frame).coalesced = true → 0 < m.num_coalesced_accesses := by
    intro htrue
    rw [h.count]
    exact List.countP_pos_iff.mpr ⟨frame, hmem, htrue⟩
  have htable : (m.block frame, frame) ∈ m.in_flight_block_addresses := by
    rw [h.table]
    exact List.mem_map_of_mem hmem
  unfold FinishAccess
  rw [if_neg]
  · refine ⟨_, rfl, ?_⟩
    have hnodup := h.nodup.erase frame
    have hkeeps := detach_keeps frame m.frames (m.accesses.erase frame) hnodup
    have hfilter := h.nodup.erase_eq_filter frame
    generalize hm' : Accesses.mk _ _ _ _ _ _ _ = m'
    have hframes : m'.frames = detach frame m.frames (m.accesses.erase frame) := by rw [← hm']
    have hlist : m'.accesses = m.accesses.erase frame := by rw [← hm']
    have htype : ∀ f, (m'.frames f).access_type = (m.frames f).access_type := by
      intro f
      rw [hframes]
      exact (hkeeps f).1
    have hblock : ∀ f, m'.block f = m.block f := by
      intro f
      unfold block
      rw [hframes, (hkeeps f).2.1, ← hm']
    have hflag : ∀ f, (m'.frames f).coalesced = (m.frames f).coalesced := by
      intro f
      rw [hframes]
      exact (hkeeps f).2.2
    refine ⟨?_, ?_, ?_, ?_, ?_, ?_, ?_⟩
    · rw [hlist]
      exact hnodup
    · intro f hf
      rw [htype]
      rw [hlist] at hf
      exact h.typed f (List.mem_of_mem_erase hf)
    · rw [hlist]
      simp only [htype]
      rw [← hm']
      dsimp only
      have hwrites : (m.accesses.filter fun f => (m.frames f).access_type = .Store).Nodup :=
        h.nodup.filter _
      rw [h.writes, hfilter, List.filter_filter]
      by_cases hstore : (m.frames frame).access_type = .Store
      · rw [if_pos hstore, hwrites.erase_eq_filter, List.filter_filter]
        apply List.filter_congr
        intro f _
        exact Bool.and_comm _ _
      · rw [if_neg hstore]
        apply List.filter_congr
        intro f _
        by_cases hf : f = frame
        · rw [hf, decide_eq_false hstore, Bool.false_and]
        · simp [hf]
    · rw [hlist]
      simp only [hblock]
      rw [← hm']
      dsimp only
      rw [h.table]
      have hinj : Function.Injective fun f => (m.block f, f) := by
        intro f g hfg
        exact congrArg Prod.snd hfg
      exact (List.map_erase hinj m.accesses).symm
    · rw [hlist, ← hm']
      dsimp only
      rw [h.ids]
    · rw [hlist]
      simp only [hflag]
      rw [← hm']
      dsimp only
      rw [h.count, List.countP_erase]
      by_cases htrue : (m.frames frame).coalesced = true
      · rw [if_pos htrue, if_pos ⟨hmem, htrue⟩]
      · rw [if_neg htrue, if_neg fun hand => htrue hand.2]
        rfl
    · intro f hf a ha
      rw [hlist] at hf
      have hold : (m.frames f).master_frame = some a ∧ a ≠ frame := by
        rw [hframes, detach_frames _ _ _ hnodup] at ha
        by_cases hmaster : (m.frames f).master_frame = some frame
        · rw [if_pos ⟨hf, hmaster⟩] at ha
          cases ha
        · rw [if_neg fun hand => hmaster hand.2] at ha
          refine ⟨ha, ?_⟩
          intro heq
          rw [heq] at ha
          exact hmaster ha
      have hfm := List.mem_of_mem_erase hf
      have hne : f ≠ frame := by
        intro heq
        rw [heq] at hf
        exact h.nodup.not_mem_erase hf
      obtain ⟨⟨older, between, younger, hsplit, hkind⟩, hsame, hnone, hcoal⟩ :=
        h.attached f hfm a hold.1
      refine ⟨⟨older.filter (· != frame), between.filter (· != frame),
        younger.filter (· != frame), ?_, ?_⟩, ?_, ?_, ?_⟩
      · rw [hlist, hfilter, hsplit, List.filter_append,
          List.filter_cons_of_pos (by simpa using hold.2), List.filter_append,
          List.filter_cons_of_pos (by simpa using hne)]
      · intro g hg
        rw [htype, htype, hblock, hblock]
        apply hkind
        cases List.mem_cons.mp hg with
        | inl heq => exact heq ▸ List.mem_cons_self
        | inr hin => exact List.mem_cons_of_mem a (List.mem_of_mem_filter hin)
      · rw [hblock, hblock]
        exact hsame
      · rw [hframes, detach_frames _ _ _ hnodup, if_neg]
        · exact hnone
        · intro hand
          rw [hnone] at hand
          cases hand.2
      · rw [hflag]
        exact hcoal
  · have htyped := h.typed frame hmem
    rintro (h1 | h2 | h3 | h4)
    · exact h1 hmem
    · exact htyped h2
    · exact h3 htable
    · have hpos := hcoalesced h4.1
      omega

/-- The port of a frame is of no importance to the lists. -/
lemma Consistent.setPortLocked (h : Consistent m) (port_locked : Bool) :
    Consistent { m with
      frames := Function.update m.frames frame
        { m.frames frame with port_locked := port_locked } } := by
  generalize hm' : Accesses.mk _ _ _ _ _ _ _ = m'
  have hframes : ∀ f, (m'.frames f).access_type = (m.frames f).access_type ∧
      (m'.frames f).address = (m.frames f).address ∧
      (m'.frames f).coalesced = (m.frames f).coalesced ∧
      (m'.frames f).master_frame = (m.frames f).master_frame := by
    intro f
    rw [← hm']
    dsimp only
    by_cases hf : f = frame
    · rw [hf, Function.update_self]
      exact ⟨rfl, rfl, rfl, rfl⟩
    · rw [Function.update_of_ne hf]
      exact ⟨rfl, rfl, rfl, rfl⟩
  have hblock : ∀ f, m'.block f = m.block f := by
    intro f
    unfold block
    rw [(hframes f).2.1, ← hm']
  have hlist : m'.accesses = m.accesses := by rw [← hm']
  refine ⟨by rw [hlist]; exact h.nodup, ?_, ?_, ?_, ?_, ?_, ?_⟩
  · intro f hf
    rw [(hframes f).1]
    exact h.typed f (hlist ▸ hf)
  · simp only [hframes, hlist]
    rw [← hm']
    exact h.writes
  · simp only [hblock, hlist]
    rw [← hm']
    exact h.table
  · rw [hlist, ← hm']
    exact h.ids
  · simp only [hframes, hlist]
    rw [← hm']
    exact h.count
  · intro f hf a ha
    rw [(hframes f).2.2.2] at ha
    have hattached := h.attached f (hlist ▸ hf) a ha
    refine ⟨hattached.group.congr ⟨[], by rw [hlist, List.append_nil]⟩
      (fun g _ => (hframes g).1) (fun g _ => hblock g), ?_, ?_, ?_⟩
    · rw [hblock, hblock]
      exact hattached.same_block
    · rw [(hframes a).2.2.2]
      exact hattached.no_master
    · rw [(hframes f).2.2.1]
      exact hattached.coalesced

/-- The callers record an access once, with a new frame, and finish accesses that were recorded. -/
def Allowed (op : Op) (m : Accesses) : Prop :=
  match op with
  | .access frame access_type _ =>
    (m.frames frame).access_type = .Invalid ∧ access_type ≠ .Invalid
  | .finish frame => frame ∈ m.accesses
  | .setPortLocked _ _ => True

instance (op : Op) (m : Accesses) : Decidable (Allowed op m) := by
  cases op <;> unfold Allowed <;> infer_instance

lemma Consistent.step {op : Op} (h : Consistent m) (hop : Allowed op m) :
    ∃ m', step op m = some m' ∧ Consistent m' := by
  cases op with
  | access frame access_type address =>
    obtain ⟨hfresh, htype⟩ := hop
    have hnot : frame ∉ m.accesses := fun hmem => h.typed frame hmem hfresh
    have hcan : ∃ found, (m.started frame access_type address).canCoalesce access_type address
        (some frame) = some found ∧
        ∀ a, found = some a → m.Tail access_type address m.accesses a :=
      canCoalesce_tail h hnot htype
    obtain ⟨found, hfound, htail⟩ := hcan
    change ∃ m', ((m.started frame access_type address).canCoalesce access_type address
      (some frame)).bind _ = some m' ∧ _
    rw [hfound, Option.bind_some]
    cases found with
    | none => exact ⟨_, rfl, h.started hnot htype⟩
    | some a => exact h.coalesce hnot htype (htail a rfl)
  | finish frame => exact h.finish hop
  | setPortLocked frame port_locked => exact ⟨_, rfl, h.setPortLocked port_locked⟩

end Steps

/-- No assertion fails in any sequence of accesses. -/
theorem run_accesses (log_block_size : ℕ) (ops : List Op)
    (halong : Along step Allowed ops (new log_block_size)) :
    ∃ m, run step ops (new log_block_size) = some m ∧
      m.num_coalesced_accesses = m.accesses.countP (fun f => (m.frames f).coalesced) ∧
      m.write_accesses = m.accesses.filter (fun f => (m.frames f).access_type = .Store) ∧
      ∀ f ∈ m.accesses, ∀ a, (m.frames f).master_frame = some a →
        a ∈ m.accesses ∧ (m.frames a).master_frame = none ∧ (m.frames f).coalesced = true ∧
        m.block a = m.block f ∧ m.Group a f := by
  obtain ⟨m, hrun, hm⟩ := run_total (fun _ _ h hop => h.step hop)
    (consistent_new log_block_size) halong
  refine ⟨m, hrun, hm.count, hm.writes, ?_⟩
  intro f hf a ha
  have hattached := hm.attached f hf a ha
  exact ⟨hattached.group.mem.1, hattached.no_master, hattached.coalesced, hattached.same_block,
    hattached.group⟩

/-- Two loads of one block, a store, and the load that the others wait for finishes. -/
theorem run_accesses_loads :
    ∃ m, run step [.access 0 .Load 4, .access 1 .Load 6, .access 2 .Store 4, .finish 0] (new 2) =
        some m ∧
      m.num_coalesced_accesses = m.accesses.countP (fun f => (m.frames f).coalesced) := by
  obtain ⟨m, hrun, hcount, _⟩ := run_accesses 2
    [.access 0 .Load 4, .access 1 .Load 6, .access 2 .Store 4, .finish 0] (by decide +kernel)
  exact ⟨m, hrun, hcount⟩

/-- A load that was coalesced becomes a master after its own master finished. -/
theorem coalesced_master :
    ∃ m, Along step Allowed
        [.access 0 .Load 4, .access 1 .Load 4, .finish 0, .access 2 .Load 4] (new 2) ∧
      run step [.access 0 .Load 4, .access 1 .Load 4, .finish 0, .access 2 .Load 4] (new 2) =
        some m ∧
      2 ∈ m.accesses ∧ (m.frames 2).master_frame = some 1 ∧ (m.frames 1).coalesced = true := by
  have hrun := (Option.some_get (by decide +kernel : (run step
    [.access 0 .Load 4, .access 1 .Load 4, .finish 0, .access 2 .Load 4]
    (new 2)).isSome = true)).symm
  exact ⟨_, by decide +kernel, hrun, by decide +kernel, by decide +kernel, by decide +kernel⟩

end OISA.Memory.Accesses
