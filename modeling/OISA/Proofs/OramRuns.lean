import OISA.Lib.Runs
import OISA.Proofs.OramRefinement

/-!
# Runs of accesses

A run serves a list of requests, starting from an ORAM that holds no block.
-/

namespace OISA.Primitives

open OISA.Lib OISA.Lib.Traced

variable (p : OramParams)

/-- A call of `Access_ORAM`: its arguments, its two draws and what the caller has put into the
buffer. -/
structure Request where
  op : Op
  id : ℤ
  r1 : ℕ
  r2 : ℕ
  buffer : List ℤ
  buffer_length : buffer.length = p.blockSize

def putBuffer (m : Mem OramArr) (d : List ℤ) : Mem OramArr :=
  ⟨fun a i => if a = .data ∧ i < d.length then d.getD i 0 else m.get a i⟩

variable {p}

def Request.start (req : Request p) (m : Mem OramArr) : Mem OramArr := putBuffer m req.buffer

lemma Request.ofMem_start (req : Request p) (m : Mem OramArr) :
    Oram.ofMem p (req.start m) = (Oram.ofMem p m).setBuffer req.buffer := by
  have hbuffer : (List.range p.blockSize).map (fun k => (req.start m).get .data k) =
      req.buffer := by
    refine List.ext_getElem (by simp [req.buffer_length]) fun k h1 h2 => ?_
    simp [Request.start, putBuffer, h2]
  simp only [Oram.ofMem, Oram.setBuffer, hbuffer]
  simp [Request.start, putBuffer]

variable (p)

/-- `Access_ORAM` on the memory `m`, if it returns. -/
def serve (req : Request p) (m : Mem OramArr) : Option (Mem OramArr) :=
  (accessOram p req.op req.id req.r1 req.r2 (req.start m)).2

/-- The same call on an array and the caller's buffer. -/
def arrayServe (req : Request p) (s : ArrayState × List ℤ) : Option (ArrayState × List ℤ) :=
  if req.id < 0 ∨ req.id ≥ p.numRealBlocks then none
  else match req.op with
    | .write => some (Function.update s.1 req.id.toNat (some req.buffer), req.buffer)
    | .read => (s.1 req.id.toNat).map fun d => (s.1, d)

/-- If the call returns then it does not overflow the stash. -/
def Fits (req : Request p) (m : Mem OramArr) : Prop :=
  (serve p req m).isSome = true →
    NoOverflow p req.op req.id.toNat req.r1 req.r2 (req.start m)

/-- No block is valid in the tree, the stash and the position map. -/
structure EmptyOram (m : Mem OramArr) : Prop where
  stash : ∀ i < p.stashSize, ((Oram.ofMem p m).slot i).valid = 0
  tree : ∀ t < p.treeSize, ((Oram.ofMem p m).tree t).valid = 0
  posMap : ∀ id < p.numRealBlocks, posValid ((Oram.ofMem p m).entry id) = false

/-- Some valid block of the stash or of the tree has this id and these data. -/
def Holds (m : Mem OramArr) (id : ℕ) (d : List ℤ) : Prop :=
  (∃ i < p.stashSize, ((Oram.ofMem p m).slot i).valid ≠ 0 ∧
    ((Oram.ofMem p m).slot i).id = id ∧ ((Oram.ofMem p m).slot i).data = d) ∨
  ∃ t < p.treeSize, ((Oram.ofMem p m).tree t).valid ≠ 0 ∧
    ((Oram.ofMem p m).tree t).id = id ∧ ((Oram.ofMem p m).tree t).data = d

instance (r1 : ℕ) (o : Oram) : Decidable (HasRoom p r1 o) :=
  inferInstanceAs (Decidable (_ ∨ _))

instance (op : Op) (id r1 r2 : ℕ) (m : Mem OramArr) : Decidable (NoOverflow p op id r1 r2 m) :=
  decidable_of_iff (_ ∧ _) ⟨fun h => ⟨h.1, h.2⟩, fun h => ⟨h.room, h.stay⟩⟩

instance (req : Request p) (m : Mem OramArr) : Decidable (Fits p req m) :=
  inferInstanceAs (Decidable (_ → _))

instance (m : Mem OramArr) : Decidable (EmptyOram p m) :=
  decidable_of_iff (_ ∧ _ ∧ _)
    ⟨fun h => ⟨h.1, h.2.1, h.2.2⟩, fun h => ⟨h.stash, h.tree, h.posMap⟩⟩

instance (m : Mem OramArr) (id : ℕ) (d : List ℤ) : Decidable (Holds p m id d) :=
  inferInstanceAs (Decidable (_ ∨ _))

variable {p}

lemma holds_iff {m : Mem OramArr} {id : ℕ} {d : List ℤ} :
    Holds p m id d ↔ ∃ leaf : ℤ, (⟨id, leaf, d⟩ : Block) ∈ (Oram.ofMem p m).blocks p := by
  constructor
  · rintro (⟨i, hi, hv, hid, hd⟩ | ⟨t, ht, hv, hid, hd⟩)
    · refine ⟨((Oram.ofMem p m).slot i).leaf, (mem_blocks p).mpr
        ⟨.inl i, (inl_mem_places p).mpr hi, mem_slot_block.mpr ⟨hv, ?_⟩⟩⟩
      rw [hid, hd]
    · refine ⟨((Oram.ofMem p m).tree t).leaf, (mem_blocks p).mpr
        ⟨.inr t, (inr_mem_places p).mpr ht, mem_tree_block.mpr ⟨hv, ?_⟩⟩⟩
      rw [hid, hd]
  · rintro ⟨leaf, hb⟩
    obtain ⟨x, hx, hb⟩ := (mem_blocks p).mp hb
    cases x with
    | inl i =>
      obtain ⟨hv, hb⟩ := mem_slot_block.mp hb
      rw [Block.mk.injEq] at hb
      exact .inl ⟨i, (inl_mem_places p).mp hx, hv, hb.1.symm, hb.2.2.symm⟩
    | inr t =>
      obtain ⟨hv, hb⟩ := mem_tree_block.mp hb
      rw [Block.mk.injEq] at hb
      exact .inr ⟨t, (inr_mem_places p).mp hx, hv, hb.1.symm, hb.2.2.symm⟩

lemma Oram.Refines.holds_iff {m : Mem OramArr} {σ : ArrayState}
    (h : (Oram.ofMem p m).Refines p σ) {id : ℕ} (hid : id < p.numRealBlocks) (d : List ℤ) :
    Holds p m id d ↔ σ id = some d := by
  rw [OISA.Primitives.holds_iff, h.blocks]
  constructor
  · rintro ⟨leaf, hb⟩
    obtain ⟨i, -, d', hσ, hb⟩ := (mem_writtenBlocks p).mp hb
    rw [Block.mk.injEq] at hb
    have hi : id = i := Int.ofNat_inj.mp hb.1
    subst hi
    rw [hσ, hb.2.2]
  · intro hσ
    exact ⟨_, (mem_writtenBlocks p).mpr ⟨id, hid, d, hσ, rfl⟩⟩

lemma Oram.Refines.setBuffer {o : Oram} {σ : ArrayState} (h : o.Refines p σ) (d : List ℤ) :
    (o.setBuffer d).Refines p σ :=
  ⟨h.blocks, h.written, h.labels, h.onWalk, h.landing, h.flags, h.flagsTree⟩

lemma EmptyOram.refines {m : Mem OramArr} (h : EmptyOram p m) :
    (Oram.ofMem p m).Refines p fun _ => none := by
  refine ⟨?_, h.posMap, fun id hid hv => ?_, fun t ht hv => absurd (h.tree t ht) hv,
    fun i hi => h.stash i ?_, fun i hi => .inl (h.stash i hi), fun t ht => .inl (h.tree t ht)⟩
  · have hstash : ∀ i ∈ Finset.range p.stashSize, ((Oram.ofMem p m).slot i).block = 0 :=
      fun i hi => by rw [Slot.block, if_pos (h.stash i (Finset.mem_range.mp hi))]
    have htree : ∀ t ∈ Finset.range p.treeSize, ((Oram.ofMem p m).tree t).block = 0 :=
      fun t ht => by rw [TreeBlock.block, if_pos (h.tree t (Finset.mem_range.mp ht))]
    rw [Oram.blocks, Oram.stashBlocks, Oram.treeBlocks, Finset.sum_eq_zero hstash,
      Finset.sum_eq_zero htree, writtenBlocks]
    simp
  · rw [h.posMap id hid] at hv
    cases hv
  · have hstash := p.pathLen_lt_stashSize
    omega

def Simulates (m : Mem OramArr) (s : ArrayState × List ℤ) : Prop :=
  (Oram.ofMem p m).Refines p s.1 ∧ (Oram.ofMem p m).buffer = s.2

lemma serve_simulates (req : Request p) {m : Mem OramArr} {s : ArrayState × List ℤ}
    (h : Simulates (p := p) m s) (hfit : Fits p req m) :
    Option.Rel (Simulates (p := p)) (serve p req m) (arrayServe p req s) := by
  by_cases hrange : req.id < 0 ∨ req.id ≥ p.numRealBlocks
  · have hstop : serve p req m = none := by
      rw [serve, accessOram, if_pos hrange]
    rw [hstop, arrayServe, if_pos hrange]
    exact .none
  obtain ⟨id, hidz⟩ : ∃ id : ℕ, req.id = (id : ℤ) := ⟨req.id.toNat, by omega⟩
  have hid : id < p.numRealBlocks := by omega
  have hstart : (Oram.ofMem p (req.start m)).Refines p s.1 := by
    rw [req.ofMem_start]
    exact h.1.setBuffer req.buffer
  have hbuffer : (Oram.ofMem p (req.start m)).buffer = req.buffer := by rw [req.ofMem_start]; rfl
  unfold Fits serve at hfit
  rw [hidz, Int.toNat_natCast] at hfit
  have hstep := access_refines req.op req.r1 req.r2 (req.start m) hstart hid hfit
  rw [serve, arrayServe, if_neg hrange, hidz, Int.toNat_natCast]
  by_cases hcase : req.op = .read ∧ s.1 id = none
  · rw [if_pos hcase] at hstep
    rw [hstep, hcase.1, hcase.2]
    exact .none
  · rw [if_neg hcase] at hstep
    obtain ⟨m', hm', hrefines, hwrite, hread⟩ := hstep
    rw [hm']
    cases hop : req.op with
    | write =>
      rw [hop] at hrefines hwrite
      refine .some ⟨?_, ?_⟩
      · rw [hbuffer] at hrefines
        exact hrefines
      · rw [hwrite rfl, hbuffer]
    | read =>
      rw [hop] at hrefines hread
      have hσ := hread rfl
      rw [hσ]
      exact .some ⟨hrefines, rfl⟩

lemma run_serve_simulates {reqs : List (Request p)} {m : Mem OramArr} (hempty : EmptyOram p m)
    (hfits : Along (serve p) (Fits p) reqs m) :
    Option.Rel (Simulates (p := p)) (run (serve p) reqs m)
      (run (arrayServe p) reqs (fun _ => none, (Oram.ofMem p m).buffer)) :=
  run_simulates (fun req _ _ hsim hfit => serve_simulates req hsim hfit)
    ⟨hempty.refines, rfl⟩ hfits

/-- The smallest ORAM whose blocks do not all fit in the stash: buckets of one block, five ids,
three levels, four slots. -/
def smallOram : OramParams :=
  ⟨1, 5, 1, 0, .bitonicSort, by decide, by decide, by decide, by decide +kernel⟩

/-- A call on it with one word of data and with the leaf 0 drawn twice. -/
def smallCall (op : Op) (id d : ℤ) : Request smallOram := ⟨op, id, 0, 0, [d], rfl⟩

def zeroMem : Mem OramArr := ⟨fun _ _ => 0⟩

variable (p) in
/-- The part of `NoOverflow` about the blocks that find no place on the path. -/
def StaysFit (req : Request p) (m : Mem OramArr) : Prop :=
  p.depth * p.bucketSize +
    (Oram.ofMem p (memKeyed p req.op req.id.toNat req.r1 req.r2 (req.start m))).stay p ≤ p.stashSize

instance (req : Request p) (m : Mem OramArr) : Decidable (StaysFit p req m) :=
  inferInstanceAs (Decidable (_ ≤ _))

variable (p)

/-- The invariant of the tree ORAM for the ids in `written`. -/
structure PathInvariant (written : ℕ → Prop) (o : Oram) : Prop where
  unique : ∀ id, written id → ∃! x, x ∈ places p ∧ ∃ b ∈ o.content x, b.id = (id : ℤ)
  label : ∀ id, written id → ∀ x ∈ places p, ∀ b ∈ o.content x, b.id = (id : ℤ) →
    b.leaf = (posLabel (o.entry id) : ℤ)
  onWalk : ∀ t < p.treeSize, (o.tree t).valid ≠ 0 →
    ∃ l < p.depth, t / p.bucketSize = walkBucket p (o.tree t).leaf.toNat l
  landing : ∀ i < p.bucketSize * p.depth, (o.slot i).valid = 0

variable {p}

lemma Oram.Refines.pathInvariant {o : Oram} {σ : ArrayState} (h : o.Refines p σ)
    {written : ℕ → Prop}
    (hwritten : ∀ id, written id → id < p.numRealBlocks ∧ (σ id).isSome = true) :
    PathInvariant p written o := by
  refine ⟨fun id hw => ?_, fun id hw x hx b hb hbid => ?_, h.onWalk, fun i hi => ?_⟩
  · obtain ⟨hid, hsome⟩ := hwritten id hw
    obtain ⟨d, hσ⟩ := Option.isSome_iff_exists.mp hsome
    obtain ⟨x, hx, hmem, hunique⟩ := exists_unique_place p h.blocks hid hσ
    exact ⟨x, ⟨hx, _, hmem, rfl⟩, fun y hy => hunique y hy.1 hy.2⟩
  · have hmem := (mem_blocks p).mpr ⟨x, hx, hb⟩
    rw [h.blocks] at hmem
    obtain ⟨i, -, d, -, hbi⟩ := (mem_writtenBlocks p).mp hmem
    rw [hbi] at hbid ⊢
    have hi : i = id := Int.ofNat_inj.mp hbid
    rw [hi]
  · exact h.landing i (by rwa [Nat.mul_comm])

lemma arrayServe_written {req : Request p} {s s' : ArrayState × List ℤ}
    (h : arrayServe p req s = some s') :
    (∀ id, (s.1 id).isSome = true → (s'.1 id).isSome = true) ∧
      (req.op = .write → req.id.toNat < p.numRealBlocks ∧ (s'.1 req.id.toNat).isSome = true) := by
  unfold arrayServe at h
  split at h
  · cases h
  · rename_i hrange
    cases hop : req.op with
    | write =>
      rw [hop] at h
      cases h
      dsimp only
      refine ⟨fun id hid => ?_, fun _ => ⟨by omega, by rw [Function.update_self]; rfl⟩⟩
      by_cases hne : id = req.id.toNat
      · rw [hne, Function.update_self]
        rfl
      · rw [Function.update_of_ne hne]
        exact hid
    | read =>
      rw [hop] at h
      obtain ⟨d, -, rfl⟩ := Option.map_eq_some_iff.mp h
      exact ⟨fun _ hid => hid, fun hw => by cases hw⟩

lemma run_arrayServe_written {reqs : List (Request p)} {s s' : ArrayState × List ℤ}
    (h : run (arrayServe p) reqs s = some s') :
    (∀ id, (s.1 id).isSome = true → (s'.1 id).isSome = true) ∧
      ∀ req ∈ reqs, req.op = .write →
        req.id.toNat < p.numRealBlocks ∧ (s'.1 req.id.toNat).isSome = true := by
  induction reqs generalizing s with
  | nil =>
    cases h
    exact ⟨fun _ hid => hid, fun _ hreq => absurd hreq List.not_mem_nil⟩
  | cons req reqs ih =>
    rw [run_cons, Option.bind_eq_some_iff] at h
    obtain ⟨s₁, hs₁, hrest⟩ := h
    obtain ⟨hkeep, hnew⟩ := arrayServe_written hs₁
    obtain ⟨hkeep', hnew'⟩ := ih hrest
    refine ⟨fun id hid => hkeep' id (hkeep id hid), fun req' hreq' hw => ?_⟩
    rcases List.mem_cons.mp hreq' with rfl | hmem
    · exact ⟨(hnew hw).1, hkeep' _ (hnew hw).2⟩
    · exact hnew' req' hmem hw

lemma run_serve_some {reqs : List (Request p)} {m m' : Mem OramArr} (hempty : EmptyOram p m)
    (hfits : Along (serve p) (Fits p) reqs m) (hrun : run (serve p) reqs m = some m') :
    ∃ s, run (arrayServe p) reqs (fun _ => none, (Oram.ofMem p m).buffer) = some s ∧
      Simulates (p := p) m' s := by
  have hsim := run_serve_simulates hempty hfits
  rw [hrun] at hsim
  cases harr : run (arrayServe p) reqs (fun _ => none, (Oram.ofMem p m).buffer) with
  | none =>
    rw [harr] at hsim
    cases hsim
  | some s =>
    rw [harr] at hsim
    cases hsim with
    | some h => exact ⟨s, rfl, h⟩

end OISA.Primitives
