import OISA.Proofs.RenameLogs

/-!
# Squashing restores the renaming

In every state that renames, completions, commits and squashes reach, the outputs of the reorder
buffer are the log of the alias tables.
-/

namespace OISA.X86.RegisterFile

open OISA.Lib Uinst

lemma pushPop_lt {top : ℕ} (h : top < 8) (opcode : StackOpcode) : pushPop opcode top < 8 := by
  cases opcode with
  | FpPop => exact Nat.mod_lt _ (by decide)
  | FpPush => exact Nat.mod_lt _ (by decide)
  | Other => exact h

lemma undoPushPop_lt {top : ℕ} (h : top < 8) (opcode : StackOpcode) :
    undoPushPop opcode top < 8 := by
  cases opcode with
  | FpPop => exact Nat.mod_lt _ (by decide)
  | FpPush => exact Nat.mod_lt _ (by decide)
  | Other => exact h

lemma undoPushPop_pushPop {top : ℕ} (h : top < 8) (opcode : StackOpcode) :
    undoPushPop opcode (pushPop opcode top) = top := by
  cases opcode with
  | FpPop =>
    simp only [undoPushPop, pushPop]
    omega
  | FpPush =>
    simp only [undoPushPop, pushPop]
    omega
  | Other => rfl

def Uop.unmarked (uop : Uop) : Uop := { uop with completed := false }

lemma log_unmarked (kind : RegisterKind) (top : ℕ) (us : List Uop) :
    log kind top (us.map Uop.unmarked) = log kind top us := by
  induction us generalizing top with
  | nil => rfl
  | cons u us ih =>
    rw [List.map_cons, log, log]
    exact congrArg (u.log top kind (List.range MaxODeps).reverse ++ ·) (ih _)

lemma topBefore_unmarked (top : ℕ) (us : List Uop) :
    topBefore top (us.map Uop.unmarked) = topBefore top us := by
  induction us generalizing top with
  | nil => rfl
  | cons u us ih => exact ih _

lemma map_unmarked_set {us : List Uop} {place : ℕ} {uop : Uop} (h : us[place]? = some uop) :
    (us.set place { uop with completed := true }).map Uop.unmarked = us.map Uop.unmarked := by
  rw [List.map_set]
  refine List.ext_getElem? fun i => ?_
  rw [List.getElem?_set]
  split
  · next hi =>
    subst hi
    rw [List.length_map, if_pos (List.getElem?_eq_some_iff.mp h).1, List.getElem?_map, h]
    rfl
  · rfl

lemma mem_log {kind : RegisterKind} {uop : Uop} {us : List Uop} (huop : uop ∈ us)
    (hrenamed : uop.Renamed) {dep p : ℕ} (hdep : dep < MaxODeps)
    (hkind : RegisterKind.ofDep (uop.uinst.odep dep) = some kind) (hp : uop.outputs dep = some p)
    (top : ℕ) : ∃ w ∈ log kind top us, w.new = p := by
  induction us generalizing top with
  | nil => cases huop
  | cons u us ih =>
    obtain rfl | huop := List.mem_cons.mp huop
    · obtain ⟨-, hold⟩ := hrenamed dep hdep
      rw [hkind, Option.isSome_some] at hold
      obtain ⟨old, hold⟩ := Option.isSome_iff_exists.mp hold.symm
      refine ⟨⟨position top (uop.uinst.odep dep) kind, p, old⟩, ?_, rfl⟩
      refine List.mem_append_left _ (List.mem_filterMap.mpr ⟨dep, ?_, ?_⟩)
      · exact List.mem_reverse.mpr (List.mem_range.mpr hdep)
      · rw [Uop.outputAt, if_pos hkind, hp, hold]
        rfl
    · obtain ⟨w, hw, hnew⟩ := ih huop (undoPushPop u.uinst.opcode top)
      exact ⟨w, List.mem_append_right _ hw, hnew⟩

/-- The register file of a window agrees with its reorder buffer. -/
structure Window.Inv (size : RegisterKind → ℕ) (s : Window) : Prop where
  top : s.file.floating_point_top < 8
  books : ∀ kind, (s.file.bank kind).Balanced kind.depCount (size kind) none
    (log kind s.file.floating_point_top s.reorder_buffer)
  renamed : ∀ uop ∈ s.reorder_buffer, uop.Renamed
  written : ∀ uop ∈ s.reorder_buffer, uop.completed = true →
    uop.Written s.file (List.range MaxODeps)

namespace Window

variable {size : RegisterKind → ℕ} {s s' : Window}

lemma Inv.busy (h : s.Inv size) {uop : Uop} (huop : uop ∈ s.reorder_buffer) {dep p : ℕ}
    (hdep : dep < MaxODeps) {kind : RegisterKind}
    (hkind : RegisterKind.ofDep (uop.uinst.odep dep) = some kind) (hp : uop.outputs dep = some p) :
    ((s.file.bank kind).registers p).busy ≠ 0 := by
  have hbooks := h.books kind
  obtain ⟨w, hw, hnew⟩ := mem_log huop (h.renamed uop huop) hdep hkind hp s.file.floating_point_top
  have hpos := hbooks.logged.holders_pos hbooks.slots hw
  rw [hnew, ← hbooks.busy p] at hpos
  exact hpos.ne'

lemma inv_new {config : Config} {core : RegisterKind → ℕ} {f : RegisterFile}
    (h : new config core = some f) : Inv config.local_size ⟨f, []⟩ where
  top := by rw [new_top h]; decide
  books := balanced_new h
  renamed uop huop := absurd huop List.not_mem_nil
  written uop huop := absurd huop List.not_mem_nil

lemma Inv.completes (h : s.Inv size) {f : RegisterFile} (hf : Completes s.file f) :
    Inv size { s with file := f } := by
  refine ⟨hf.top ▸ h.top, fun kind => ?_, h.renamed,
    fun uop huop hdone => (h.written uop huop hdone).completes hf⟩
  rw [hf.top]
  exact hf.books kind _ _ _ _ (h.books kind)

lemma Inv.dispatch (h : s.Inv size) {uop : Uop} (hnew : uop.completed = false)
    (hs : s.dispatch uop = some s') :
    s'.Inv size ∧ ∃ uop', s'.reorder_buffer = uop' :: s.reorder_buffer ∧
      Renames size s.file (fun kind => log kind s.file.floating_point_top s.reorder_buffer) uop
        s'.file uop' := by
  rw [Window.dispatch, Option.map_eq_some_iff] at hs
  obtain ⟨⟨f, uop'⟩, hrename, rfl⟩ := hs
  have hren := Rename_renames h.books hrename
  have htop : undoPushPop uop'.uinst.opcode f.floating_point_top = s.file.floating_point_top := by
    rw [hren.uinst, hren.top, undoPushPop_pushPop h.top]
  refine ⟨⟨?_, fun kind => ?_, fun u hu => ?_, fun u hu hdone => ?_⟩, uop', rfl, hren⟩
  · rw [hren.top]
    exact pushPop_lt h.top _
  · rw [log, htop]
    exact hren.books kind
  · obtain rfl | hu := List.mem_cons.mp hu
    · exact hren.renamed
    · exact h.renamed u hu
  · obtain rfl | hu := List.mem_cons.mp hu
    · rw [hren.completed, hnew] at hdone
      cases hdone
    · intro dep hdep kind p hkind hp
      rw [hren.steady kind p (h.busy hu (List.mem_range.mp hdep) hkind hp)]
      exact h.written u hu hdone dep hdep kind p hkind hp

lemma Inv.writeback (h : s.Inv size) {place : ℕ} (hs : s.writeback place = some s') :
    s'.Inv size ∧ Completes s.file s'.file ∧ ∃ uop, s.reorder_buffer[place]? = some uop ∧
      s'.reorder_buffer = s.reorder_buffer.set place { uop with completed := true } := by
  rw [Window.writeback, Option.bind_eq_some_iff] at hs
  obtain ⟨uop, hplace, hs⟩ := hs
  split at hs
  · cases hs
  · rw [Option.map_eq_some_iff] at hs
    obtain ⟨f, hf, rfl⟩ := hs
    obtain ⟨hcompletes, hwritten⟩ := run_writeOutput hf
    have hmem := List.mem_of_getElem? hplace
    refine ⟨⟨hcompletes.top ▸ h.top, fun kind => ?_, fun u hu => ?_, fun u hu hdone => ?_⟩,
      hcompletes, uop, hplace, rfl⟩
    · dsimp only
      rw [← log_unmarked, map_unmarked_set hplace, log_unmarked, hcompletes.top]
      exact hcompletes.books kind _ _ _ _ (h.books kind)
    · obtain hu | rfl := List.mem_or_eq_of_mem_set hu
      · exact h.renamed u hu
      · exact h.renamed uop hmem
    · obtain hu | rfl := List.mem_or_eq_of_mem_set hu
      · exact (h.written u hu hdone).completes hcompletes
      · exact hwritten

lemma Inv.oldest (h : s.Inv size) {uop : Uop} (hlast : s.reorder_buffer.getLast? = some uop)
    (kind : RegisterKind) : (s.file.bank kind).Balanced kind.depCount (size kind) none
      (log kind s.file.floating_point_top s.reorder_buffer.dropLast ++
        uop.log (topBefore s.file.floating_point_top s.reorder_buffer.dropLast) kind
          (List.range MaxODeps).reverse) := by
  have hbook := h.books kind
  rwa [← List.dropLast_append_getLast? uop hlast, log_append, log, log, List.append_nil] at hbook

lemma Inv.commit (h : s.Inv size) (hs : s.commit = some s') :
    s'.Inv size ∧ s'.reorder_buffer = s.reorder_buffer.dropLast ∧
      ∀ kind p, ((s'.file.bank kind).registers p).pending =
        ((s.file.bank kind).registers p).pending := by
  rw [Window.commit, Option.bind_eq_some_iff] at hs
  obtain ⟨uop, hlast, hs⟩ := hs
  rw [Option.map_eq_some_iff] at hs
  obtain ⟨f, hf, rfl⟩ := hs
  unfold CommitUop at hf
  split at hf
  · cases hf
  · obtain ⟨htop, hbooks, hpending⟩ := run_commitOutput (h.oldest hlast) hf
    refine ⟨⟨htop ▸ h.top, fun kind => ?_,
      fun u hu => h.renamed u (List.mem_of_mem_dropLast hu), fun u hu hdone => ?_⟩, rfl, hpending⟩
    · rw [htop]
      exact hbooks kind
    · intro dep hdep kind p hkind hp
      rw [hpending]
      exact h.written u (List.mem_of_mem_dropLast hu) hdone dep hdep kind p hkind hp

/-- The youngest uop can be squashed, which rewinds its outputs. -/
lemma Inv.squash (h : s.Inv size) {uop : Uop} {rest : List Uop}
    (hbuffer : s.reorder_buffer = uop :: rest) (hmode : uop.speculative_mode = true) :
    ∃ s', s.squash = some s' ∧ s'.Inv size ∧ s'.reorder_buffer = rest ∧
      s'.file.floating_point_top = undoPushPop uop.uinst.opcode s.file.floating_point_top ∧
      (∀ kind, (s'.file.bank kind).rat = rewind (s.file.bank kind).rat
        (uop.log s.file.floating_point_top kind (List.range MaxODeps).reverse)) ∧
      ∀ kind p, ((s'.file.bank kind).registers p).pending = true →
        ((s.file.bank kind).registers p).pending = true ∧ ¬ uop.HasOutput kind p := by
  have hmem : uop ∈ s.reorder_buffer := hbuffer ▸ List.mem_cons_self
  have hrenamed := h.renamed uop hmem
  have hdeps : ∀ dep ∈ List.range MaxODeps, dep < MaxODeps := fun dep => List.mem_range.mp
  obtain ⟨f, hf, hcompletes, hwritten⟩ : ∃ f,
      (if uop.completed then some s.file else s.file.WriteUop uop) = some f ∧
        Completes s.file f ∧ uop.Written f (List.range MaxODeps) := by
    cases hdone : uop.completed with
    | true => exact ⟨s.file, if_pos rfl, Completes.refl _, h.written uop hmem hdone⟩
    | false =>
      obtain ⟨f, hf⟩ := run_writeOutput_isSome hrenamed hdeps s.file
      obtain ⟨hcompletes, hwritten⟩ := run_writeOutput hf
      exact ⟨f, hf, hcompletes, hwritten⟩
  have hbooks : ∀ kind, (f.bank kind).Balanced kind.depCount (size kind) none
      (uop.log f.floating_point_top kind (List.range MaxODeps).reverse ++
        log kind (undoPushPop uop.uinst.opcode s.file.floating_point_top) rest) := by
    intro kind
    have hbook := h.books kind
    rw [hbuffer, log] at hbook
    rw [hcompletes.top]
    exact hcompletes.books kind _ _ _ _ hbook
  obtain ⟨f', hf', htop, hrat, hbooks', hpending⟩ := run_undoOutput hrenamed
    (fun dep hdep => hdeps dep (List.mem_reverse.mp hdep)) hbooks
    (fun dep hdep => hwritten dep (List.mem_reverse.mp hdep))
  have htop' : undoPushPop uop.uinst.opcode f'.floating_point_top =
      undoPushPop uop.uinst.opcode s.file.floating_point_top := by rw [htop, hcompletes.top]
  refine ⟨⟨{ f' with
      floating_point_top := undoPushPop uop.uinst.opcode f'.floating_point_top }, rest⟩, ?_,
    ⟨?_, fun kind => ?_, fun u hu => ?_, fun u hu hdone => ?_⟩, rfl, htop', fun kind => ?_,
    fun kind p hp => ?_⟩
  · rw [Window.squash, hbuffer]
    dsimp only
    rw [hf, Option.bind_some, UndoUop, if_pos hmode, hf']
    rfl
  · dsimp only
    rw [htop']
    exact undoPushPop_lt h.top _
  · dsimp only
    rw [htop']
    exact hbooks' kind
  · exact h.renamed u (hbuffer ▸ List.mem_cons_of_mem uop hu)
  · intro dep hdep kind p hkind hp
    exact (hpending kind p).trans (hcompletes.pending kind p
      (h.written u (hbuffer ▸ List.mem_cons_of_mem uop hu) hdone dep hdep kind p hkind hp))
  · exact (hrat kind).trans (by rw [hcompletes.rat, hcompletes.top])
  · have hp' : ((f.bank kind).registers p).pending = true := (hpending kind p).symm.trans hp
    refine ⟨?_, ?_⟩
    · by_contra hnot
      rw [Bool.not_eq_true] at hnot
      exact Bool.false_ne_true ((hcompletes.pending kind p hnot).symm.trans hp')
    · intro hout
      obtain ⟨dep, hdep, hkind, hout⟩ := hout
      have hdone := hwritten dep (List.mem_range.mpr hdep) kind p hkind hout
      exact Bool.false_ne_true (hdone.symm.trans hp')

lemma squash_speculative (h : s.squash = some s') :
    ∃ uop rest, s.reorder_buffer = uop :: rest ∧ uop.speculative_mode = true := by
  unfold Window.squash at h
  split at h
  · cases h
  · next uop rest hbuffer =>
    rw [Option.bind_eq_some_iff] at h
    obtain ⟨f, -, h⟩ := h
    rw [Option.map_eq_some_iff] at h
    obtain ⟨f', hf', -⟩ := h
    unfold UndoUop at hf'
    split at hf'
    · next hmode => exact ⟨uop, rest, hbuffer, hmode⟩
    · cases hf'

lemma Inv.others (h : s.Inv size) {kind : RegisterKind} {n : ℕ}
    (hs : s.others kind n = some s') :
    s'.Inv size ∧ s'.reorder_buffer = s.reorder_buffer ∧
      s'.file.floating_point_top = s.file.floating_point_top ∧
      ∀ kind', (s'.file.bank kind').rat = (s.file.bank kind').rat := by
  unfold Window.others at hs
  split at hs
  · next hle =>
    cases hs
    refine ⟨⟨h.top, fun kind' => ?_, h.renamed, fun uop huop hdone => ?_⟩, rfl, rfl,
      fun kind' => ?_⟩
    · by_cases hne : kind' = kind
      · subst hne
        dsimp only
        rw [setBank_self]
        exact (h.books kind').setCore hle
      · dsimp only
        rw [setBank_of_ne _ hne]
        exact h.books kind'
    · intro dep hdep kind' p hkind hp
      have hwritten := h.written uop huop hdone dep hdep kind' p hkind hp
      by_cases hne : kind' = kind
      · subst hne
        rw [setBank_self]
        exact hwritten
      · rwa [setBank_of_ne _ hne]
    · by_cases hne : kind' = kind
      · subst hne
        dsimp only
        rw [setBank_self]
      · dsimp only
        rw [setBank_of_ne _ hne]
  · cases hs

lemma Inv.step (h : s.Inv size) {e : Event} (hs : Window.step e s = some s') : s'.Inv size := by
  cases e with
  | Rename uinst speculative_mode => exact (h.dispatch rfl hs).1
  | Write place => exact (h.writeback hs).1
  | WriteLate uop =>
    rw [Window.step, Option.map_eq_some_iff] at hs
    obtain ⟨f, hf, rfl⟩ := hs
    exact h.completes (run_writeOutput hf).1
  | Commit => exact (h.commit hs).1
  | Squash =>
    obtain ⟨uop, rest, hbuffer, hmode⟩ := squash_speculative hs
    obtain ⟨s₁, hs₁, hinv, -⟩ := h.squash hbuffer hmode
    rw [Window.step, hs₁, Option.some.injEq] at hs
    exact hs ▸ hinv
  | Others kind n => exact (h.others hs).1

lemma inv_run {config : Config} {core : RegisterKind → ℕ} {f : RegisterFile} {es : List Event}
    (hnew : new config core = some f) (hrun : run Window.step es ⟨f, []⟩ = some s) :
    s.Inv config.local_size :=
  run_invariant (P := fun _ _ => True) (Q := fun s => s.Inv config.local_size)
    (fun _ _ _ h _ hs => h.step hs) (inv_new hnew) (along_of_forall (fun _ _ => trivial) _ _) hrun

end Window

/-- Uops are renamed in speculative mode and completed; none is committed or squashed. -/
def Event.Forward : Event → Prop
  | .Rename _ speculative_mode => speculative_mode = true
  | .Write _ => True
  | .WriteLate _ => True
  | .Commit => False
  | .Squash => False
  | .Others _ _ => True

def Event.isRename : Event → Bool
  | .Rename _ _ => true
  | _ => false

namespace Window

structure Ahead (size : RegisterKind → ℕ) (s : Window) (n : ℕ) (s' : Window) : Prop where
  inv : s'.Inv size
  split : ∃ us vs, s'.reorder_buffer = us ++ vs ∧ us.length = n ∧
    (∀ uop ∈ us, uop.speculative_mode = true) ∧
    vs.map Uop.unmarked = s.reorder_buffer.map Uop.unmarked ∧
    topBefore s'.file.floating_point_top us = s.file.floating_point_top ∧
    ∀ kind, rewind (s'.file.bank kind).rat (log kind s'.file.floating_point_top us) =
      (s.file.bank kind).rat

lemma Ahead.refl (h : s.Inv size) : Ahead size s 0 s :=
  ⟨h, [], s.reorder_buffer, rfl, rfl, fun _ hu => absurd hu List.not_mem_nil, rfl, rfl,
    fun _ => rfl⟩

/-- The alias tables are those of before, with the top of the stack and the free registers. -/
structure Restores (s s' : Window) : Prop where
  rat : ∀ kind, (s'.file.bank kind).rat = (s.file.bank kind).rat
  top : s'.file.floating_point_top = s.file.floating_point_top
  free : ∀ kind p,
    p ∈ (s'.file.bank kind).free_registers ↔ p ∈ (s.file.bank kind).free_registers

lemma Ahead.restores (hs : s.Inv size) (h : Ahead size s 0 s') : Restores s s' := by
  obtain ⟨us, vs, hbuffer, hlength, -, hvs, htop, hrat⟩ := h.split
  rw [List.length_eq_zero_iff] at hlength
  subst hlength
  rw [topBefore] at htop
  refine ⟨hrat, htop, fun kind p => ?_⟩
  have hlog : log kind s'.file.floating_point_top s'.reorder_buffer =
      log kind s.file.floating_point_top s.reorder_buffer := by
    rw [hbuffer, List.nil_append, htop, ← log_unmarked, hvs, log_unmarked]
  have hbooks := hs.books kind
  have hbooks' := h.inv.books kind
  have hrat' : (s'.file.bank kind).rat = (s.file.bank kind).rat := hrat kind
  rw [hlog] at hbooks'
  rw [hbooks'.free, hbooks.free, hbooks'.busy, hbooks.busy, hbooks'.sized, hbooks.sized, hrat']

lemma Ahead.step {n : ℕ} (h : Ahead size s n s') {e : Event} (he : e.Forward) {s'' : Window}
    (hs : Window.step e s' = some s'') :
    Ahead size s (n + if e.isRename then 1 else 0) s'' := by
  refine ⟨h.inv.step hs, ?_⟩
  obtain ⟨us, vs, hbuffer, hlength, hmode, hvs, htop, hrat⟩ := h.split
  cases e with
  | Rename uinst speculative_mode =>
    obtain ⟨-, uop', hbuffer', hren⟩ := h.inv.dispatch rfl hs
    have htop' : undoPushPop uop'.uinst.opcode s''.file.floating_point_top =
        s'.file.floating_point_top := by
      rw [hren.uinst, hren.top, undoPushPop_pushPop h.inv.top]
    refine ⟨uop' :: us, vs, by rw [hbuffer', hbuffer, List.cons_append], by
      rw [List.length_cons, hlength]; rfl, fun u hu => ?_, hvs, ?_, fun kind => ?_⟩
    · obtain rfl | hu := List.mem_cons.mp hu
      · exact hren.speculative_mode.trans he
      · exact hmode u hu
    · rw [topBefore, htop', htop]
    · rw [log, rewind_append, htop', hren.rewinds, hrat]
  | Write place =>
    obtain ⟨-, hcompletes, uop, hplace, hbuffer'⟩ := h.inv.writeback hs
    rw [hbuffer] at hplace
    rw [hbuffer, List.set_append] at hbuffer'
    by_cases hlt : place < us.length
    · rw [List.getElem?_append_left hlt] at hplace
      rw [if_pos hlt] at hbuffer'
      have hunmarked := map_unmarked_set hplace
      refine ⟨_, vs, hbuffer', by rw [List.length_set, hlength]; rfl, fun u hu => ?_, hvs, ?_,
        fun kind => ?_⟩
      · obtain hu | rfl := List.mem_or_eq_of_mem_set hu
        · exact hmode u hu
        · exact hmode uop (List.mem_of_getElem? hplace)
      · rw [← topBefore_unmarked, hunmarked, topBefore_unmarked, hcompletes.top, htop]
      · rw [← log_unmarked, hunmarked, log_unmarked, hcompletes.top, hcompletes.rat, hrat]
    · rw [List.getElem?_append_right (not_lt.mp hlt)] at hplace
      rw [if_neg hlt] at hbuffer'
      refine ⟨us, _, hbuffer', hlength, hmode, (map_unmarked_set hplace).trans hvs, ?_,
        fun kind => ?_⟩
      · rw [hcompletes.top, htop]
      · rw [hcompletes.top, hcompletes.rat, hrat]
  | WriteLate uop =>
    rw [Window.step, Option.map_eq_some_iff] at hs
    obtain ⟨f, hf, rfl⟩ := hs
    have hcompletes := (run_writeOutput hf).1
    refine ⟨us, vs, hbuffer, hlength, hmode, hvs, ?_, fun kind => ?_⟩
    · rw [← htop, ← hcompletes.top]
    · rw [← hrat kind, ← hcompletes.rat kind, ← hcompletes.top]
  | Commit => exact he.elim
  | Squash => exact he.elim
  | Others kind n =>
    obtain ⟨-, hbuffer', htop', hrat'⟩ := h.inv.others hs
    refine ⟨us, vs, hbuffer'.trans hbuffer, hlength, hmode, hvs, ?_, fun kind' => ?_⟩
    · rw [htop', htop]
    · rw [hrat', htop', hrat]

lemma Ahead.events {es : List Event} (he : ∀ e ∈ es, e.Forward) {n : ℕ} (h : Ahead size s n s')
    {s'' : Window} (hrun : run Window.step es s' = some s'') :
    Ahead size s (n + es.countP Event.isRename) s'' := by
  induction es generalizing s' n with
  | nil =>
    cases hrun
    exact h
  | cons e es ih =>
    rw [run_cons, Option.bind_eq_some_iff] at hrun
    obtain ⟨s₁, hs₁, hrun⟩ := hrun
    have hstep := ih (fun d hd => he d (List.mem_cons_of_mem e hd))
      (h.step (he e List.mem_cons_self) hs₁) hrun
    rwa [List.countP_cons, add_comm (es.countP _), ← add_assoc]

lemma Ahead.squash {n : ℕ} (h : Ahead size s (n + 1) s') :
    ∃ s'', Window.step .Squash s' = some s'' ∧ Ahead size s n s'' := by
  obtain ⟨us, vs, hbuffer, hlength, hmode, hvs, htop, hrat⟩ := h.split
  cases us with
  | nil => cases hlength
  | cons uop us =>
    obtain ⟨s'', hs'', hinv, hbuffer', htop', hrat', -⟩ :=
      h.inv.squash hbuffer (hmode uop List.mem_cons_self)
    refine ⟨s'', hs'', hinv, us, vs, hbuffer', Nat.succ.inj hlength,
      fun u hu => hmode u (List.mem_cons_of_mem uop hu), hvs, ?_, fun kind => ?_⟩
    · rw [htop', ← htop]
      rfl
    · rw [hrat', htop', ← rewind_append, ← hrat]
      rfl

lemma Ahead.squashes {n : ℕ} (h : Ahead size s n s') :
    ∃ s'', run Window.step (List.replicate n .Squash) s' = some s'' ∧ Ahead size s 0 s'' := by
  induction n generalizing s' with
  | zero => exact ⟨s', rfl, h⟩
  | succ n ih =>
    obtain ⟨s₁, hs₁, h₁⟩ := h.squash
    obtain ⟨s'', hrun, h''⟩ := ih h₁
    exact ⟨s'', by rw [List.replicate_succ, run_cons, hs₁, Option.bind_some, hrun], h''⟩

end Window

/-- **Squash restores renaming.** Undoing the uops that were renamed in speculative mode, the
youngest first, succeeds and restores the alias tables, the top of the stack and the free
registers. -/
theorem squash_restores {config : Config} {core : RegisterKind → ℕ} {f : RegisterFile}
    (hnew : new config core = some f) {es : List Event} {s : Window}
    (hreach : run Window.step es ⟨f, []⟩ = some s) {fs : List Event}
    (hforward : ∀ e ∈ fs, e.Forward) {s' : Window} (hrun : run Window.step fs s = some s') :
    ∃ s'', run Window.step (List.replicate (fs.countP Event.isRename) .Squash) s' = some s'' ∧
      s.Restores s'' := by
  have hinv := Window.inv_run hnew hreach
  have hahead := (Window.Ahead.refl hinv).events hforward hrun
  rw [Nat.zero_add] at hahead
  obtain ⟨s'', hsquash, hback⟩ := hahead.squashes
  exact ⟨s'', hsquash, hback.restores hinv⟩

def pushTwice : Uinst where
  opcode := .FpPush
  odep
    | 0 => 15
    | 1 => 1
    | 2 => 17
    | 3 => 1
    | _ => 0

def popFlags : Uinst where
  opcode := .FpPop
  odep
    | 0 => 23
    | 1 => 31
    | 2 => 15
    | 3 => 15
    | _ => 0

theorem squash_restores_pushTwice :
    ∃ f s s', new {} (fun _ => 0) = some f ∧
      run Window.step [.Rename popFlags false, .Write 0, .Commit] ⟨f, []⟩ = some s ∧
      run Window.step [.Rename pushTwice true, .Rename popFlags true, .Write 1] s = some s' ∧
      ∃ s'', run Window.step [.Squash, .Squash] s' = some s'' ∧ s.Restores s'' := by
  have hsome : ((new {} (fun _ => 0)).bind fun f =>
      (run Window.step [.Rename popFlags false, .Write 0, .Commit] ⟨f, []⟩).bind fun s =>
        run Window.step [.Rename pushTwice true, .Rename popFlags true, .Write 1] s).isSome =
      true := by decide +kernel
  obtain ⟨s', hs'⟩ := Option.isSome_iff_exists.mp hsome
  simp only [Option.bind_eq_some_iff] at hs'
  obtain ⟨f, hnew, s, hreach, hrun⟩ := hs'
  refine ⟨f, s, s', hnew, hreach, hrun, ?_⟩
  exact squash_restores hnew hreach (fun e he => by
    simp only [List.mem_cons, List.not_mem_nil, or_false] at he
    obtain rfl | rfl | rfl := he <;> trivial) hrun

end OISA.X86.RegisterFile
