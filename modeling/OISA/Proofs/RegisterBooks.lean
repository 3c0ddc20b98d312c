import OISA.Lib.UndoLogs
import OISA.X86.RegisterFile

/-!
# The books of a register file

The renamed outputs in flight are a log of the writes of an alias table, which keeps what undoing
them needs.
-/

namespace OISA.X86.RegisterFile

open OISA.Lib Uinst

namespace Bank

/-- The books of a bank of `size` registers whose alias table has `n` positions. -/
structure Balanced (n size : ℕ) (held : Option ℕ) (b : Bank) (log : List (LoggedWrite ℕ ℕ)) :
    Prop where
  logged : Logged b.rat log
  slots : ∀ w ∈ log, w.slot ∈ Finset.range n
  busy : ∀ p, (b.registers p).busy = holders (Finset.range n) b.rat log p
  free : ∀ p, p ∈ b.free_registers ↔
    p < b.local_size ∧ (b.registers p).busy = 0 ∧ held ≠ some p
  nodup : b.free_registers.Nodup
  bounded : ∀ p, (b.registers p).busy ≠ 0 ∨ held = some p → p < b.local_size
  occupied : b.num_occupied_registers + b.free_registers.length = b.local_size
  core : b.num_occupied_registers ≤ b.core_num_occupied_registers
  idle : ∀ p ∈ b.free_registers, (b.registers p).pending = false
  sized : b.local_size = size

variable {n size p : ℕ} {held : Option ℕ} {b b' : Bank} {log : List (LoggedWrite ℕ ℕ)}
  {w : LoggedWrite ℕ ℕ}

lemma Balanced.length_lt (h : Balanced n size held b log) (hp : p < b.local_size)
    (hfree : p ∉ b.free_registers) : b.free_registers.length < b.local_size := by
  have hnodup : (p :: b.free_registers).Nodup := List.nodup_cons.mpr ⟨hfree, h.nodup⟩
  have hsub : (p :: b.free_registers).toFinset ⊆ Finset.range b.local_size := by
    intro q hq
    obtain rfl | hq := List.mem_cons.mp (List.mem_toFinset.mp hq)
    · exact Finset.mem_range.mpr hp
    · exact Finset.mem_range.mpr ((h.free q).mp hq).1
  have hcard := Finset.card_le_card hsub
  rw [List.toFinset_card_of_nodup hnodup, Finset.card_range] at hcard
  exact hcard

lemma Balanced.request (h : Balanced n size none b log) (hr : b.request = some (p, b')) :
    Balanced n size (some p) b' log ∧ b'.rat = b.rat ∧ b'.registers = b.registers ∧
      (b.registers p).busy = 0 := by
  unfold Bank.request at hr
  split at hr
  · cases hr
  · next q rest hfree =>
    split at hr
    · next hidle =>
      cases hr
      have hnodup := h.nodup
      have hoccupied := h.occupied
      have hp : p < b.local_size := ((h.free p).mp (by rw [hfree]; exact List.mem_cons_self)).1
      rw [hfree, List.nodup_cons] at hnodup
      rw [hfree, List.length_cons] at hoccupied
      refine ⟨⟨h.logged, h.slots, h.busy, fun q => ?_, hnodup.2, fun q hq => ?_, ?_, ?_,
        fun q hq => h.idle q (by rw [hfree]; exact List.mem_cons_of_mem p hq), h.sized⟩, rfl, rfl,
        hidle.1⟩
      · have hq := h.free q
        rw [hfree, List.mem_cons] at hq
        constructor
        · intro hmem
          have hne : p ≠ q := fun heq => hnodup.1 (heq ▸ hmem)
          obtain ⟨hlt, hbusy, -⟩ := hq.mp (.inr hmem)
          exact ⟨hlt, hbusy, fun heq => hne (Option.some.inj heq)⟩
        · rintro ⟨hlt, hbusy, hne⟩
          refine (hq.mpr ⟨hlt, hbusy, Option.some_ne_none q |>.symm⟩).resolve_left fun heq => ?_
          exact hne (by rw [heq])
      · obtain hbusy | heq := hq
        · exact h.bounded q (.inl hbusy)
        · exact Option.some.inj heq ▸ hp
      · change b.num_occupied_registers + 1 + rest.length = b.local_size
        omega
      · exact Nat.succ_le_succ h.core
    · cases hr

lemma Balanced.hold (h : Balanced n size none b log) (hp : (b.registers p).busy ≠ 0) :
    Balanced n size (some p) b log := by
  refine ⟨h.logged, h.slots, h.busy, fun q => ?_, h.nodup, fun q hq => ?_, h.occupied, h.core,
    h.idle, h.sized⟩
  · rw [h.free q]
    constructor
    · rintro ⟨hlt, hbusy, -⟩
      exact ⟨hlt, hbusy, fun heq => hp (Option.some.inj heq ▸ hbusy)⟩
    · rintro ⟨hlt, hbusy, -⟩
      exact ⟨hlt, hbusy, Option.some_ne_none q |>.symm⟩
  · obtain hbusy | heq := hq
    · exact h.bounded q (.inl hbusy)
    · exact Option.some.inj heq ▸ h.bounded p (.inl hp)

lemma Balanced.settle (h : Balanced n size (some p) b log) (hp : (b.registers p).busy ≠ 0) :
    Balanced n size none b log := by
  refine ⟨h.logged, h.slots, h.busy, fun q => ?_, h.nodup, fun q hq => ?_, h.occupied, h.core,
    h.idle, h.sized⟩
  · rw [h.free q]
    constructor
    · rintro ⟨hlt, hbusy, -⟩
      exact ⟨hlt, hbusy, Option.some_ne_none q |>.symm⟩
    · rintro ⟨hlt, hbusy, -⟩
      exact ⟨hlt, hbusy, fun heq => hp (Option.some.inj heq ▸ hbusy)⟩
  · exact h.bounded q (.inl (hq.resolve_right (Option.some_ne_none q).symm))

lemma write_pending_self (p : ℕ) : ((b.write p).registers p).pending = false := by
  simp only [Bank.write, setRegister, Function.update_self]

lemma Balanced.write (h : Balanced n size held b log) (p : ℕ) : Balanced n size held (b.write p) log := by
  have hbusy : ∀ q, ((b.write p).registers q).busy = (b.registers q).busy := by
    intro q
    simp only [Bank.write, setRegister]
    by_cases hq : q = p
    · rw [hq, Function.update_self]
    · rw [Function.update_of_ne hq]
  refine ⟨h.logged, h.slots, fun q => (hbusy q).trans (h.busy q), fun q => ?_, h.nodup,
    fun q hq => h.bounded q (by rwa [hbusy] at hq), h.occupied, h.core, fun q hq => ?_, h.sized⟩
  · rw [hbusy]
    exact h.free q
  · simp only [Bank.write, setRegister]
    by_cases hqp : q = p
    · rw [hqp, Function.update_self]
    · rw [Function.update_of_ne hqp]
      exact h.idle q hq

lemma Balanced.setCore (h : Balanced n size held b log) {m : ℕ} (hm : b.num_occupied_registers ≤ m) :
    Balanced n size held { b with core_num_occupied_registers := m } log :=
  ⟨h.logged, h.slots, h.busy, h.free, h.nodup, h.bounded, h.occupied, hm, h.idle, h.sized⟩

lemma Balanced.congr {log' : List (LoggedWrite ℕ ℕ)} (h : Balanced n size held b log)
    (hlog : ∀ l, history l log = history l log') : Balanced n size held b log' := by
  have hperm := perm_of_history hlog
  refine ⟨h.logged.congr hlog, fun w hw => h.slots w (hperm.mem_iff.mpr hw), fun q => ?_, h.free,
    h.nodup, h.bounded, h.occupied, h.core, h.idle, h.sized⟩
  rw [h.busy q, holders_perm hperm]

@[simp] lemma rename_rat (l p : ℕ) : (b.rename l p).rat = Function.update b.rat l p := rfl

lemma rename_registers_self (l p : ℕ) :
    (b.rename l p).registers p = { busy := (b.registers p).busy + 1, pending := true } :=
  Function.update_self ..

lemma rename_registers_of_ne (l : ℕ) {p q : ℕ} (h : q ≠ p) :
    (b.rename l p).registers q = b.registers q := Function.update_of_ne h _ _

lemma rename_busy (l p q : ℕ) :
    ((b.rename l p).registers q).busy = (b.registers q).busy + if p = q then 1 else 0 := by
  by_cases h : q = p
  · subst h
    rw [rename_registers_self, if_pos rfl]
  · rw [rename_registers_of_ne l h, if_neg (Ne.symm h), add_zero]

lemma Balanced.rename (h : Balanced n size (some p) b log) {l : ℕ} (hl : l ∈ Finset.range n) :
    Balanced n size none (b.rename l p) (⟨l, p, b.rat l⟩ :: log) := by
  have hbusy : ∀ q, ((b.rename l p).registers q).busy =
      holders (Finset.range n) (b.rename l p).rat (⟨l, p, b.rat l⟩ :: log) q := by
    intro q
    rw [rename_rat, holders_cons hl (Function.update_self ..), rename_busy, h.busy q,
      Function.update_idem, Function.update_eq_self]
  have hp : ((b.rename l p).registers p).busy ≠ 0 := by
    rw [rename_registers_self]
    exact Nat.succ_ne_zero _
  refine ⟨h.logged.write l p, fun w hw => ?_, hbusy, fun q => ?_, h.nodup, fun q hq => ?_,
    h.occupied, h.core, fun q hq => ?_, h.sized⟩
  · obtain rfl | hw := List.mem_cons.mp hw
    · exact hl
    · exact h.slots w hw
  · refine (h.free q).trans (and_congr_right fun _ => ?_)
    by_cases hq : q = p
    · subst hq
      exact ⟨fun hr => absurd rfl hr.2, fun hr => absurd hr.1 hp⟩
    · rw [rename_registers_of_ne l hq]
      have hne : some p ≠ some q := fun heq => hq (Option.some.inj heq).symm
      simp [hne]
  · by_cases hqp : q = p
    · exact h.bounded q (.inr (by rw [hqp]))
    · rw [rename_registers_of_ne l hqp] at hq
      exact h.bounded q (.inl (hq.resolve_right (Option.some_ne_none q).symm))
  · have hqp : q ≠ p := fun heq => ((h.free q).mp hq).2.2 (by rw [heq])
    rw [rename_registers_of_ne l hqp]
    exact h.idle q hq

lemma mapTo_busy (l p q : ℕ) :
    ((b.mapTo l p).registers q).busy = (b.registers q).busy + if p = q then 1 else 0 := by
  simp only [mapTo, setRat, setRegister]
  by_cases h : q = p
  · subst h
    rw [Function.update_self, if_pos rfl]
  · rw [Function.update_of_ne h, if_neg (Ne.symm h), add_zero]

lemma mapTo_pending (l p q : ℕ) :
    ((b.mapTo l p).registers q).pending = (b.registers q).pending := by
  simp only [mapTo, setRat, setRegister]
  by_cases h : q = p
  · rw [h, Function.update_self]
  · rw [Function.update_of_ne h]

lemma Balanced.mapTo (h : Balanced n size (some p) b []) : Balanced (n + 1) size none (b.mapTo n p) [] := by
  have hbusy : ∀ q, ((b.mapTo n p).registers q).busy =
      holders (Finset.range (n + 1)) (b.mapTo n p).rat [] q := by
    intro q
    have hcard := card_filter_update b.rat (Finset.self_mem_range_succ n) p q
    have hold : ((Finset.range (n + 1)).filter fun k => b.rat k = q).card =
        ((Finset.range n).filter fun k => b.rat k = q).card + if b.rat n = q then 1 else 0 := by
      rw [Finset.range_add_one, Finset.filter_insert]
      split
      · rw [Finset.card_insert_of_notMem (by simp)]
      · rw [add_zero]
    have hq := h.busy q
    rw [mapTo_busy]
    simp only [holders, List.countP_nil, add_zero] at hq ⊢
    change _ = ((Finset.range (n + 1)).filter fun k => Function.update b.rat n p k = q).card
    omega
  have hp : ((b.mapTo n p).registers p).busy ≠ 0 := by
    rw [mapTo_busy, if_pos rfl]
    exact Nat.succ_ne_zero _
  refine ⟨trivial, fun w hw => absurd hw List.not_mem_nil, hbusy, fun q => ?_, h.nodup,
    fun q hq => ?_, h.occupied, h.core, fun q hq => ?_, h.sized⟩
  · refine (h.free q).trans (and_congr_right fun _ => ?_)
    by_cases hq : q = p
    · subst hq
      exact ⟨fun hr => absurd rfl hr.2, fun hr => absurd hr.1 hp⟩
    · have hne : some p ≠ some q := fun heq => hq (Option.some.inj heq).symm
      rw [mapTo_busy, if_neg (Ne.symm hq)]
      simp [hne]
  · by_cases hqp : q = p
    · exact h.bounded q (.inr (by rw [hqp]))
    · rw [mapTo_busy, if_neg (Ne.symm hqp)] at hq
      exact h.bounded q (.inl (hq.resolve_right (Option.some_ne_none q).symm))
  · rw [mapTo_pending]
    exact h.idle q hq

lemma Balanced.release (h : Balanced n size held b log) {p : ℕ} (hp : p < b.local_size)
    (hfree : p ∉ b.free_registers) (register : PhysicalRegister) :
    (b.setRegister p register).release p = some
      { b.setRegister p register with
        free_registers := p :: b.free_registers
        num_occupied_registers := b.num_occupied_registers - 1
        core_num_occupied_registers := b.core_num_occupied_registers - 1 } := by
  have hlt := h.length_lt hp hfree
  have hoccupied := h.occupied
  have hnum : 0 < b.num_occupied_registers := by omega
  exact if_pos ⟨hlt, hnum.trans_le h.core, hnum⟩

/-- One holder of the register `p` goes: the alias table is `rat` then, and the log `log'`. -/
lemma Balanced.drop (h : Balanced n size none b log) {rat : ℕ → ℕ} {log' : List (LoggedWrite ℕ ℕ)}
    (hlogged : Logged rat log') (hslots : ∀ w ∈ log', w.slot ∈ Finset.range n)
    (hholders : ∀ q, holders (Finset.range n) b.rat log q =
      holders (Finset.range n) rat log' q + if p = q then 1 else 0)
    (hidle : (b.registers p).busy - 1 = 0 → (b.registers p).pending = false) :
    ∃ b', (if (b.registers p).busy - 1 = 0 then
        (b.setRegister p { b.registers p with busy := (b.registers p).busy - 1 }).release p
      else some (b.setRegister p { b.registers p with busy := (b.registers p).busy - 1 })) =
        some b' ∧ b'.rat = b.rat ∧ (∀ q, (b'.registers q).pending = (b.registers q).pending) ∧
      Balanced n size none { b' with rat := rat } log' := by
  set b₁ := b.setRegister p { b.registers p with busy := (b.registers p).busy - 1 } with hb₁
  have hone : (b.registers p).busy = holders (Finset.range n) rat log' p + 1 := by
    rw [h.busy p, hholders p, if_pos rfl]
  have hpos : (b.registers p).busy ≠ 0 := by omega
  have hp := h.bounded p (.inl hpos)
  have hfree : p ∉ b.free_registers := fun hmem => hpos ((h.free p).mp hmem).2.1
  have hbusy : ∀ q, (b₁.registers q).busy = holders (Finset.range n) rat log' q := by
    intro q
    simp only [hb₁, setRegister]
    by_cases hq : q = p
    · rw [hq, Function.update_self, hone, Nat.add_sub_cancel]
    · rw [Function.update_of_ne hq, h.busy q, hholders q, if_neg (Ne.symm hq), add_zero]
  have hpending : ∀ q, (b₁.registers q).pending = (b.registers q).pending := by
    intro q
    simp only [hb₁, setRegister]
    by_cases hq : q = p
    · rw [hq, Function.update_self]
    · rw [Function.update_of_ne hq]
  have hother : ∀ q, q ≠ p → (b₁.registers q).busy = (b.registers q).busy := fun q hq => by
    simp only [hb₁, setRegister, Function.update_of_ne hq]
  have hself : (b₁.registers p).busy = (b.registers p).busy - 1 := by
    simp only [hb₁, setRegister, Function.update_self]
  by_cases hzero : (b.registers p).busy - 1 = 0
  · refine ⟨_, (if_pos hzero).trans (h.release hp hfree _), rfl, hpending, hlogged, hslots, hbusy,
      fun q => ?_, List.nodup_cons.mpr ⟨hfree, h.nodup⟩, fun q hq => ?_, ?_, ?_, fun q hq => ?_,
      h.sized⟩
    · change q ∈ p :: b.free_registers ↔ q < b.local_size ∧ (b₁.registers q).busy = 0 ∧ none ≠ some q
      rw [List.mem_cons]
      by_cases hq : q = p
      · subst hq
        simp [hp, hself, hzero]
      · rw [hother q hq, ← h.free q]
        simp [hq]
    · by_cases hqp : q = p
      · exact hqp ▸ hp
      · have hne := hq.resolve_right (Option.some_ne_none q).symm
        exact h.bounded q (.inl (hother q hqp ▸ hne))
    · have hoccupied := h.occupied
      have hlt := h.length_lt hp hfree
      change b.num_occupied_registers - 1 + (b.free_registers.length + 1) = b.local_size
      omega
    · exact Nat.sub_le_sub_right h.core 1
    · obtain rfl | hq := List.mem_cons.mp hq
      · exact (hpending q).trans (hidle hzero)
      · exact (hpending q).trans (h.idle q hq)
  · refine ⟨_, if_neg hzero, rfl, hpending, hlogged, hslots, hbusy, fun q => ?_, h.nodup,
      fun q hq => ?_, h.occupied, h.core, fun q hq => (hpending q).trans (h.idle q hq), h.sized⟩
    · change q ∈ b.free_registers ↔ q < b.local_size ∧ (b₁.registers q).busy = 0 ∧ none ≠ some q
      rw [h.free q]
      by_cases hq : q = p
      · subst hq
        simp [hself, hzero, hpos]
      · rw [hother q hq]
    · by_cases hqp : q = p
      · exact hqp ▸ hp
      · have hne := hq.resolve_right (Option.some_ne_none q).symm
        exact h.bounded q (.inl (hother q hqp ▸ hne))

lemma Balanced.undo (h : Balanced n size none b (w :: log))
    (hpending : (b.registers w.new).pending = false) :
    ∃ b', b.undo w.slot w.new w.old = some b' ∧
      b'.rat = Function.update b.rat w.slot w.old ∧
      (∀ q, (b'.registers q).pending = (b.registers q).pending) ∧ Balanced n size none b' log := by
  obtain ⟨hnew, hlogged⟩ := h.logged
  have hslot := h.slots w List.mem_cons_self
  have hholders : ∀ r, holders (Finset.range n) b.rat (w :: log) r =
      holders (Finset.range n) (Function.update b.rat w.slot w.old) log r +
        if w.new = r then 1 else 0 := holders_cons hslot hnew
  obtain ⟨b', hb', hrat, hsame, hbal⟩ := h.drop hlogged
    (fun v hv => h.slots v (List.mem_cons_of_mem w hv)) hholders fun _ => hpending
  have hpos : 0 < (b.registers w.new).busy := by
    rw [h.busy, hholders, if_pos rfl]
    exact Nat.succ_pos _
  have hold : (b'.registers w.old).busy ≠ 0 := by
    have hbusy := hbal.busy w.old
    have hholder : 0 < holders (Finset.range n) (Function.update b.rat w.slot w.old) log
        (Function.update b.rat w.slot w.old w.slot) := holders_pos_of_mem hslot
    rw [Function.update_self] at hholder
    exact hbusy ▸ hholder.ne'
  refine ⟨b'.setRat w.slot w.old, ?_, by rw [setRat, hrat], hsame, ?_⟩
  · rw [Bank.undo, if_pos ⟨hpos, hpending⟩]
    dsimp only at hb' ⊢
    rw [hb', Option.bind_some, if_pos hold]
  · rw [setRat, hrat]
    exact hbal

lemma Balanced.commit (h : Balanced n size none b (log ++ [w]))
    (hidle : (b.registers w.old).busy - 1 = 0 → (b.registers w.old).pending = false) :
    ∃ b', b.commit w.old = some b' ∧ b'.rat = b.rat ∧
      (∀ q, (b'.registers q).pending = (b.registers q).pending) ∧ Balanced n size none b' log := by
  have hholders : ∀ q, holders (Finset.range n) b.rat (log ++ [w]) q =
      holders (Finset.range n) b.rat log q + if w.old = q then 1 else 0 := holders_concat
  obtain ⟨b', hb', hrat, hsame, hbal⟩ := h.drop (logged_append.mp h.logged).1
    (fun v hv => h.slots v (List.mem_append_left _ hv)) hholders hidle
  have hpos : 0 < (b.registers w.old).busy := by
    rw [h.busy, hholders, if_pos rfl]
    exact Nat.succ_pos _
  refine ⟨b', ?_, hrat, hsame, ?_⟩
  · rw [Bank.commit, if_pos hpos]
    rw [← hb']
    by_cases hzero : (b.registers w.old).busy - 1 = 0
    · rw [if_pos hzero, if_pos hzero, if_pos (hidle hzero)]
    · rw [if_neg hzero, if_neg hzero]
  · rw [← hrat] at hbal
    exact hbal

lemma Balanced.idle_old (h : Balanced n size none b (log ++ [w]))
    (howned : (b.registers w.old).pending = true → ∃ v ∈ log, v.new = w.old) :
    (b.registers w.old).busy - 1 = 0 → (b.registers w.old).pending = false := by
  intro hzero
  by_contra hpending
  rw [Bool.not_eq_false] at hpending
  obtain ⟨v, hv, hnew⟩ := howned hpending
  have hpos := (logged_append.mp h.logged).1.holders_pos
    (fun u hu => h.slots u (List.mem_append_left _ hu)) hv
  have hbusy := h.busy w.old
  rw [holders_concat, if_pos rfl] at hbusy
  rw [hnew] at hpos
  omega

lemma commit_idle (h : b.commit p = some b') :
    (b.registers p).busy - 1 = 0 → (b.registers p).pending = false := by
  intro hzero
  by_contra hpending
  simp only [Bank.commit, if_pos hzero, if_neg hpending, ite_self] at h
  cases h

end Bank

lemma balanced_emptyBank (config : Config) (core : RegisterKind → ℕ) (kind : RegisterKind) :
    (emptyBank config core kind).Balanced 0 (config.local_size kind) none [] := by
  refine ⟨trivial, fun w hw => absurd hw List.not_mem_nil, fun _ => rfl, fun p => ?_, ?_,
    fun p hp => ?_, ?_, Nat.zero_le _, fun _ _ => rfl, rfl⟩
  · simp [emptyBank]
  · exact List.nodup_reverse.mpr List.nodup_range
  · exact absurd hp (by simp [emptyBank])
  · simp [emptyBank]

lemma balanced_mapOther {size : ℕ} {b₀ b : Bank} (h₀ : b₀.Balanced 0 size none []) {n : ℕ}
    (h : run mapOther (List.range n) b₀ = some b) : b.Balanced n size none [] := by
  induction n generalizing b with
  | zero =>
    cases h
    exact h₀
  | succ n ih =>
    rw [List.range_succ, run_append, Option.bind_eq_some_iff] at h
    obtain ⟨b₁, hb₁, h⟩ := h
    rw [run_cons, Option.bind_eq_some_iff] at h
    obtain ⟨b₂, hb₂, h⟩ := h
    cases h
    rw [mapOther, Option.map_eq_some_iff] at hb₂
    obtain ⟨⟨p, b₃⟩, hrequest, rfl⟩ := hb₂
    exact ((ih hb₁).request hrequest).1.mapTo

lemma balanced_mapInteger {size : ℕ} {b₀ : Bank} (h₀ : b₀.Balanced 0 size none []) {n : ℕ}
    {s : Option ℕ × Bank} (h : run mapInteger (List.range n) (none, b₀) = some s) :
    s.2.Balanced n size none [] ∧ ∀ p, s.1 = some p → (s.2.registers p).busy ≠ 0 := by
  induction n generalizing s with
  | zero =>
    cases h
    exact ⟨h₀, fun p hp => absurd hp (by simp)⟩
  | succ n ih =>
    rw [List.range_succ, run_append, Option.bind_eq_some_iff] at h
    obtain ⟨s₁, hs₁, h⟩ := h
    rw [run_cons, Option.bind_eq_some_iff] at h
    obtain ⟨s₂, hs₂, h⟩ := h
    cases h
    obtain ⟨hbal, hflag⟩ := ih hs₁
    have hbusy : ∀ (b : Bank) p, ((b.mapTo n p).registers p).busy ≠ 0 := fun b p => by
      rw [Bank.mapTo_busy, if_pos rfl]
      exact Nat.succ_ne_zero _
    unfold mapInteger at hs₂
    split at hs₂
    · rw [Option.map_eq_some_iff] at hs₂
      obtain ⟨p, hp, rfl⟩ := hs₂
      refine ⟨(hbal.hold (hflag p hp)).mapTo, fun q hq => ?_⟩
      rw [hp] at hq
      exact Option.some.inj hq ▸ hbusy _ p
    · rw [Option.map_eq_some_iff] at hs₂
      obtain ⟨⟨p, b⟩, hrequest, rfl⟩ := hs₂
      exact ⟨(hbal.request hrequest).1.mapTo, fun q hq => Option.some.inj hq ▸ hbusy _ p⟩

lemma balanced_new {config : Config} {core : RegisterKind → ℕ} {f : RegisterFile}
    (h : new config core = some f) (kind : RegisterKind) :
    (f.bank kind).Balanced kind.depCount (config.local_size kind) none [] := by
  simp only [new, Option.bind_eq_some_iff, Option.map_eq_some_iff] at h
  obtain ⟨i, hi, fp, hfp, x, hx, rfl⟩ := h
  cases kind with
  | Integer => exact (balanced_mapInteger (balanced_emptyBank config core _) hi).1
  | FloatingPoint => exact balanced_mapOther (balanced_emptyBank config core _) hfp
  | Xmm => exact balanced_mapOther (balanced_emptyBank config core _) hx

lemma new_top {config : Config} {core : RegisterKind → ℕ} {f : RegisterFile}
    (h : new config core = some f) : f.floating_point_top = 0 := by
  simp only [new, Option.bind_eq_some_iff, Option.map_eq_some_iff] at h
  obtain ⟨i, hi, fp, hfp, x, hx, rfl⟩ := h
  rfl

lemma new_keeps {Q : Bank → Prop} {config : Config} {core : RegisterKind → ℕ} {f : RegisterFile}
    (hrequest : ∀ {b p b'}, Q b → b.request = some (p, b') → Q b')
    (hmap : ∀ {b} l p, Q b → Q (b.mapTo l p)) (h : new config core = some f) (kind : RegisterKind)
    (hempty : Q (emptyBank config core kind)) : Q (f.bank kind) := by
  have hother : ∀ {b b' : Bank} {deps : List ℕ}, Q b → run mapOther deps b = some b' → Q b' := by
    intro b b' deps hb hrun
    refine run_invariant (P := fun _ _ => True) (fun dep b b' hb _ hs => ?_) hb
      (along_of_forall (fun _ _ => trivial) _ _) hrun
    rw [mapOther, Option.map_eq_some_iff] at hs
    obtain ⟨⟨p, b₁⟩, hb₁, rfl⟩ := hs
    exact hmap dep p (hrequest hb hb₁)
  simp only [new, Option.bind_eq_some_iff, Option.map_eq_some_iff] at h
  obtain ⟨i, hi, fp, hfp, x, hx, rfl⟩ := h
  cases kind with
  | Integer =>
    refine run_invariant (P := fun _ _ => True) (Q := fun s : Option ℕ × Bank => Q s.2)
      (fun dep s s' hs _ hstep => ?_) hempty (along_of_forall (fun _ _ => trivial) _ _) hi
    unfold mapInteger at hstep
    split at hstep
    · rw [Option.map_eq_some_iff] at hstep
      obtain ⟨p, -, rfl⟩ := hstep
      exact hmap dep p hs
    · rw [Option.map_eq_some_iff] at hstep
      obtain ⟨⟨p, b⟩, hb, rfl⟩ := hstep
      exact hmap dep p (hrequest hs hb)
  | FloatingPoint => exact hother hempty hfp
  | Xmm => exact hother hempty hx

end OISA.X86.RegisterFile
