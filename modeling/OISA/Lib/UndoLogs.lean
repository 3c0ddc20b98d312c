import Mathlib.Tactic

/-!
# Tables with an undo log

A write of a table is logged with its slot, the new value and the value before, the youngest write
first.
-/

namespace OISA.Lib

structure LoggedWrite (L R : Type) where
  slot : L
  new : R
  old : R
  deriving DecidableEq, Repr

variable {L R : Type} [DecidableEq L]

def rewind (table : L → R) : List (LoggedWrite L R) → L → R
  | [] => table
  | w :: log => rewind (Function.update table w.slot w.old) log

/-- Each slot has the value of its youngest write, and each write found the value of the one
before. -/
def Logged (table : L → R) : List (LoggedWrite L R) → Prop
  | [] => True
  | w :: log => table w.slot = w.new ∧ Logged (Function.update table w.slot w.old) log

/-- The writes of a slot -/
def history (l : L) (log : List (LoggedWrite L R)) : List (LoggedWrite L R) :=
  log.filter fun w => w.slot = l

def valueBefore (r : R) : List (LoggedWrite L R) → R
  | [] => r
  | w :: ws => valueBefore w.old ws

def LeadsTo (r : R) : List (LoggedWrite L R) → Prop
  | [] => True
  | w :: ws => r = w.new ∧ LeadsTo w.old ws

section History

variable {table : L → R} {log log' : List (LoggedWrite L R)} {w : LoggedWrite L R} {l : L}

@[simp] lemma history_nil : history l ([] : List (LoggedWrite L R)) = [] := rfl

lemma history_cons_self : history w.slot (w :: log) = w :: history w.slot log :=
  List.filter_cons_of_pos (by simp)

lemma history_cons_of_ne (h : w.slot ≠ l) : history l (w :: log) = history l log :=
  List.filter_cons_of_neg (by simpa using h)

@[simp] lemma history_append : history l (log ++ log') = history l log ++ history l log' :=
  List.filter_append ..

lemma perm_of_history [DecidableEq R] (h : ∀ l, history l log = history l log') :
    log.Perm log' := by
  rw [List.perm_iff_count]
  intro w
  have hcount : ∀ ws : List (LoggedWrite L R), (history w.slot ws).count w = ws.count w :=
    fun ws => List.count_filter (by simp)
  rw [← hcount log, ← hcount log', h w.slot]

lemma rewind_apply (table : L → R) (log : List (LoggedWrite L R)) (l : L) :
    rewind table log l = valueBefore (table l) (history l log) := by
  induction log generalizing table with
  | nil => rfl
  | cons w log ih =>
    rw [rewind, ih]
    by_cases h : w.slot = l
    · subst h
      rw [history_cons_self, Function.update_self, valueBefore]
    · rw [history_cons_of_ne h, Function.update_of_ne (Ne.symm h)]

lemma logged_iff : Logged table log ↔ ∀ l, LeadsTo (table l) (history l log) := by
  induction log generalizing table with
  | nil => exact ⟨fun _ _ => trivial, fun _ => trivial⟩
  | cons w log ih =>
    rw [Logged, ih]
    constructor
    · rintro ⟨hnew, hlog⟩ l
      have hl := hlog l
      by_cases h : w.slot = l
      · subst h
        rw [Function.update_self] at hl
        rw [history_cons_self]
        exact ⟨hnew, hl⟩
      · rwa [history_cons_of_ne h, ← Function.update_of_ne (Ne.symm h) w.old table]
    · intro hlog
      have hw := hlog w.slot
      rw [history_cons_self] at hw
      refine ⟨hw.1, fun l => ?_⟩
      by_cases h : w.slot = l
      · subst h
        rw [Function.update_self]
        exact hw.2
      · have hl := hlog l
        rw [history_cons_of_ne h] at hl
        rwa [Function.update_of_ne (Ne.symm h)]

lemma rewind_congr (h : ∀ l, history l log = history l log') :
    rewind table log = rewind table log' := by
  funext l
  rw [rewind_apply, rewind_apply, h l]

lemma Logged.congr (hlog : Logged table log) (h : ∀ l, history l log = history l log') :
    Logged table log' := by
  rw [logged_iff] at hlog ⊢
  intro l
  rw [← h l]
  exact hlog l

lemma rewind_append (table : L → R) (log log' : List (LoggedWrite L R)) :
    rewind table (log ++ log') = rewind (rewind table log) log' := by
  induction log generalizing table with
  | nil => rfl
  | cons w log ih => exact ih _

lemma logged_append :
    Logged table (log ++ log') ↔ Logged table log ∧ Logged (rewind table log) log' := by
  induction log generalizing table with
  | nil => exact ⟨fun h => ⟨trivial, h⟩, And.right⟩
  | cons w log ih =>
    rw [List.cons_append, Logged, Logged, ih, rewind, and_assoc]

lemma rewind_write (table : L → R) (l : L) (r : R) (log : List (LoggedWrite L R)) :
    rewind (Function.update table l r) (⟨l, r, table l⟩ :: log) = rewind table log := by
  rw [rewind, Function.update_idem, Function.update_eq_self]

lemma Logged.write (h : Logged table log) (l : L) (r : R) :
    Logged (Function.update table l r) (⟨l, r, table l⟩ :: log) := by
  refine ⟨Function.update_self .., ?_⟩
  rwa [Function.update_idem, Function.update_eq_self]

lemma Logged.lookup (h : Logged table log) (l : L) :
    table l = ((history l log).head?.map LoggedWrite.new).getD (rewind table log l) := by
  have hl := logged_iff.mp h l
  rw [rewind_apply]
  cases hhistory : history l log with
  | nil => rfl
  | cons w ws =>
    rw [hhistory] at hl
    exact hl.1

end History

section Holders

variable [DecidableEq R] {slots : Finset L} {table : L → R} {log log' : List (LoggedWrite L R)}
  {w : LoggedWrite L R}

def holders (slots : Finset L) (table : L → R) (log : List (LoggedWrite L R)) (r : R) : ℕ :=
  (slots.filter fun l => table l = r).card + log.countP fun w => w.old = r

omit [DecidableEq L] in
lemma holders_perm (h : log.Perm log') (r : R) :
    holders slots table log r = holders slots table log' r := by
  rw [holders, holders, h.countP_eq]

lemma card_filter_update (table : L → R) {l : L} (hl : l ∈ slots) (r q : R) :
    (slots.filter fun k => Function.update table l r k = q).card + (if table l = q then 1 else 0) =
      (slots.filter fun k => table k = q).card + if r = q then 1 else 0 := by
  have hrest : ∀ t : L → R, (slots.filter fun k => t k = q).card =
      ((slots.erase l).filter fun k => t k = q).card + if t l = q then 1 else 0 := by
    intro t
    rw [← Finset.insert_erase hl, Finset.filter_insert, Finset.erase_insert_eq_erase]
    split
    · rw [Finset.card_insert_of_notMem (by simp), Finset.erase_idem]
    · rw [Finset.erase_idem, add_zero]
  have hsame : ((slots.erase l).filter fun k => Function.update table l r k = q) =
      (slots.erase l).filter fun k => table k = q :=
    Finset.filter_congr fun k hk => by rw [Function.update_of_ne (Finset.ne_of_mem_erase hk)]
  rw [hrest (Function.update table l r), hrest table, hsame, Function.update_self]
  omega

lemma holders_cons (hw : w.slot ∈ slots) (hnew : table w.slot = w.new) (r : R) :
    holders slots table (w :: log) r =
      holders slots (Function.update table w.slot w.old) log r + if w.new = r then 1 else 0 := by
  have hcard := card_filter_update table hw w.old r
  rw [hnew] at hcard
  rw [holders, holders, List.countP_cons]
  simp only [decide_eq_true_eq]
  omega

omit [DecidableEq L] in
lemma holders_concat (r : R) :
    holders slots table (log ++ [w]) r =
      holders slots table log r + if w.old = r then 1 else 0 := by
  rw [holders, holders, List.countP_append, List.countP_singleton]
  simp only [decide_eq_true_eq]
  omega

lemma Logged.holders_pos (h : Logged table log) (hslots : ∀ w ∈ log, w.slot ∈ slots)
    (hw : w ∈ log) : 0 < holders slots table log w.new := by
  induction log generalizing table with
  | nil => cases hw
  | cons v log ih =>
    obtain ⟨hnew, hlog⟩ := h
    rw [holders_cons (hslots v List.mem_cons_self) hnew]
    obtain rfl | hw := List.mem_cons.mp hw
    · rw [if_pos rfl]
      exact Nat.succ_pos _
    · have hpos := ih hlog (fun u hu => hslots u (List.mem_cons_of_mem v hu)) hw
      exact Nat.add_pos_left hpos _

omit [DecidableEq L] in
lemma holders_pos_of_mem {l : L} (hl : l ∈ slots) : 0 < holders slots table log (table l) := by
  have hcard : 0 < (slots.filter fun k => table k = table l).card :=
    Finset.card_pos.mpr ⟨l, Finset.mem_filter.mpr ⟨hl, rfl⟩⟩
  exact Nat.add_pos_left hcard _

end Holders

end OISA.Lib
