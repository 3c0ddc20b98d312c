import Mathlib.Tactic

/-!
# Traced computations over named int arrays

`Traced ι α` is a computation over a memory of int arrays named by `ι`.
-/

namespace OISA.Lib

/-- A memory of int arrays, one for every name in `ι`. -/
@[ext]
structure Mem (ι : Type) where
  get : ι → ℕ → ℤ

namespace Mem

variable {ι : Type} [DecidableEq ι]

def set (m : Mem ι) (a : ι) (i : ℕ) (v : ℤ) : Mem ι :=
  ⟨fun b j => if b = a ∧ j = i then v else m.get b j⟩

lemma get_set (m : Mem ι) (a b : ι) (i j : ℕ) (v : ℤ) :
    (m.set a i v).get b j = if b = a ∧ j = i then v else m.get b j := rfl

@[simp] lemma get_set_same (m : Mem ι) (a : ι) (i : ℕ) (v : ℤ) :
    (m.set a i v).get a i = v := by
  simp [get_set]

lemma get_set_of_ne_array (m : Mem ι) {a b : ι} (h : b ≠ a) (i j : ℕ) (v : ℤ) :
    (m.set a i v).get b j = m.get b j := by
  simp [get_set, h]

end Mem

def Traced (ι α : Type) : Type := Mem ι → (α × Mem ι) × List (ι × ℕ)

namespace Traced

variable {ι α β σ : Type}

def val (x : Traced ι α) (m : Mem ι) : α := (x m).1.1

def exec (x : Traced ι α) (m : Mem ι) : Mem ι := (x m).1.2

def log (x : Traced ι α) (m : Mem ι) : List (ι × ℕ) := (x m).2

instance : Monad (Traced ι) where
  pure a := fun m => ((a, m), [])
  bind x f := fun m => match x m with
    | ((a, m₁), l₁) => match f a m₁ with
      | (r, l₂) => (r, l₁ ++ l₂)

@[simp] lemma val_pure (a : α) (m : Mem ι) : (pure a : Traced ι α).val m = a := rfl

@[simp] lemma exec_pure (a : α) (m : Mem ι) : (pure a : Traced ι α).exec m = m := rfl

@[simp] lemma log_pure (a : α) (m : Mem ι) : (pure a : Traced ι α).log m = [] := rfl

@[simp] lemma val_bind (x : Traced ι α) (f : α → Traced ι β) (m : Mem ι) :
    (x >>= f).val m = (f (x.val m)).val (x.exec m) := by
  unfold val exec
  rfl

@[simp] lemma exec_bind (x : Traced ι α) (f : α → Traced ι β) (m : Mem ι) :
    (x >>= f).exec m = (f (x.val m)).exec (x.exec m) := by
  unfold val exec
  rfl

@[simp] lemma log_bind (x : Traced ι α) (f : α → Traced ι β) (m : Mem ι) :
    (x >>= f).log m = x.log m ++ (f (x.val m)).log (x.exec m) := rfl

section Access

variable [DecidableEq ι]

def load (a : ι) (i : ℕ) : Traced ι ℤ := fun m => ((m.get a i, m), [(a, i)])

def store (a : ι) (i : ℕ) (v : ℤ) : Traced ι Unit := fun m => (((), m.set a i v), [(a, i)])

omit [DecidableEq ι] in
@[simp] lemma val_load (a : ι) (i : ℕ) (m : Mem ι) : (load a i).val m = m.get a i := rfl

omit [DecidableEq ι] in
@[simp] lemma exec_load (a : ι) (i : ℕ) (m : Mem ι) : (load a i).exec m = m := rfl

omit [DecidableEq ι] in
@[simp] lemma log_load (a : ι) (i : ℕ) (m : Mem ι) : (load a i).log m = [(a, i)] := rfl

@[simp] lemma exec_store (a : ι) (i : ℕ) (v : ℤ) (m : Mem ι) :
    (store a i v).exec m = m.set a i v := rfl

@[simp] lemma log_store (a : ι) (i : ℕ) (v : ℤ) (m : Mem ι) :
    (store a i v).log m = [(a, i)] := rfl

end Access

/-! ### Counted loops -/

def loop (body : ℕ → σ → Traced ι σ) : ℕ → σ → Traced ι σ
  | 0, a => pure a
  | n + 1, a => loop body n a >>= body n

def forUpTo (n : ℕ) (body : ℕ → Traced ι Unit) : Traced ι Unit :=
  loop (fun i _ => body i) n ()

lemma loop_succ (body : ℕ → σ → Traced ι σ) (n : ℕ) (a : σ) :
    loop body (n + 1) a = loop body n a >>= body n := rfl

@[simp] lemma forUpTo_zero (body : ℕ → Traced ι Unit) : forUpTo 0 body = pure () := rfl

lemma forUpTo_succ (n : ℕ) (body : ℕ → Traced ι Unit) :
    forUpTo (n + 1) body = forUpTo n body >>= fun _ => body n := rfl

/-- The invariant rule of a counted loop. -/
theorem loop_invariant (P : ℕ → σ → Mem ι → Prop) (body : ℕ → σ → Traced ι σ) (n : ℕ)
    (a : σ) (m : Mem ι) (h0 : P 0 a m)
    (hstep : ∀ i < n, ∀ b m', P i b m' → P (i + 1) ((body i b).val m') ((body i b).exec m')) :
    P n ((loop body n a).val m) ((loop body n a).exec m) := by
  induction n with
  | zero => exact h0
  | succ n ih =>
    rw [loop_succ, val_bind, exec_bind]
    exact hstep n (by omega) _ _ (ih (fun i hi => hstep i (by omega)))

theorem forUpTo_invariant (P : ℕ → Mem ι → Prop) (body : ℕ → Traced ι Unit) (n : ℕ)
    (m : Mem ι) (h0 : P 0 m)
    (hstep : ∀ i < n, ∀ m', P i m' → P (i + 1) ((body i).exec m')) :
    P n ((forUpTo n body).exec m) :=
  loop_invariant (fun i _ m' => P i m') (fun i _ => body i) n () m h0
    (fun i hi _ m' h => hstep i hi m' h)

/-! ### Frames -/

/-- The computation leaves the array `a` as it is. -/
def Keeps (x : Traced ι α) (a : ι) : Prop :=
  ∀ m, (x.exec m).get a = m.get a

@[simp] lemma keeps_pure (v : α) (a : ι) : Keeps (pure v : Traced ι α) a := fun _ => rfl

lemma Keeps.bind {x : Traced ι α} {f : α → Traced ι β} {a : ι} (hx : Keeps x a)
    (hf : ∀ v, Keeps (f v) a) : Keeps (x >>= f) a := fun m => by
  rw [exec_bind, hf, hx]

@[simp] lemma keeps_load (b : ι) (i : ℕ) (a : ι) : Keeps (load b i) a := fun _ => rfl

lemma keeps_store [DecidableEq ι] {a b : ι} (h : a ≠ b) (i : ℕ) (v : ℤ) :
    Keeps (store b i v) a := fun m => by
  funext j
  rw [exec_store, Mem.get_set_of_ne_array m h]

lemma keeps_loop {body : ℕ → σ → Traced ι σ} {a : ι} (h : ∀ i s, Keeps (body i s) a) (n : ℕ)
    (s : σ) : Keeps (loop body n s) a := by
  induction n with
  | zero => exact keeps_pure s a
  | succ n ih => exact ih.bind fun v => h n v

lemma keeps_forUpTo {body : ℕ → Traced ι Unit} {a : ι} (h : ∀ i, Keeps (body i) a) (n : ℕ) :
    Keeps (forUpTo n body) a :=
  keeps_loop (fun i _ => h i) n ()

/-! ### Comparing logs -/

def SameLog (x : Traced ι α) (y : Traced ι β) : Prop :=
  ∀ m m', x.log m = y.log m'

lemma sameLog_pure (v : α) (w : β) : SameLog (pure v : Traced ι α) (pure w : Traced ι β) :=
  fun _ _ => rfl

lemma sameLog_load (a : ι) (i : ℕ) : SameLog (load a i) (load a i) := fun _ _ => rfl

lemma sameLog_store [DecidableEq ι] (a : ι) (i : ℕ) (v w : ℤ) :
    SameLog (store a i v) (store a i w) := fun _ _ => rfl

lemma SameLog.bind {α' β' : Type} {x : Traced ι α} {y : Traced ι α'} {f : α → Traced ι β}
    {g : α' → Traced ι β'} (hx : SameLog x y) (hf : ∀ v w, SameLog (f v) (g w)) :
    SameLog (x >>= f) (y >>= g) := fun m m' => by
  rw [log_bind, log_bind, hx m m', hf _ _ _ _]

lemma sameLog_loop {τ : Type} {body : ℕ → σ → Traced ι σ} {body' : ℕ → τ → Traced ι τ}
    (h : ∀ i s t, SameLog (body i s) (body' i t)) (n : ℕ) (s : σ) (t : τ) :
    SameLog (loop body n s) (loop body' n t) := by
  induction n with
  | zero => exact sameLog_pure s t
  | succ n ih => exact ih.bind fun v w => h n v w

lemma sameLog_forUpTo {body body' : ℕ → Traced ι Unit} (h : ∀ i, SameLog (body i) (body' i))
    (n : ℕ) : SameLog (forUpTo n body) (forUpTo n body') :=
  sameLog_loop (fun i _ _ => h i) n () ()

/-- Wherever the two logs stand, they agree and are followed by the same exactly when `Q`. -/
def Splits {γ : Type} (l l' : List γ) (Q : Prop) : Prop :=
  ∀ r r', l ++ r = l' ++ r' ↔ Q ∧ r = r'

section Splits

variable {γ : Type} {l l' k k' : List γ} {Q R : Prop}

lemma splits_of_eq (h : l = l') : Splits l l' True := fun r r' => by
  rw [h, List.append_cancel_left_eq, true_and]

lemma Splits.append (h : Splits l l' Q) (hk : Q → Splits k k' R) :
    Splits (l ++ k) (l' ++ k') (Q ∧ R) := fun r r' => by
  rw [List.append_assoc, List.append_assoc, h, and_assoc]
  exact and_congr_right fun hq => hk hq r r'

lemma Splits.congr (h : Splits l l' Q) (hQ : Q ↔ R) : Splits l l' R := fun r r' => by
  rw [h, hQ]

lemma Splits.append_left (h : l = l') (hk : Splits k k' Q) : Splits (l ++ k) (l' ++ k') Q :=
  ((splits_of_eq h).append fun _ => hk).congr ⟨And.right, fun h => ⟨trivial, h⟩⟩

lemma Splits.append_right (hl : Splits l l' Q) (h : k = k') : Splits (l ++ k) (l' ++ k') Q :=
  (hl.append fun _ => splits_of_eq h).congr ⟨And.left, fun h => ⟨h, trivial⟩⟩

lemma splits_optional {c d : γ} (hne : c ≠ d) (k : ℕ) (b b' : Bool) :
    Splits ((if b then [c] else []) ++ (List.replicate k c ++ [d]))
      ((if b' then [c] else []) ++ (List.replicate k c ++ [d])) (b = b') := fun r r' => by
  have hcons : c :: List.replicate k c = List.replicate k c ++ [c] := by
    rw [← List.replicate_succ, List.replicate_succ']
  have hextra : ∀ x y : List γ,
      ¬c :: (List.replicate k c ++ d :: x) = List.replicate k c ++ d :: y := by
    intro x y h
    rw [← List.cons_append, hcons, List.append_assoc, List.append_cancel_left_eq,
      List.singleton_append, List.cons.injEq] at h
    exact hne h.1
  have hextra' : ∀ x y : List γ,
      ¬List.replicate k c ++ d :: y = c :: (List.replicate k c ++ d :: x) :=
    fun x y h => hextra x y h.symm
  cases b <;> cases b' <;> simp [hextra, hextra']

lemma Splits.eq_iff (h : Splits l l' Q) : l = l' ↔ Q := by
  have := h [] []
  simpa using this

end Splits

/-- Counted loops whose rounds split, the round `i` as long as the rounds before agree. -/
theorem loop_splits {τ : Type} (body : ℕ → σ → Traced ι σ) (body' : ℕ → τ → Traced ι τ)
    (n : ℕ) (a : σ) (b : τ) (m m' : Mem ι) (Q : ℕ → Prop)
    (hstep : ∀ i < n, (∀ j < i, Q j) →
      Splits ((body i ((loop body i a).val m)).log ((loop body i a).exec m))
        ((body' i ((loop body' i b).val m')).log ((loop body' i b).exec m')) (Q i)) :
    Splits ((loop body n a).log m) ((loop body' n b).log m') (∀ i < n, Q i) := by
  induction n with
  | zero =>
    refine (splits_of_eq rfl).congr ⟨fun _ i hi => absurd hi (Nat.not_lt_zero i), fun _ => trivial⟩
  | succ n ih =>
    have hn := ih fun i hi => hstep i (by omega)
    rw [loop_succ, loop_succ, log_bind, log_bind]
    refine (hn.append fun hQ => hstep n (by omega) hQ).congr ⟨fun h i hi => ?_, fun h => ?_⟩
    · rcases Nat.lt_succ_iff_lt_or_eq.mp hi with hlt | rfl
      · exact h.1 i hlt
      · exact h.2
    · exact ⟨fun i hi => h i (by omega), h n (by omega)⟩

end Traced

end OISA.Lib
