import OISA.Lib.Pages

/-!
# Transfers cut at page boundaries

A transfer between a buffer and a paged store is done page by page: a loop cuts the range of
addresses at page boundaries and passes each chunk to an operation of the store, which may fail.
-/

namespace OISA.Lib

variable {w : ℕ} {S β E : Type}

/-- How a transfer ends: the store, the buffer, and the error that stopped it, if any. -/
structure Outcome (S β E : Type) where
  state : S
  buffer : List β
  error : Option E

/-- Go on with the rest of the buffer. After an error the rest is left as it is. -/
def Outcome.append (o : Outcome S β E) (rest : List β) (next : S → Outcome S β E) :
    Outcome S β E :=
  match o.error with
  | some _ => { o with buffer := o.buffer ++ rest }
  | none => { next o.state with buffer := o.buffer ++ (next o.state).buffer }

/-- The loop `while (size)` over the chunks of a transfer. -/
def transferLoop (k : ℕ) (op : BitVec w → List β → S → Outcome S β E) :
    ℕ → BitVec w → List β → S → Outcome S β E
  | 0, _, buffer, s => ⟨s, buffer, none⟩
  | fuel + 1, a, buffer, s =>
    if buffer = [] then ⟨s, [], none⟩
    else
      let chunksize := min buffer.length (2 ^ k - (pageOffset k a).toNat)
      (op a (buffer.take chunksize) s).append (buffer.drop chunksize)
        (transferLoop k op fuel (a + BitVec.ofNat w chunksize) (buffer.drop chunksize))

def transfer (k : ℕ) (op : BitVec w → List β → S → Outcome S β E) (a : BitVec w)
    (buffer : List β) (s : S) : Outcome S β E :=
  transferLoop k op buffer.length a buffer s

def bytewise (op : BitVec w → List β → S → Outcome S β E) :
    BitVec w → List β → S → Outcome S β E
  | _, [], s => ⟨s, [], none⟩
  | a, b :: bs, s => (op a [b] s).append bs (bytewise op (a + 1#w) bs)

/-- Within a page the operation on a chunk is the operation on its first element and then on the
others. -/
def Splits (k : ℕ) (op : BitVec w → List β → S → Outcome S β E) : Prop :=
  ∀ a b bs s, bs ≠ [] → (pageOffset k a).toNat + (bs.length + 1) ≤ 2 ^ k →
    op a (b :: bs) s = (op a [b] s).append bs (op (a + 1#w) bs)

section Append

variable {op : BitVec w → List β → S → Outcome S β E} {o : Outcome S β E} {a : BitVec w} {s : S}

lemma Outcome.append_of_error {e : E} (h : o.error = some e) (rest : List β)
    (next : S → Outcome S β E) : o.append rest next = { o with buffer := o.buffer ++ rest } := by
  rw [append, h]

lemma Outcome.append_of_none (h : o.error = none) (rest : List β) (next : S → Outcome S β E) :
    o.append rest next =
      { next o.state with buffer := o.buffer ++ (next o.state).buffer } := by
  rw [append, h]

lemma Outcome.append_nil : o.append [] (fun s => ⟨s, [], none⟩) = o := by
  cases h : o.error with
  | none =>
    rw [append_of_none h, List.append_nil, ← h]
  | some e =>
    rw [append_of_error h, List.append_nil]

lemma Outcome.append_assoc (y z : List β) (f g : S → Outcome S β E) :
    (o.append y f).append z g = o.append (y ++ z) fun s => (f s).append z g := by
  obtain ⟨t, b, e⟩ := o
  cases e with
  | some e => simp only [append, List.append_assoc]
  | none =>
    cases h : (f t).error with
    | some e => simp only [append, h, List.append_assoc]
    | none => simp only [append, h, List.append_assoc]

/-- A transfer may be cut anywhere. -/
theorem bytewise_append (x y : List β) :
    bytewise op a (x ++ y) s =
      (bytewise op a x s).append y (bytewise op (a + BitVec.ofNat w x.length) y) := by
  induction x generalizing a s with
  | nil =>
    rw [List.length_nil, BitVec.add_zero]
    rfl
  | cons b bs ih =>
    have haddr : a + 1#w + BitVec.ofNat w bs.length = a + BitVec.ofNat w (b :: bs).length := by
      rw [List.length_cons, BitVec.add_assoc, Nat.add_comm, BitVec.ofNat_add]
    rw [List.cons_append, bytewise, bytewise, Outcome.append_assoc, ← haddr]
    congr 1
    funext s'
    exact ih

/-- A transfer that fails has done the elements up to one that fails by itself. -/
theorem bytewise_error {e : E} {buffer : List β} (h : (bytewise op a buffer s).error = some e) :
    ∃ before b after, buffer = before ++ b :: after ∧ (bytewise op a before s).error = none ∧
      (op (a + BitVec.ofNat w before.length) [b] (bytewise op a before s).state).error = some e ∧
      (bytewise op a buffer s).state =
        (op (a + BitVec.ofNat w before.length) [b] (bytewise op a before s).state).state := by
  induction buffer generalizing a s with
  | nil => cases h
  | cons b bs ih =>
    rw [bytewise] at h ⊢
    cases hfirst : (op a [b] s).error with
    | some e' =>
      rw [Outcome.append_of_error hfirst] at h ⊢
      refine ⟨[], b, bs, rfl, rfl, ?_, ?_⟩
      · rw [List.length_nil, BitVec.add_zero]
        exact h
      · rw [List.length_nil, BitVec.add_zero]
        rfl
    | none =>
      rw [Outcome.append_of_none hfirst] at h ⊢
      obtain ⟨before, c, after, rfl, hnone, herror, hstate⟩ := ih h
      have haddr : a + BitVec.ofNat w (b :: before).length =
          a + 1#w + BitVec.ofNat w before.length := by
        rw [List.length_cons, BitVec.add_assoc, Nat.add_comm, BitVec.ofNat_add]
      refine ⟨b :: before, c, after, rfl, ?_, ?_, ?_⟩ <;>
        rw [bytewise, Outcome.append_of_none hfirst]
      · exact hnone
      · rw [haddr]
        exact herror
      · rw [haddr]
        exact hstate

end Append

section Transfer

variable {k : ℕ} {op : BitVec w → List β → S → Outcome S β E} {a : BitVec w} {s : S}

lemma bytewise_of_splits (hk : k < w) (hop : Splits k op) {buffer : List β} (hne : buffer ≠ [])
    (hpage : (pageOffset k a).toNat + buffer.length ≤ 2 ^ k) :
    op a buffer s = bytewise op a buffer s := by
  induction buffer generalizing a s with
  | nil => exact absurd rfl hne
  | cons b bs ih =>
    rw [bytewise]
    by_cases hbs : bs = []
    · rw [hbs]
      exact Outcome.append_nil.symm
    · have hlen : 0 < bs.length := List.length_pos_of_ne_nil hbs
      rw [List.length_cons] at hpage
      rw [hop a b bs s hbs hpage]
      congr 1
      funext s'
      apply ih hbs
      rw [toNat_pageOffset_succ hk (by omega)]
      omega

lemma transferLoop_eq_bytewise (hk : k < w) (hop : Splits k op) {fuel : ℕ} {buffer : List β}
    (hfuel : buffer.length ≤ fuel) :
    transferLoop k op fuel a buffer s = bytewise op a buffer s := by
  induction fuel generalizing a buffer s with
  | zero =>
    rw [List.length_eq_zero_iff.mp (Nat.le_zero.mp hfuel)]
    rfl
  | succ fuel ih =>
    rw [transferLoop]
    by_cases hempty : buffer = []
    · rw [if_pos hempty, hempty]
      rfl
    · rw [if_neg hempty]
      have hpos : 0 < buffer.length := List.length_pos_of_ne_nil hempty
      have hoffset := pageOffset_lt (a := a) hk
      set n := min buffer.length (2 ^ k - (pageOffset k a).toNat) with hn
      have hnpos : 0 < n := by omega
      have hlen : (buffer.take n).length = n := by
        rw [List.length_take]
        omega
      have hchunk : op a (buffer.take n) s = bytewise op a (buffer.take n) s := by
        apply bytewise_of_splits hk hop
        · exact List.ne_nil_of_length_pos (by omega)
        · omega
      have hrest : transferLoop k op fuel (a + BitVec.ofNat w n) (buffer.drop n) =
          bytewise op (a + BitVec.ofNat w n) (buffer.drop n) := by
        funext s'
        apply ih
        rw [List.length_drop]
        omega
      simp only [hchunk, hrest]
      have happend : bytewise op a (buffer.take n ++ buffer.drop n) s = _ :=
        bytewise_append (buffer.take n) (buffer.drop n)
      rw [List.take_append_drop, hlen] at happend
      exact happend.symm

/-- The page boundaries in a transfer make no difference. -/
theorem transfer_eq_bytewise (hk : k < w) (hop : Splits k op) (buffer : List β) :
    transfer k op a buffer s = bytewise op a buffer s :=
  transferLoop_eq_bytewise hk hop le_rfl

theorem transfer_append (hk : k < w) (hop : Splits k op) (x y : List β) :
    transfer k op a (x ++ y) s =
      (transfer k op a x s).append y (transfer k op (a + BitVec.ofNat w x.length) y) := by
  have hrest : transfer k op (a + BitVec.ofNat w x.length) y =
      bytewise op (a + BitVec.ofNat w x.length) y :=
    funext fun s' => transfer_eq_bytewise hk hop y
  rw [transfer_eq_bytewise hk hop, transfer_eq_bytewise hk hop, bytewise_append, hrest]

lemma transfer_invariant {P : S → Prop} (hop : ∀ a buffer s, P s → P (op a buffer s).state)
    (buffer : List β) (h : P s) : P (transfer k op a buffer s).state := by
  unfold transfer
  generalize buffer.length = fuel
  induction fuel generalizing a buffer s with
  | zero => exact h
  | succ fuel ih =>
    rw [transferLoop]
    split
    · exact h
    · set n := min buffer.length (2 ^ k - (pageOffset k a).toNat)
      have hfirst := hop a (buffer.take n) s h
      cases herror : (op a (buffer.take n) s).error with
      | some e =>
        dsimp only
        rw [Outcome.append_of_error herror]
        exact hfirst
      | none =>
        dsimp only
        rw [Outcome.append_of_none herror]
        exact ih _ hfirst

end Transfer

end OISA.Lib
