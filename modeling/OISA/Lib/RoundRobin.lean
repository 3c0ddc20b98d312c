import Mathlib.Tactic

/-!
# Scans in cyclic order

The positions of a `CyclicOrder` carry numbers, and the next position has the next number.
-/

namespace OISA.Lib

structure CyclicOrder (P : Type) where
  length : ℕ
  carrier : Set P
  next : P → P
  number : P → ℕ
  number_lt : ∀ {p}, p ∈ carrier → number p < length
  number_injOn : Set.InjOn number carrier
  next_mem : ∀ {p}, p ∈ carrier → next p ∈ carrier
  number_next : ∀ {p}, p ∈ carrier → number (next p) = (number p + 1) % length

def scan {P : Type} (next : P → P) (ready : P → Bool) : ℕ → P → P × Option P
  | 0, p => (p, none)
  | n + 1, p => if ready (next p) then (next p, some (next p)) else scan next ready n (next p)

namespace CyclicOrder

variable {P : Type} (c : CyclicOrder P) (ready : P → Bool)

def distance (p q : P) : ℕ := (c.number q + c.length - c.number p - 1) % c.length

variable {c ready}

lemma distance_lt {p q : P} (hq : q ∈ c.carrier) : c.distance p q < c.length :=
  Nat.mod_lt _ ((Nat.zero_le _).trans_lt (c.number_lt hq))

lemma distance_next {p q : P} (hp : p ∈ c.carrier) (hq : q ∈ c.carrier) (h : c.next p ≠ q) :
    c.distance (c.next p) q + 1 = c.distance p q := by
  have hp' := c.number_lt hp
  have hq' := c.number_lt hq
  have hne : c.number (c.next p) ≠ c.number q := fun heq =>
    h (c.number_injOn (c.next_mem hp) hq heq)
  have hnext := c.number_next hp
  unfold distance
  by_cases hlast : c.number p + 1 = c.length
  · rw [hlast, Nat.mod_self] at hnext
    rw [hnext, Nat.mod_eq_of_lt (a := c.number q + c.length - c.number p - 1) (by omega)]
    have hsum : c.number q + c.length - 0 - 1 = (c.number q - 1) + c.length := by omega
    rw [hsum, Nat.add_mod_right, Nat.mod_eq_of_lt (by omega)]
    omega
  · rw [Nat.mod_eq_of_lt (by omega)] at hnext
    rw [hnext]
    by_cases hlt : c.number p < c.number q
    · have hsum : c.number q + c.length - c.number p - 1 =
          (c.number q - c.number p - 1) + c.length := by omega
      have hsum' : c.number q + c.length - (c.number p + 1) - 1 =
          (c.number q - c.number p - 2) + c.length := by omega
      rw [hsum, hsum', Nat.add_mod_right, Nat.add_mod_right, Nat.mod_eq_of_lt (by omega),
        Nat.mod_eq_of_lt (by omega)]
      omega
    · rw [Nat.mod_eq_of_lt (by omega), Nat.mod_eq_of_lt (by omega)]
      omega

lemma scan_sound (n : ℕ) {p : P} (hp : p ∈ c.carrier) :
    (scan c.next ready n p).1 ∈ c.carrier ∧
      ∀ f, (scan c.next ready n p).2 = some f → f ∈ c.carrier ∧ ready f = true := by
  induction n generalizing p with
  | zero => exact ⟨hp, fun f hf => by cases hf⟩
  | succ n ih =>
    have hnext := c.next_mem hp
    rw [scan]
    by_cases hready : ready (c.next p) = true
    · rw [if_pos hready]
      refine ⟨hnext, fun f hf => ?_⟩
      obtain rfl := Option.some.inj hf
      exact ⟨hnext, hready⟩
    · rw [if_neg hready]
      exact ih hnext

lemma scan_finds {p q : P} (hp : p ∈ c.carrier) (hq : q ∈ c.carrier) (hready : ready q = true)
    (n : ℕ) (hn : c.distance p q < n) :
    ∃ f, scan c.next ready n p = (f, some f) ∧
      (f = q ∨ c.distance f q < c.distance p q) := by
  induction n generalizing p with
  | zero => exact absurd hn (Nat.not_lt_zero _)
  | succ n ih =>
    rw [scan]
    by_cases heq : c.next p = q
    · rw [heq, if_pos hready]
      exact ⟨q, rfl, .inl rfl⟩
    · have hnear := distance_next hp hq heq
      by_cases hstop : ready (c.next p) = true
      · rw [if_pos hstop]
        exact ⟨c.next p, rfl, .inr (by omega)⟩
      · rw [if_neg hstop]
        obtain ⟨f, hf, hor⟩ := ih (c.next_mem hp) (by omega)
        exact ⟨f, hf, hor.imp_right fun hlt => by omega⟩

/-- A round finds nothing exactly when nothing is ready. -/
theorem scan_eq_none_iff {p : P} (hp : p ∈ c.carrier) :
    (scan c.next ready c.length p).2 = none ↔ ∀ q ∈ c.carrier, ready q = false := by
  constructor
  · intro hnone q hq
    by_contra hready
    obtain ⟨f, hf, -⟩ := scan_finds hp hq (Bool.eq_true_of_not_eq_false hready) c.length
      (distance_lt hq)
    rw [hf] at hnone
    exact Option.some_ne_none f hnone
  · intro hall
    cases hfound : (scan c.next ready c.length p).2 with
    | none => rfl
    | some f =>
      obtain ⟨hf, hready⟩ := (scan_sound c.length hp).2 f hfound
      rw [hall f hf] at hready
      cases hready

section Scans

variable (readies : ℕ → P → Bool) (cursor : ℕ → P)
  (h₀ : cursor 0 ∈ c.carrier)
  (hstep : ∀ n, cursor (n + 1) = (scan c.next (readies n) c.length (cursor n)).1)

include h₀ hstep

lemma cursor_mem (n : ℕ) : cursor n ∈ c.carrier := by
  induction n with
  | zero => exact h₀
  | succ n ih =>
    rw [hstep]
    exact (scan_sound c.length ih).1

/-- **Fairness**: what stays ready for a round of scans is found by one of them. -/
theorem scans_fair {q : P} (hq : q ∈ c.carrier) (n : ℕ)
    (hready : ∀ k < c.length, readies (n + k) q = true) :
    ∃ k < c.length, (scan c.next (readies (n + k)) c.length (cursor (n + k))).2 = some q := by
  -- the distance to `q` bounds the scans that are still to come
  have hkey : ∀ d n, c.distance (cursor n) q ≤ d → (∀ k ≤ d, readies (n + k) q = true) →
      ∃ k ≤ d, (scan c.next (readies (n + k)) c.length (cursor (n + k))).2 = some q := by
    intro d
    induction d with
    | zero =>
      intro n hd hready
      obtain ⟨f, hf, heq | hlt⟩ := scan_finds (cursor_mem readies cursor h₀ hstep n) hq (hready 0 le_rfl)
        c.length (distance_lt hq)
      · exact ⟨0, le_rfl, by rw [Nat.add_zero] at *; rw [hf, heq]⟩
      · omega
    | succ d ih =>
      intro n hd hready
      obtain ⟨f, hf, heq | hlt⟩ := scan_finds (cursor_mem readies cursor h₀ hstep n) hq
        (hready 0 (Nat.zero_le _)) c.length (distance_lt hq)
      · exact ⟨0, Nat.zero_le _, by rw [Nat.add_zero] at *; rw [hf, heq]⟩
      · have hcursor : cursor (n + 1) = f := by
          rw [hstep]
          rw [Nat.add_zero] at hf
          rw [hf]
        obtain ⟨k, hk, hfound⟩ := ih (n + 1) (by rw [hcursor]; omega) fun k hk => by
          rw [Nat.add_right_comm, Nat.add_assoc]
          exact hready (k + 1) (by omega)
        refine ⟨k + 1, by omega, ?_⟩
        rwa [Nat.add_right_comm, Nat.add_assoc] at hfound
  have hpos : 0 < c.length := (Nat.zero_le _).trans_lt (c.number_lt hq)
  obtain ⟨k, hk, hfound⟩ := hkey (c.length - 1) n (Nat.le_sub_one_of_lt (distance_lt hq))
    fun k hk => hready k (by omega)
  exact ⟨k, by omega, hfound⟩

end Scans

end CyclicOrder

/-! ### Strides -/

lemma stride_injOn {n stride : ℕ} (hcoprime : stride.Coprime n) (start : ℕ) {k k' : ℕ}
    (hk : k < n) (hk' : k' < n) (h : (start + stride * k) % n = (start + stride * k') % n) :
    k = k' := by
  have hmul : stride * k ≡ stride * k' [MOD n] := Nat.ModEq.add_left_cancel' start h
  have hmod : k ≡ k' [MOD n] := Nat.ModEq.cancel_left_of_coprime hcoprime.symm hmul
  exact hmod.eq_of_lt_of_lt hk hk'

theorem strides_iff {n : ℕ} (hn : 0 < n) (stride start : ℕ) :
    (∀ p < n, ∃! k, k < n ∧ (start + stride * k) % n = p) ↔ stride.Coprime n := by
  constructor
  · intro hall
    obtain ⟨k, ⟨-, hk⟩, -⟩ := hall ((start + 1) % n) (Nat.mod_lt _ hn)
    have hone : stride * k ≡ 1 [MOD n] := Nat.ModEq.add_left_cancel' start hk
    have hdvd : stride.gcd n ∣ 1 :=
      (hone.of_dvd (Nat.gcd_dvd_right stride n)).dvd_iff dvd_rfl |>.mp
        ((Nat.gcd_dvd_left stride n).mul_right k)
    exact Nat.dvd_one.mp hdvd
  · intro hcoprime p hp
    let position : Fin n → Fin n := fun k => ⟨(start + stride * k) % n, Nat.mod_lt _ hn⟩
    have hinj : Function.Injective position := fun k k' h =>
      Fin.ext (stride_injOn hcoprime start k.isLt k'.isLt (congrArg Fin.val h))
    obtain ⟨k, hk⟩ := Finite.surjective_of_injective hinj ⟨p, hp⟩
    refine ⟨k, ⟨k.isLt, congrArg Fin.val hk⟩, ?_⟩
    rintro k' ⟨hk', hp'⟩
    exact stride_injOn hcoprime start hk' k.isLt (hp'.trans (congrArg Fin.val hk).symm)

end OISA.Lib
