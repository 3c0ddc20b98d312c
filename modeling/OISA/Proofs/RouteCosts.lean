import OISA.Lib.Digraphs
import OISA.Proofs.ManualRoutes

/-!
# The costs of routes set by hand

The costs are updated in the order of the table, and a route adds up the costs of its hops, of
which some have been updated before.
-/

namespace OISA.Proofs.RouteCosts

open OISA.Lib OISA.Net.ManualRoutes OISA.Proofs.ManualRoutes

variable {n : ℕ} {net : Network n} {t t' t₀ : Table n} {s d : Fin n}

/-- The steps of a table that lead to a destination -/
def steps (t : Table n) (d s : Fin n) : Option (Fin n) := (t.entries s d).next_node

/-- A table that is initialized and then updated by hand without an error -/
inductive Configured (net : Network n) : Table n → Prop
  | initial : Configured net (Table.Initialize net)
  | update {t t' source destination next virtual_channel} (h : Configured net t)
      (hu : UpdateRoute net t source destination next virtual_channel = (none, t')) :
      Configured net t'

def Before (p q : Fin n × Fin n) : Prop := p.1 < q.1 ∨ p.1 = q.1 ∧ p.2 < q.2

instance (p q : Fin n × Fin n) : Decidable (Before p q) := inferInstanceAs (Decidable (_ ∨ _))

/-- The route from `a` to a node counts as one hop: it goes there at once, or it breaks off behind
its first node, to which the route counts as one hop if it is updated before. -/
inductive OneHop (t : Table n) (a : Fin n) : Fin n → Prop
  | direct {b} (h : steps t b a = some b) : OneHop t a b
  | cut {b x} (h : steps t b a = some x) (hx : x ≠ b) (hn : steps t b x = none)
      (hr : x < b → OneHop t a x) : OneHop t a b

/-- The update ends, and the cost of every route that leads to its destination is the number of
its hops. -/
def CostsRight (t : Table n) : Prop :=
  ∃ fuel t', UpdateManualRoutingCost fuel t = some t' ∧
    ∀ s d hops, Trail (steps t d) d s hops true → (t'.entries s d).cost = hops.length

/-- Every trail ends, and each hop of a route whose own entry is updated before that of the route
counts as one hop. -/
def Covered (t : Table n) : Prop :=
  (∀ s d, ∃ hops arrives, Trail (steps t d) d s hops arrives) ∧
    ∀ s d hops, Trail (steps t d) d s hops true →
      ∀ hop ∈ hops, Before hop (s, d) → OneHop t hop.1 hop.2

structure Manual (t : Table n) : Prop where
  self : ∀ d, steps t d d = none ∧ (t.entries d d).cost = 0
  hop : ∀ s d x, steps t d s = some x → s ≠ x →
    (t.entries s x).cost = 1 ∧ steps t x s ≠ none

/-- Every step is a hop over a connection, and the given hops have cost 1. -/
structure Connected (net : Network n) (given : List (Fin n × ℕ × Fin n)) (t : Table n) : Prop where
  self : ∀ d, steps t d d = none ∧ (t.entries d d).cost = 0
  hops : ∀ s B x, (s, B, x) ∈ given → s ≠ x → (t.entries s x).cost = 1 ∧ steps t x s ≠ none
  steps : ∀ s d x, steps t d s = some x → ∃ B, (s, B, x) ∈ Table.hops net

lemma Connected.manual (h : Connected net (Table.hops net) t) : Manual t where
  self := h.self
  hop s d x hx hne := by
    obtain ⟨B, hB⟩ := h.steps s d x hx
    exact h.hops s B x hB hne

lemma Connected.put {given : List (Fin n × ℕ × Fin n)} (h : Connected net given t) (hsd : s ≠ d)
    (cost : ℕ) (buffer : Option ℕ) {B : ℕ} {x : Fin n} (hx : (s, B, x) ∈ Table.hops net)
    (hcost : cost = 1 ∨ cost = (t.entries s d).cost) :
    Connected net given (t.put hsd cost x buffer) where
  self d' := by
    have hne : ¬(d' = s ∧ d' = d) := fun h => hsd (h.1.symm.trans h.2)
    unfold RouteCosts.steps
    rw [entries_put, if_neg hne]
    exact h.self d'
  hops s' B' x' hmem hne := by
    have hold := h.hops s' B' x' hmem hne
    unfold RouteCosts.steps at hold ⊢
    rw [entries_put]
    split_ifs with heq
    · refine ⟨?_, Option.some_ne_none x⟩
      rw [heq.1, heq.2] at hold
      rcases hcost with hcost | hcost
      · exact hcost
      · exact hcost.trans hold.1
    · exact hold
  steps s' d' x' hx' := by
    unfold RouteCosts.steps at hx'
    rw [entries_put] at hx'
    split_ifs at hx' with heq
    · cases hx'
      exact ⟨B, heq.1 ▸ hx⟩
    · exact h.steps s' d' x' hx'

lemma connected_hops {given l : List (Fin n × ℕ × Fin n)} (h : Connected net given t)
    (hl : l ⊆ Table.hops net) : Connected net (given ++ l) (l.foldl Table.setHop t) := by
  induction l generalizing given t with
  | nil => rwa [List.append_nil]
  | cons hop l ih =>
    obtain ⟨node, source_buffer, dst_node⟩ := hop
    obtain ⟨hhop, hl⟩ := List.cons_subset.mp hl
    rw [List.append_cons, List.foldl_cons]
    refine ih ?_ hl
    unfold Table.setHop
    dsimp only
    by_cases hne : node = dst_node
    · rw [dif_neg (not_not.mpr hne)]
      refine { h with hops := fun s B x hmem hsx => ?_ }
      rcases List.mem_append.mp hmem with hmem | hmem
      · exact h.hops s B x hmem hsx
      · cases List.mem_singleton.mp hmem
        exact absurd hne hsx
    · rw [dif_pos hne]
      have hput := h.put hne 1 (some source_buffer) hhop (.inl rfl)
      refine { hput with hops := fun s B x hmem hsx => ?_ }
      rcases List.mem_append.mp hmem with hmem | hmem
      · exact hput.hops s B x hmem hsx
      · cases List.mem_singleton.mp hmem
        unfold RouteCosts.steps
        rw [entries_put, if_pos ⟨rfl, rfl⟩]
        exact ⟨rfl, Option.some_ne_none _⟩

lemma mem_hops_of_reaches {B : ℕ} {next : Fin n} {virtual_channel : ℕ}
    (hB : B ∈ net.output_buffers s) (h : Reaches net next virtual_channel B) :
    (s, B, next) ∈ Table.hops net := by
  unfold Table.hops
  refine List.mem_flatMap.mpr ⟨s, List.mem_finRange s, List.mem_flatMap.mpr ⟨B, hB, ?_⟩⟩
  refine List.mem_map.mpr ⟨next, ?_, rfl⟩
  unfold Reaches at h
  unfold Network.destinations
  cases hc : net.connection B with
  | link destination_node num_virtual_channels source_buffers =>
    rw [hc] at h
    exact List.mem_replicate.mpr ⟨by omega, h.1.symm⟩
  | bus destination_buffers =>
    rw [hc] at h
    obtain ⟨-, D, hD, hnode⟩ := h
    exact List.mem_map.mpr ⟨D, hD, hnode⟩

lemma connected_initial (net : Network n) :
    Connected net (Table.hops net) (Table.Initialize net) := by
  have hinfinite : Connected net [] (Table.infinite n) := {
    self := fun d => ⟨rfl, if_pos rfl⟩
    hops := fun _ _ _ h => absurd h List.not_mem_nil
    steps := fun _ _ _ h => absurd h.symm (Option.some_ne_none _) }
  exact connected_hops hinfinite (List.Subset.refl _)

lemma connected_update {given : List (Fin n × ℕ × Fin n)} {next : Fin n} {virtual_channel : ℕ}
    (h : Connected net given t) (hu : UpdateRoute net t s d next virtual_channel = (none, t')) :
    Connected net given t' := by
  unfold UpdateRoute at hu
  by_cases hsd : s = d
  · rw [dif_neg (not_not.mpr hsd)] at hu
    cases hu
  rw [dif_pos hsd] at hu
  rcases @findBuffer_spec n net s next virtual_channel _ (fun B hB => hB) with
    ⟨B, hdecides, buffer, hfound, -⟩ | ⟨-, e, herror⟩
  · rw [hfound] at hu
    cases hu
    exact h.put hsd _ _ (mem_hops_of_reaches hdecides.mem.1 hdecides.mem.2) (.inr rfl)
  · rw [herror] at hu
    cases hu

lemma Configured.connected (h : Configured net t) : Connected net (Table.hops net) t := by
  induction h with
  | initial => exact connected_initial net
  | update _ hu ih => exact connected_update ih hu

/-- The cost that a table has for a hop -/
def cost (t : Table n) (hop : Fin n × Fin n) : ℕ := (t.entries hop.1 hop.2).cost

lemma cost_setCost (t : Table n) (s d : Fin n) (c : ℕ) (p : Fin n × Fin n) :
    cost (t.setCost s d c) p = if p = (s, d) then c else cost t p := by
  unfold cost Table.setCost
  dsimp only
  by_cases h : p = (s, d)
  · rw [if_pos h, if_pos (Prod.ext_iff.mp h)]
  · rw [if_neg h, if_neg fun h' => h (Prod.ext_iff.mpr h')]

lemma steps_setCost (t : Table n) (s d : Fin n) (c : ℕ) : steps (t.setCost s d c) = steps t := by
  funext d' s'
  unfold steps Table.setCost
  dsimp only
  split_ifs <;> rfl

lemma followPath_sound {fuel : ℕ} {x : Fin n} {c c' : ℕ}
    (h : followPath t s d fuel x c = some c') :
    ∃ hops arrives, Trail (steps t d) d x hops arrives ∧
      ((∀ hop ∈ hops, hop ≠ (s, d)) → c' = c + (hops.map (cost t)).sum) := by
  induction fuel generalizing x c with
  | zero => cases h
  | succ fuel ih =>
    unfold followPath at h
    by_cases hx : x = d
    · rw [if_pos hx] at h
      cases h
      exact ⟨[], true, hx ▸ .arrived, fun _ => rfl⟩
    · rw [if_neg hx] at h
      cases hn : (t.entries x d).next_node with
      | none =>
        rw [hn] at h
        cases h
        exact ⟨[], false, .missing hx hn, fun _ => rfl⟩
      | some y =>
        rw [hn] at h
        obtain ⟨hops, arrives, hw, hsum⟩ := ih h
        refine ⟨(x, y) :: hops, arrives, .hop hx hn hw, fun hne => ?_⟩
        have hhere : ¬(x = s ∧ y = d) := fun h => hne _ List.mem_cons_self (Prod.ext h.1 h.2)
        rw [hsum fun hop hmem => hne hop (List.mem_cons_of_mem _ hmem), if_neg hhere,
          List.map_cons, List.sum_cons, Nat.add_assoc]
        rfl

lemma followPath_complete {fuel : ℕ} {x : Fin n} {hops : List (Fin n × Fin n)} {arrives : Bool}
    (h : Trail (steps t d) d x hops arrives) (hfuel : hops.length < fuel) (c : ℕ) :
    ∃ c', followPath t s d fuel x c = some c' := by
  induction h generalizing fuel c with
  | arrived =>
    obtain ⟨fuel, rfl⟩ := Nat.exists_eq_add_of_lt hfuel
    exact ⟨c, if_pos rfl⟩
  | missing hx hn =>
    obtain ⟨fuel, rfl⟩ := Nat.exists_eq_add_of_lt hfuel
    unfold steps at hn
    refine ⟨c, ?_⟩
    unfold followPath
    rw [if_neg hx, hn]
  | hop hx hn _ ih =>
    obtain ⟨fuel, rfl⟩ := Nat.exists_eq_add_of_lt hfuel
    unfold steps at hn
    unfold followPath
    rw [if_neg hx, hn]
    exact ih (by rw [List.length_cons]; omega) _

lemma Before.irrefl (p : Fin n × Fin n) : ¬Before p p := by
  rintro (h | ⟨-, h⟩) <;> exact lt_irrefl _ h

lemma Before.trans {p q r : Fin n × Fin n} (h : Before p q) (h' : Before q r) : Before p r := by
  unfold Before at *
  omega

def pairs (n : ℕ) : List (Fin n × Fin n) :=
  (List.finRange n).flatMap fun source => (List.finRange n).map fun destination =>
    (source, destination)

lemma mem_pairs (p : Fin n × Fin n) : p ∈ pairs n :=
  List.mem_flatMap.mpr ⟨p.1, List.mem_finRange p.1,
    List.mem_map.mpr ⟨p.2, List.mem_finRange p.2, rfl⟩⟩

lemma pairs_sorted (n : ℕ) : (pairs n).Pairwise Before := by
  unfold pairs
  rw [List.pairwise_flatMap]
  refine ⟨fun s _ => ?_, ?_⟩
  · exact List.pairwise_map.mpr ((List.pairwise_lt_finRange n).imp fun h => .inr ⟨rfl, h⟩)
  · refine (List.pairwise_lt_finRange n).imp fun h p hp q hq => .inl ?_
    obtain ⟨d, -, rfl⟩ := List.mem_map.mp hp
    obtain ⟨d', -, rfl⟩ := List.mem_map.mp hq
    exact h

lemma mem_iff_before {done rest : List (Fin n × Fin n)} {p q : Fin n × Fin n}
    (h : pairs n = done ++ q :: rest) : p ∈ done ↔ Before p q := by
  have hsorted := pairs_sorted n
  rw [h, List.pairwise_append, List.pairwise_cons] at hsorted
  constructor
  · exact fun hp => hsorted.2.2 p hp q List.mem_cons_self
  · intro hp
    have hmem := mem_pairs p
    rw [h] at hmem
    rcases List.mem_append.mp hmem with hmem | hmem
    · exact hmem
    · rcases List.mem_cons.mp hmem with rfl | hmem
      · exact absurd hp (Before.irrefl p)
      · exact absurd (hp.trans (hsorted.2.1.1 p hmem)) (Before.irrefl p)

def costAt (t₀ t : Table n) (p hop : Fin n × Fin n) : ℕ :=
  if Before hop p then cost t hop else cost t₀ hop

structure Updated (t₀ t : Table n) (done : List (Fin n × Fin n)) : Prop where
  steps : steps t = steps t₀
  others : ∀ p ∉ done, cost t p = cost t₀ p
  unrouted : ∀ s d, RouteCosts.steps t₀ d s = none → cost t (s, d) = cost t₀ (s, d)
  sums : ∀ s d, (s, d) ∈ done → RouteCosts.steps t₀ d s ≠ none →
    ∃ hops arrives, Trail (RouteCosts.steps t₀ d) d s hops arrives ∧
      cost t (s, d) = (hops.map (costAt t₀ t (s, d))).sum

lemma updated_start (t : Table n) : Updated t t [] where
  steps := rfl
  others _ _ := rfl
  unrouted _ _ _ := rfl
  sums _ _ h := absurd h List.not_mem_nil

/-- One turn of the loops. What was updated before stays, as it does not use the entry. -/
lemma Updated.step {done rest : List (Fin n × Fin n)} {fuel : ℕ} (h : Updated t₀ t done)
    (hself : ∀ d, RouteCosts.steps t₀ d d = none) (hpairs : pairs n = done ++ (s, d) :: rest)
    (hu : updateCost fuel (s, d) t = some t') : Updated t₀ t' (done ++ [(s, d)]) := by
  unfold updateCost at hu
  dsimp only at hu
  have hnext : (t.entries s d).next_node = RouteCosts.steps t₀ d s := by rw [← h.steps]; rfl
  rw [hnext] at hu
  cases hx : RouteCosts.steps t₀ d s with
  | none =>
    rw [hx] at hu
    cases hu
    refine { h with others := fun p hp => ?_, sums := fun s' d' hmem hne => ?_ }
    · exact h.others p fun hp' => hp (List.mem_append_left _ hp')
    · rcases List.mem_append.mp hmem with hmem | hmem
      · exact h.sums s' d' hmem hne
      · cases List.mem_singleton.mp hmem
        exact absurd hx hne
  | some x =>
    rw [hx] at hu
    obtain ⟨c, hc, rfl⟩ := Option.map_eq_some_iff.mp hu
    obtain ⟨hops, arrives, hw, hsum⟩ := followPath_sound hc
    rw [h.steps] at hw
    have hsd : s ≠ d := by
      rintro rfl
      rw [hself] at hx
      cases hx
    have hall := Trail.hop hsd hx hw
    have hold {p : Fin n × Fin n} (hp : Before p (s, d)) :
        cost (t.setCost s d c) p = cost t p := by
      rw [cost_setCost, if_neg]
      rintro rfl
      exact Before.irrefl _ hp
    refine {
      steps := (steps_setCost t s d c).trans h.steps
      others := fun p hp => ?_
      unrouted := fun s' d' hnone => ?_
      sums := fun s' d' hmem hne => ?_ }
    · rw [List.mem_append, List.mem_singleton, not_or] at hp
      rw [cost_setCost, if_neg hp.2]
      exact h.others p hp.1
    · rw [cost_setCost, if_neg]
      · exact h.unrouted s' d' hnone
      · intro heq
        cases heq
        rw [hx] at hnone
        cases hnone
    · rcases List.mem_append.mp hmem with hmem | hmem
      · obtain ⟨hops', arrives', hw', hsum'⟩ := h.sums s' d' hmem hne
        have hb := (mem_iff_before hpairs).mp hmem
        refine ⟨hops', arrives', hw', ?_⟩
        rw [hold hb, hsum']
        refine congrArg List.sum (List.map_congr_left fun hop _ => ?_)
        unfold costAt
        split_ifs with hhop
        · exact (hold (hhop.trans hb)).symm
        · rfl
      · cases List.mem_singleton.mp hmem
        refine ⟨(s, x) :: hops, arrives, hall, ?_⟩
        have hne : ∀ hop ∈ hops, hop ≠ (s, d) := by
          rintro hop hmem rfl
          exact hw.fst_ne hsd hx hmem rfl
        have hat : costAt t₀ (t.setCost s d c) (s, d) = cost t := by
          funext hop
          unfold costAt
          split_ifs with hhop
          · exact hold hhop
          · exact (h.others hop fun hdone => hhop ((mem_iff_before hpairs).mp hdone)).symm
        rw [cost_setCost, if_pos rfl, hat, hsum hne]
        rfl

lemma Updated.run {done rest : List (Fin n × Fin n)} {fuel : ℕ} (h : Updated t₀ t done)
    (hself : ∀ d, RouteCosts.steps t₀ d d = none) (hpairs : pairs n = done ++ rest)
    (hrun : run (updateCost fuel) rest t = some t') : Updated t₀ t' (pairs n) := by
  induction rest generalizing t done with
  | nil =>
    cases hrun
    rwa [hpairs, List.append_nil]
  | cons p rest ih =>
    rw [run_cons, Option.bind_eq_some_iff] at hrun
    obtain ⟨t₁, hstep, hrun⟩ := hrun
    have hsplit := hpairs
    rw [List.append_cons] at hsplit
    exact ih (h.step hself hpairs hstep) hsplit hrun

lemma run_complete (fuel : ℕ)
    (hends : ∀ s d, ∃ hops arrives, Trail (RouteCosts.steps t₀ d) d s hops arrives ∧
      hops.length < fuel)
    (ps : List (Fin n × Fin n)) (t : Table n) (hsteps : steps t = steps t₀) :
    ∃ t', run (updateCost fuel) ps t = some t' := by
  induction ps generalizing t with
  | nil => exact ⟨t, rfl⟩
  | cons p ps ih =>
    have hstep : ∃ t₁, updateCost fuel p t = some t₁ ∧ steps t₁ = steps t₀ := by
      obtain ⟨s, d⟩ := p
      unfold updateCost
      dsimp only
      cases (t.entries s d).next_node with
      | none => exact ⟨t, rfl, hsteps⟩
      | some x =>
        obtain ⟨hops, arrives, hw, hfuel⟩ := hends x d
        rw [← hsteps] at hw
        obtain ⟨c, hc⟩ := followPath_complete (s := s) hw hfuel (t.entries s x).cost
        dsimp only
        rw [hc]
        exact ⟨_, rfl, (steps_setCost t s d c).trans hsteps⟩
    obtain ⟨t₁, h₁, hsteps₁⟩ := hstep
    rw [run_cons, h₁]
    exact ih t₁ hsteps₁

lemma update_isSome_iff (hself : ∀ d, steps t d d = none) :
    (∃ fuel t', UpdateManualRoutingCost fuel t = some t') ↔
      ∀ s d, ∃ hops arrives, Trail (steps t d) d s hops arrives := by
  constructor
  · rintro ⟨fuel, t', hrun⟩ s d
    have hupdated := (updated_start t).run hself rfl hrun
    by_cases hsd : s = d
    · exact ⟨[], true, hsd ▸ .arrived⟩
    cases hx : steps t d s with
    | none => exact ⟨[], false, .missing hsd hx⟩
    | some x =>
      obtain ⟨hops, arrives, hw, -⟩ := hupdated.sums s d (mem_pairs (s, d))
        (by rw [hx]; exact Option.some_ne_none x)
      exact ⟨hops, arrives, hw⟩
  · intro hends
    choose hops arrives hw using hends
    obtain ⟨longest, hlongest⟩ := Finite.exists_le fun p : Fin n × Fin n => (hops p.1 p.2).length
    obtain ⟨t', hrun⟩ := run_complete (longest + 1)
      (fun s d => ⟨_, _, hw s d, Nat.lt_succ_of_le (hlongest (s, d))⟩) (pairs n) t rfl
    exact ⟨longest + 1, t', hrun⟩

lemma sum_eq_length_iff {α : Type*} {f : α → ℕ} {l : List α} (h : ∀ a ∈ l, 1 ≤ f a) :
    (l.map f).sum = l.length ↔ ∀ a ∈ l, f a = 1 := by
  have hle (l : List α) (h : ∀ a ∈ l, 1 ≤ f a) : l.length ≤ (l.map f).sum := by
    rw [← List.length_map f]
    refine List.length_le_sum_of_one_le _ fun i hi => ?_
    obtain ⟨a, ha, rfl⟩ := List.mem_map.mp hi
    exact h a ha
  induction l with
  | nil => simp
  | cons a l ih =>
    obtain ⟨ha, hl⟩ := List.forall_mem_cons.mp h
    have hrest := hle l hl
    rw [List.forall_mem_cons, List.map_cons, List.sum_cons, List.length_cons]
    constructor
    · exact fun hsum => ⟨by omega, (ih hl).mp (by omega)⟩
    · rintro ⟨hone, hall⟩
      rw [hone, (ih hl).mpr hall, Nat.add_comm]

section Final

variable (hm : Manual t) (h : Updated t t' (pairs n))
include hm h

lemma one_le_cost (hs : steps t d s ≠ none) : 1 ≤ cost t' (s, d) := by
  induction d using WellFoundedLT.induction with
  | ind d ih =>
    obtain ⟨hops, arrives, hw, hsum⟩ := h.sums s d (mem_pairs (s, d)) hs
    cases hw with
    | arrived => exact absurd (hm.self _).1 hs
    | missing _ hn => exact absurd hn hs
    | @hop _ x rest _ hsd hx hrest =>
      have htrail := Trail.hop hsd hx hrest
      obtain ⟨hone, hroute⟩ := hm.hop s d x hx (htrail.fst_ne_snd List.mem_cons_self)
      have hfirst : 1 ≤ costAt t t' (s, d) (s, x) := by
        unfold costAt
        split_ifs with hb
        · obtain hb | ⟨-, hb⟩ := hb
          · exact absurd hb (lt_irrefl s)
          · exact ih x hb hroute
        · exact hone.ge
      rw [hsum, List.map_cons, List.sum_cons]
      omega

lemma costAt_hop {hops : List (Fin n × Fin n)} {arrives : Bool} (p : Fin n × Fin n)
    (hw : Trail (steps t d) d s hops arrives) {hop : Fin n × Fin n} (hmem : hop ∈ hops) :
    1 ≤ costAt t t' p hop ∧ (costAt t t' p hop = 1 ↔ (Before hop p → cost t' hop = 1)) := by
  obtain ⟨-, hstep, -⟩ := hw.of_mem hmem
  obtain ⟨hone, hroute⟩ := hm.hop hop.1 d hop.2 hstep (hw.fst_ne_snd hmem)
  unfold costAt
  split_ifs with hb
  · exact ⟨one_le_cost hm h hroute, by tauto⟩
  · exact ⟨hone.ge, iff_of_true hone fun h => absurd h hb⟩

lemma oneHop_iff (hs : steps t d s ≠ none) : cost t' (s, d) = 1 ↔ OneHop t s d := by
  induction d using WellFoundedLT.induction with
  | ind d ih =>
    obtain ⟨hops, arrives, hw, hsum⟩ := h.sums s d (mem_pairs (s, d)) hs
    have hat {hop : Fin n × Fin n} (hmem : hop ∈ hops) : 1 ≤ costAt t t' (s, d) hop ∧
        (costAt t t' (s, d) hop = 1 ↔ (Before hop (s, d) → cost t' hop = 1)) :=
      costAt_hop hm h (s, d) hw hmem
    cases hw with
    | arrived => exact absurd (hm.self _).1 hs
    | missing _ hn => exact absurd hn hs
    | @hop _ x rest _ hsd hx hrest =>
      have hsx := (Trail.hop hsd hx hrest).fst_ne_snd List.mem_cons_self
      rw [hsum, List.map_cons, List.sum_cons]
      cases hrest with
      | arrived =>
        have hone := (hat List.mem_cons_self).2.mpr fun hb => absurd hb (Before.irrefl _)
        exact iff_of_true (by rw [hone]; rfl) (.direct hx)
      | missing hxd hn =>
        rw [List.map_nil, List.sum_nil, Nat.add_zero, (hat List.mem_cons_self).2]
        have hlt : Before (s, x) (s, d) ↔ x < d := by
          unfold Before
          simp
        rw [hlt]
        constructor
        · exact fun hr => .cut hx hxd hn fun hb => (ih x hb (hm.hop s d x hx hsx).2).mp (hr hb)
        · rintro (hd | ⟨hx', -, -, hr⟩) hb
          · rw [hx] at hd
            exact absurd (Option.some.inj hd) hxd
          · rw [hx] at hx'
            cases hx'
            exact (ih x hb (hm.hop s d x hx hsx).2).mpr (hr hb)
      | @hop _ y rest _ hxd hy hrest =>
        -- two hops cost at least 2
        have h₁ := (hat List.mem_cons_self).1
        have h₂ := (hat (List.mem_cons_of_mem _ List.mem_cons_self)).1
        rw [List.map_cons, List.sum_cons]
        refine iff_of_false (by omega) ?_
        rintro (hd | ⟨hx', -, hn, -⟩)
        · rw [hx] at hd
          exact hxd (Option.some.inj hd)
        · rw [hx] at hx'
          cases hx'
          rw [hy] at hn
          cases hn

lemma cost_eq_length_iff {hops : List (Fin n × Fin n)}
    (hw : Trail (steps t d) d s hops true) :
    cost t' (s, d) = hops.length ↔ ∀ hop ∈ hops, Before hop (s, d) → OneHop t hop.1 hop.2 := by
  by_cases hs : steps t d s = none
  · -- the trail is at its target at once
    cases hw with
    | arrived =>
      have hzero : cost t' (s, s) = 0 := (h.unrouted s s hs).trans (hm.self s).2
      exact iff_of_true hzero fun hop hmem => absurd hmem List.not_mem_nil
    | hop _ hx =>
      rw [hs] at hx
      cases hx
  · obtain ⟨hops', arrives, hw', hsum⟩ := h.sums s d (mem_pairs (s, d)) hs
    obtain ⟨rfl, rfl⟩ := hw.unique hw'
    rw [hsum, sum_eq_length_iff fun hop hmem => (costAt_hop hm h (s, d) hw hmem).1]
    refine forall₂_congr fun hop hmem => ?_
    obtain ⟨-, hstep, -⟩ := hw.of_mem hmem
    have hroute := (hm.hop hop.1 d hop.2 hstep (hw.fst_ne_snd hmem)).2
    rw [(costAt_hop hm h (s, d) hw hmem).2, ← oneHop_iff hm h hroute]

end Final

lemma costsRight_iff (hm : Manual t) : CostsRight t ↔ Covered t := by
  have hself d := (hm.self d).1
  constructor
  · rintro ⟨fuel, t', hrun, hcosts⟩
    have hupdated := (updated_start t).run hself rfl hrun
    refine ⟨(update_isSome_iff hself).mp ⟨fuel, t', hrun⟩, fun s d hops hw => ?_⟩
    exact (cost_eq_length_iff hm hupdated hw).mp (hcosts s d hops hw)
  · rintro ⟨hends, hhops⟩
    obtain ⟨fuel, t', hrun⟩ := (update_isSome_iff hself).mpr hends
    have hupdated := (updated_start t).run hself rfl hrun
    refine ⟨fuel, t', hrun, fun s d hops hw => ?_⟩
    exact (cost_eq_length_iff hm hupdated hw).mpr (hhops s d hops hw)

/-- The costs of the routes that are set by hand in a network are right exactly if every trail ends
and every hop that was updated before its route counts as one hop. -/
theorem costsRight_configured_iff (h : Configured net t) : CostsRight t ↔ Covered t :=
  costsRight_iff h.connected.manual

section Loop

def left : Fin 3 := (Fin.last 0).castSucc.castSucc

def middle : Fin 3 := (Fin.last 1).castSucc

def right : Fin 3 := Fin.last 2

def loopOutputs : Fin 3 → List ℕ := ![[10], [11, 12], [13]]

def loopConnection (B : ℕ) : Connection 3 :=
  if B = 10 then .link middle 1 [10]
  else if B = 11 then .link left 1 [11]
  else if B = 12 then .link right 1 [12]
  else .link middle 1 [13]

def loopNode (B : ℕ) : Fin 3 := if B = 10 then left else if B < 13 then middle else right

lemma loopNode_output : ∀ v, ∀ B ∈ loopOutputs v, loopNode B = v := by decide

lemma loopConnection_at :
    ∀ v, ∀ B ∈ loopOutputs v, (loopConnection B).At (loopOutputs v) := by decide

def loopNetwork : Network 3 where
  output_buffers := loopOutputs
  connection := loopConnection
  node := loopNode
  node_output := loopNode_output
  connection_at := loopConnection_at

/-- The middle node goes to the left one over the right one, and that over the middle one. -/
def loopTable : Table 3 :=
  (UpdateRoute loopNetwork
    (UpdateRoute loopNetwork (Table.Initialize loopNetwork) middle left right 0).2
    right left middle 0).2

lemma configured_loopTable : Configured loopNetwork loopTable := by
  have hfirst : Configured loopNetwork
      (UpdateRoute loopNetwork (Table.Initialize loopNetwork) middle left right 0).2 :=
    .update .initial (Prod.ext (by decide) rfl)
  exact hfirst.update (Prod.ext (by decide) rfl)

theorem costsRight_loopTable_iff : CostsRight loopTable ↔ Covered loopTable :=
  costsRight_configured_iff configured_loopTable

/-- The two steps lead from one switch to the other for ever. -/
theorem not_costsRight_loopTable :
    Configured loopNetwork loopTable ∧ ¬CostsRight loopTable := by
  refine ⟨configured_loopTable, fun h => ?_⟩
  obtain ⟨hends, -⟩ := (costsRight_iff configured_loopTable.connected.manual).mp h
  obtain ⟨hops, arrives, hw⟩ := hends middle left
  have hright : steps loopTable left middle = some right := by decide
  have hmiddle : steps loopTable left right = some middle := by decide
  obtain ⟨hops₂, -, hw₂⟩ := hw.exists_hop (by decide) hright
  obtain ⟨hops₁, rfl, hw₁⟩ := hw₂.exists_hop (by decide) hmiddle
  obtain ⟨rest, rfl, -⟩ := hw₁.exists_hop (by decide) hright
  exact hw₂.fst_ne (by decide) hright (List.mem_cons_of_mem _ List.mem_cons_self) rfl

end Loop

end OISA.Proofs.RouteCosts
