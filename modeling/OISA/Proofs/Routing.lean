import OISA.Lib.ShortestPaths
import OISA.Net.RoutingTable

/-!
# Shortest-path routing

One round of the in-place loops relaxes every cost through one node, so the costs end as the hop
distances.
-/

namespace OISA.Net

open OISA.Lib Table

variable {n : ℕ}

/-- A connection of the node reaches the other node. -/
def Hop (network : Network n) (i j : Fin n) : Prop :=
  i ≠ j ∧ ∃ c ∈ network.output_buffers i, j ∈ c.destinations

def Table.cost (t : Table n) (i j : Fin n) : ℕ := (t i j).cost

lemma put_self (t : Table n) (i j : Fin n) (entry : Entry n) : t.put i j entry i j = entry :=
  if_pos ⟨rfl, rfl⟩

lemma put_of_ne (t : Table n) {i j i' j' : Fin n} (entry : Entry n) (h : ¬(i' = i ∧ j' = j)) :
    t.put i j entry i' j' = t i' j' := if_neg h

lemma mem_hops {network : Network n} {i j : Fin n} :
    (∃ k, (i, k, j) ∈ hops network) ↔ ∃ c ∈ network.output_buffers i, j ∈ c.destinations := by
  simp only [hops, List.mem_flatMap, List.mem_finRange, true_and, List.mem_map, Prod.mk.injEq,
    Prod.exists, List.mem_zipIdx_iff_getElem?]
  constructor
  · rintro ⟨k, _, c, k', hc, d, hd, rfl, rfl, rfl⟩
    exact ⟨c, List.mem_of_getElem? hc, hd⟩
  · rintro ⟨c, hc, hd⟩
    obtain ⟨k, hk⟩ := List.mem_iff_getElem?.mp hc
    exact ⟨k, i, c, k, hk, j, hd, rfl, rfl, rfl⟩

lemma mem_pairs (i j : Fin n) : (i, j) ∈ pairs n := by
  simp [pairs]

lemma Initialize_spec (network : Network n) (i j : Fin n) :
    (Hop network i j → (Initialize network i j).cost = 1 ∧
      (Initialize network i j).next_node = some j) ∧
    (¬Hop network i j → Initialize network i j = infinite n i j) := by
  have hfold : ∀ l : List (Fin n × ℕ × Fin n),
      ((i ≠ j ∧ ∃ k, (i, k, j) ∈ l) → (l.foldl setHop (infinite n) i j).cost = 1 ∧
        (l.foldl setHop (infinite n) i j).next_node = some j) ∧
      (¬(i ≠ j ∧ ∃ k, (i, k, j) ∈ l) → l.foldl setHop (infinite n) i j = infinite n i j) := by
    intro l
    induction l using List.reverseRecOn with
    | nil => exact ⟨fun ⟨_, k, hk⟩ => absurd hk List.not_mem_nil, fun _ => rfl⟩
    | append_singleton l hop ih =>
      obtain ⟨node, k, dst⟩ := hop
      rw [List.foldl_append, List.foldl_cons, List.foldl_nil, setHop]
      by_cases hself : node ≠ dst
      · rw [if_pos hself]
        by_cases hhere : i = node ∧ j = dst
        · obtain ⟨rfl, rfl⟩ := hhere
          rw [put_self]
          exact ⟨fun _ => ⟨rfl, rfl⟩, fun hno => absurd ⟨hself, k, by simp⟩ hno⟩
        · rw [put_of_ne _ _ hhere]
          have hiff : (∃ k', (i, k', j) ∈ l ++ [(node, k, dst)]) ↔ ∃ k', (i, k', j) ∈ l := by
            simp only [List.mem_append, List.mem_singleton, Prod.mk.injEq]
            exact exists_congr fun k' => ⟨fun h => h.resolve_right fun ⟨hi, _, hj⟩ =>
              hhere ⟨hi, hj⟩, .inl⟩
          rw [hiff]
          exact ih
      · rw [if_neg hself]
        have hiff : (i ≠ j ∧ ∃ k', (i, k', j) ∈ l ++ [(node, k, dst)]) ↔
            (i ≠ j ∧ ∃ k', (i, k', j) ∈ l) := by
          simp only [List.mem_append, List.mem_singleton, Prod.mk.injEq]
          refine and_congr_right fun hij => exists_congr fun k' => ⟨fun h => ?_, .inl⟩
          exact h.resolve_right fun ⟨hi, _, hj⟩ => hself fun heq => hij (hi.trans (heq.trans hj.symm))
        rw [hiff]
        exact ih
  have hspec := hfold (hops network)
  rw [mem_hops] at hspec
  exact hspec

def through (k : Fin n) (t : Table n) : Table n := fun i j =>
  if (t i j).cost > (t i k).cost + (t k j).cost then
    { t i j with
      cost := (t i k).cost + (t k j).cost
      next_node := some k }
  else t i j

lemma cost_through (k : Fin n) (t : Table n) (i j : Fin n) :
    (through k t).cost i j = min (t.cost i j) (t.cost i k + t.cost k j) := by
  unfold through Table.cost
  dsimp only
  split_ifs with h
  · exact (min_eq_right h.le).symm
  · exact (min_eq_left (not_lt.mp h)).symm

lemma through_row {k : Fin n} {t : Table n} (hkk : (t k k).cost = 0) (i : Fin n) :
    through k t i k = t i k := if_neg (by omega)

lemma through_column {k : Fin n} {t : Table n} (hkk : (t k k).cost = 0) (j : Fin n) :
    through k t k j = t k j := if_neg (by omega)

lemma foldl_relax {k : Fin n} {t : Table n} (hkk : (t k k).cost = 0) :
    (pairs n).foldl (relax k) t = through k t := by
  have hfold : ∀ l : List (Fin n × Fin n), ∀ i j,
      l.foldl (relax k) t i j = if (i, j) ∈ l then through k t i j else t i j := by
    intro l
    induction l using List.reverseRecOn with
    | nil => exact fun i j => (if_neg List.not_mem_nil).symm
    | append_singleton l pair ih =>
      obtain ⟨a, b⟩ := pair
      intro i j
      rw [List.foldl_append, List.foldl_cons, List.foldl_nil]
      have hrow : l.foldl (relax k) t a k = t a k := by
        rw [ih, through_row hkk, ite_self]
      have hcolumn : l.foldl (relax k) t k b = t k b := by
        rw [ih, through_column hkk, ite_self]
      have hentry : relax k (l.foldl (relax k) t) (a, b) a b = through k t a b := by
        simp only [relax, hrow, hcolumn]
        by_cases hab : (a, b) ∈ l
        · -- relaxed before in this round, which the second time leaves
          have hdone : l.foldl (relax k) t a b = through k t a b := by rw [ih, if_pos hab]
          have hle := cost_through k t a b
          unfold Table.cost at hle
          rw [hdone, if_neg (by rw [hle]; omega), hdone]
        · have hfresh : l.foldl (relax k) t a b = t a b := by rw [ih, if_neg hab]
          rw [hfresh, through]
          split_ifs with hgt
          · rw [put_self]
          · exact hfresh
      by_cases hhere : i = a ∧ j = b
      · obtain ⟨rfl, rfl⟩ := hhere
        rw [hentry, if_pos (by simp)]
      · have hother : relax k (l.foldl (relax k) t) (a, b) i j = l.foldl (relax k) t i j := by
          unfold relax
          dsimp only
          split_ifs
          · exact put_of_ne _ _ hhere
          · rfl
        have hiff : (i, j) ∈ l ++ [(a, b)] ↔ (i, j) ∈ l := by
          simp only [List.mem_append, List.mem_singleton, Prod.mk.injEq]
          exact ⟨fun h => h.resolve_right hhere, .inl⟩
        rw [hother, ih]
        simp only [hiff]
  funext i j
  rw [hfold, if_pos (mem_pairs i j)]

/-- The next nodes lie between: none at the node itself or without a route, else another node
on a way that is not longer, the destination only for one hop. -/
structure Linked (t : Table n) : Prop where
  unlinked : ∀ i j, (t i j).next_node = none → i = j ∨ n ≤ t.cost i j
  between : ∀ i j x, (t i j).next_node = some x → i ≠ j ∧ t.cost i j < n ∧ x ≠ i ∧
    t.cost i x + t.cost x j ≤ t.cost i j ∧ (x = j → t.cost i j ≤ 1)

lemma through_linked {k : Fin n} {t : Table n} (hdiag : ∀ i, t.cost i i = 0)
    (hbound : ∀ i j, t.cost i j ≤ n) (h : Linked t) : Linked (through k t) where
  unlinked i j hnone := by
    have hle := cost_through k t i j
    unfold through at hnone
    split_ifs at hnone with hgt
    rcases h.unlinked i j hnone with rfl | hfar
    · exact .inl rfl
    · unfold Table.cost at hgt hfar hle ⊢
      exact .inr (by omega)
  between i j x hsome := by
    have hij := cost_through k t i j
    have hix := cost_through k t i x
    have hxj := cost_through k t x j
    unfold through at hsome
    split_ifs at hsome with hgt
    · obtain rfl := Option.some.inj hsome
      have hfar := hdiag k
      have hij0 := hdiag i
      have hne : i ≠ j := by
        rintro rfl
        unfold Table.cost at *
        omega
      have hki : k ≠ i := by
        rintro rfl
        unfold Table.cost at *
        omega
      have hkj : k ≠ j := by
        rintro rfl
        unfold Table.cost at *
        omega
      have hle := hbound i j
      unfold Table.cost at *
      exact ⟨hne, by omega, hki, by omega, fun heq => absurd heq hkj⟩
    · obtain ⟨hne, hlt, hxi, hsum, hone⟩ := h.between i j x hsome
      unfold Table.cost at *
      exact ⟨hne, by omega, hxi, by omega, fun heq => by have := hone heq; omega⟩

/-- What the costs and next nodes are when the loops have gone through the nodes of `P`. -/
structure Routed (network : Network n) (P : Fin n → Prop) (t : Table n) : Prop where
  estimates : Estimates (Hop network) P n t.cost
  linked : Linked t

lemma Initialize_routed (network : Network n) :
    Routed network (fun _ => False) (Initialize network) := by
  have hcost : ∀ i j, (Initialize network).cost i j =
      if i = j then 0 else if (∃ c ∈ network.output_buffers i, j ∈ c.destinations) then 1 else n := by
    intro i j
    obtain ⟨hhop, hno⟩ := Initialize_spec network i j
    by_cases hij : i = j
    · rw [if_pos hij, Table.cost, hno fun hop => hop.1 hij, infinite, if_pos hij]
    · rw [if_neg hij]
      by_cases hreach : ∃ c ∈ network.output_buffers i, j ∈ c.destinations
      · rw [if_pos hreach]
        exact (hhop ⟨hij, hreach⟩).1
      · rw [if_neg hreach, Table.cost, hno fun hop => hreach hop.2, infinite, if_neg hij]
  have hself : ∀ i, (Initialize network).cost i i = 0 := fun i => by rw [hcost, if_pos rfl]
  have hhop : ∀ {i j}, Hop network i j → (Initialize network).cost i j = 1 := fun {i j} h => by
    rw [hcost, if_neg h.1, if_pos h.2]
  constructor
  · constructor
    · exact hself
    · intro i j
      have hpos := i.pos
      rw [hcost]
      split_ifs <;> omega
    · intro i j hlt
      rw [hcost] at hlt ⊢
      split_ifs at hlt ⊢ with hij hreach
      · subst hij
        exact .nil i
      · exact .cons ⟨hij, hreach⟩ (.nil j)
      · exact absurd hlt (lt_irrefl n)
    · intro i j m hvia
      cases hvia with
      | single h => exact (hhop h).le
      | cons _ hm _ => exact absurd hm id
  · constructor
    · intro i j hnone
      obtain ⟨hset, hno⟩ := Initialize_spec network i j
      by_cases h : Hop network i j
      · rw [(hset h).2] at hnone
        exact absurd hnone nofun
      · by_cases hij : i = j
        · exact .inl hij
        · rw [Table.cost, hno h, infinite, if_neg hij]
          exact .inr le_rfl
    · intro i j x hsome
      obtain ⟨hset, hno⟩ := Initialize_spec network i j
      by_cases h : Hop network i j
      · rw [(hset h).2, Option.some.injEq] at hsome
        subst hsome
        have hone := hhop h
        have htwo : 1 < n := by
          have hi := i.isLt
          have hj := j.isLt
          have hne : i.val ≠ j.val := fun heq => h.1 (Fin.ext heq)
          omega
        exact ⟨h.1, by omega, fun heq => h.1 heq.symm, by rw [hself]; omega, fun _ => hone.le⟩
      · rw [hno h] at hsome
        exact absurd hsome nofun

lemma Routed.round {network : Network n} {P : Fin n → Prop} {t : Table n}
    (h : Routed network P t) (k : Fin n) :
    Routed network (fun m => P m ∨ m = k) ((pairs n).foldl (relax k) t) := by
  rw [foldl_relax (h.estimates.diagonal k)]
  constructor
  · have hcost : (through k t).cost = fun i j => min (t.cost i j) (t.cost i k + t.cost k j) := by
      funext i j
      exact cost_through k t i j
    rw [hcost]
    exact h.estimates.relax k
  · exact through_linked h.estimates.diagonal h.estimates.le h.linked

lemma costs_distances (network : Network n) :
    Distances (Hop network) n (Initialize network).costs.cost ∧
      Linked (Initialize network).costs := by
  have hfold : ∀ l : List (Fin n), Routed network (fun m => m ∈ l)
      (l.foldl (fun t k => (pairs n).foldl (relax k) t) (Initialize network)) := by
    intro l
    induction l using List.reverseRecOn with
    | nil =>
      obtain ⟨hest, hlinked⟩ := Initialize_routed network
      exact ⟨hest.mono fun m hm => absurd hm List.not_mem_nil, hlinked⟩
    | append_singleton l k ih =>
      rw [List.foldl_append, List.foldl_cons, List.foldl_nil]
      obtain ⟨hest, hlinked⟩ := ih.round k
      refine ⟨hest.mono fun m hm => ?_, hlinked⟩
      rwa [List.mem_append, List.mem_singleton] at hm
  obtain ⟨hest, hlinked⟩ := hfold (List.finRange n)
  exact ⟨(hest.mono fun m _ => List.mem_finRange m).distances, hlinked⟩

lemma follow_spec {network : Network n} {t : Table n}
    (hdist : Distances (Hop network) n t.cost) (hlinked : Linked t) {i next : Fin n}
    (hne : next ≠ i) {fuel : ℕ} (hfuel : t.cost i next ≤ fuel) (hlt : t.cost i next < n) :
    ∃ x, follow t i fuel next = some x ∧ t.cost i x = 1 ∧
      t.cost i x + t.cost x next ≤ t.cost i next := by
  have hpositive : ∀ {x}, x ≠ i → 0 < t.cost i x := fun {x} hx =>
    Nat.pos_of_ne_zero fun hzero => hx (hdist.eq_of_zero i.pos hzero).symm
  induction fuel generalizing next with
  | zero =>
    have hpos := hpositive hne
    omega
  | succ fuel ih =>
    have hpos := hpositive hne
    rw [follow]
    by_cases hone : (t i next).cost ≤ 1
    · rw [if_pos hone]
      refine ⟨next, rfl, ?_, ?_⟩
      · unfold Table.cost at hpos ⊢
        omega
      · rw [hdist.self]
        exact le_rfl
    · rw [if_neg hone]
      cases hnext : (t i next).next_node with
      | none =>
        rcases hlinked.unlinked i next hnext with heq | hfar
        · exact absurd heq.symm hne
        · omega
      | some y =>
        obtain ⟨_, _, hyi, hsum, hy⟩ := hlinked.between i next y hnext
        -- the next node is another one, so it is closer to the source
        have hpos' : 0 < t.cost y next := Nat.pos_of_ne_zero fun hzero =>
          hone (hy (hdist.eq_of_zero i.pos hzero))
        obtain ⟨x, hx, hxone, hxsum⟩ := ih hyi (by omega) (by omega)
        have htriangle := hdist.triangle x y next
        exact ⟨x, hx, hxone, by omega⟩

lemma follow_mono {t : Table n} {i next x : Fin n} {fuel fuel' : ℕ} (hle : fuel ≤ fuel')
    (h : follow t i fuel next = some x) : follow t i fuel' next = some x := by
  induction fuel generalizing next fuel' with
  | zero => exact absurd h nofun
  | succ fuel ih =>
    obtain ⟨fuel', rfl⟩ : ∃ k, fuel' = k + 1 := ⟨fuel' - 1, by omega⟩
    rw [follow] at h ⊢
    split_ifs at h ⊢ with hone
    · exact h
    · obtain ⟨y, hy, h⟩ := Option.bind_eq_some_iff.mp h
      rw [hy]
      exact ih (by omega) h

lemma findBuffer_spec {network : Network n} {i x : Fin n} (h : Hop network i x) :
    ∃ k c, findBuffer network i x = some k ∧ (network.output_buffers i)[k]? = some c ∧
      x ∈ c.destinations := by
  obtain ⟨_, c, hc, hx⟩ := h
  unfold findBuffer
  cases hfind : (network.output_buffers i).findIdx? fun c => decide (x ∈ c.destinations) with
  | none =>
    rw [List.findIdx?_eq_none_iff] at hfind
    exact absurd hx (of_decide_eq_false (hfind c hc))
  | some k =>
    obtain ⟨hk, hmem, _⟩ := List.findIdx?_eq_some_iff_getElem.mp hfind
    exact ⟨k, _, rfl, List.getElem?_eq_getElem hk, of_decide_eq_true hmem⟩

/-- A resolved entry: null at the node itself and without a route, else the first hop and an
output buffer to it. -/
def Resolved (network : Network n) (t : Table n) (i j : Fin n) : Prop :=
  (t i j).next_node = none ∧ (t i j).buffer = none ∨
    ∃ x k c, (t i j).next_node = some x ∧ (t i j).buffer = some (i, k) ∧
      (network.output_buffers i)[k]? = some c ∧ x ∈ c.destinations ∧ t.cost i x = 1

/-- The table while the second part is at work: the costs stay. -/
structure Resolving (network : Network n) (cost : Fin n → Fin n → ℕ)
    (done : List (Fin n × Fin n)) (t : Table n) : Prop where
  cost : t.cost = cost
  linked : Linked t
  resolved : ∀ i j, (i, j) ∈ done → Resolved network t i j

lemma cost_put {t : Table n} {i j : Fin n} {entry : Entry n} (h : entry.cost = t.cost i j) :
    (t.put i j entry).cost = t.cost := by
  funext i' j'
  unfold Table.cost
  by_cases hhere : i' = i ∧ j' = j
  · obtain ⟨rfl, rfl⟩ := hhere
    rw [put_self]
    exact h
  · rw [put_of_ne _ _ hhere]

lemma Linked.put {t : Table n} (h : Linked t) {i j : Fin n} {entry : Entry n}
    (hcost : entry.cost = t.cost i j)
    (hnone : entry.next_node = none → i = j ∨ n ≤ t.cost i j)
    (hsome : ∀ x, entry.next_node = some x → i ≠ j ∧ t.cost i j < n ∧ x ≠ i ∧
      t.cost i x + t.cost x j ≤ t.cost i j ∧ (x = j → t.cost i j ≤ 1)) :
    Linked (t.put i j entry) where
  unlinked i' j' hnext := by
    rw [cost_put hcost]
    by_cases hhere : i' = i ∧ j' = j
    · obtain ⟨rfl, rfl⟩ := hhere
      rw [put_self] at hnext
      exact hnone hnext
    · rw [put_of_ne _ _ hhere] at hnext
      exact h.unlinked i' j' hnext
  between i' j' x hnext := by
    rw [cost_put hcost]
    by_cases hhere : i' = i ∧ j' = j
    · obtain ⟨rfl, rfl⟩ := hhere
      rw [put_self] at hnext
      exact hsome x hnext
    · rw [put_of_ne _ _ hhere] at hnext
      exact h.between i' j' x hnext

lemma Resolving.put {network : Network n} {cost : Fin n → Fin n → ℕ}
    {done : List (Fin n × Fin n)} {t : Table n} (h : Resolving network cost done t) {i j : Fin n}
    {entry : Entry n} (hcost : entry.cost = t.cost i j)
    (hlinked : Linked (t.put i j entry)) (hentry : Resolved network (t.put i j entry) i j) :
    Resolving network cost (done ++ [(i, j)]) (t.put i j entry) where
  cost := (cost_put hcost).trans h.cost
  linked := hlinked
  resolved i' j' hmem := by
    by_cases hhere : i' = i ∧ j' = j
    · obtain ⟨rfl, rfl⟩ := hhere
      exact hentry
    · have hmem' : (i', j') ∈ done := by
        simp only [List.mem_append, List.mem_singleton, Prod.mk.injEq] at hmem
        exact hmem.resolve_right hhere
      have hold := h.resolved i' j' hmem'
      unfold Resolved at hold ⊢
      rw [put_of_ne _ _ hhere, cost_put hcost]
      exact hold

lemma Resolving.step {network : Network n} {cost : Fin n → Fin n → ℕ}
    (hdist : Distances (Hop network) n cost) {done : List (Fin n × Fin n)} {t : Table n}
    (h : Resolving network cost done t) (i j : Fin n) :
    ∃ t', (∀ fuel, n ≤ fuel → resolve network fuel t (i, j) = some t') ∧
      Resolving network cost (done ++ [(i, j)]) t' := by
  have hdist' : Distances (Hop network) n t.cost := h.cost ▸ hdist
  unfold resolve
  dsimp only
  cases hnext : (t i j).next_node with
  | none =>
    refine ⟨_, fun _ _ => rfl, h.put rfl ?_ ?_⟩
    · exact h.linked.put rfl (fun _ => h.linked.unlinked i j hnext) fun x hx => absurd hx nofun
    · left
      rw [put_self]
      exact ⟨rfl, rfl⟩
  | some next =>
    obtain ⟨hij, hlt, hnexti, hsum, _⟩ := h.linked.between i j next hnext
    have hfuel : t.cost i next ≤ n := by omega
    obtain ⟨x, hx, hone, hxsum⟩ := follow_spec hdist' h.linked hnexti hfuel (by omega)
    have htwo : 1 < n := by
      have hi := i.isLt
      have hj := j.isLt
      have hne : i.val ≠ j.val := fun heq => hij (Fin.ext heq)
      omega
    have hhop := hdist'.adj_of_one htwo hone
    obtain ⟨k, c, hk, hc, hmem⟩ := findBuffer_spec hhop
    have htriangle := hdist'.triangle x next j
    refine ⟨t.put i j ⟨(t i j).cost, some x, some (i, k)⟩, fun fuel hfuel => ?_,
      h.put rfl ?_ ?_⟩
    · simp only [follow_mono hfuel hx, hk, Option.bind_eq_bind, Option.bind_some]
      rfl
    · refine h.linked.put rfl (fun hnone => absurd hnone nofun) fun y hy => ?_
      obtain rfl := Option.some.inj hy
      exact ⟨hij, hlt, hhop.1.symm, by omega, fun heq => by rw [← heq]; exact hone.le⟩
    · right
      refine ⟨x, k, c, ?_, ?_, hc, hmem, ?_⟩
      · rw [put_self]
      · rw [put_self]
      · have hkeep : (t.put i j ⟨(t i j).cost, some x, some (i, k)⟩).cost = t.cost :=
          cost_put rfl
        exact (congrFun (congrFun hkeep i) x).trans hone

lemma FloydWarshall_resolving (network : Network n) :
    ∃ t, (∀ fuel, n ≤ fuel → FloydWarshall network fuel (Initialize network) = some t) ∧
      Resolving network (Initialize network).costs.cost (pairs n) t := by
  obtain ⟨hdist, hlinked⟩ := costs_distances network
  have hfold : ∀ l : List (Fin n × Fin n), ∃ t,
      (∀ fuel, n ≤ fuel →
        l.foldlM (resolve network fuel) (Initialize network).costs = some t) ∧
      Resolving network (Initialize network).costs.cost l t := by
    intro l
    induction l using List.reverseRecOn with
    | nil => exact ⟨_, fun _ _ => rfl, rfl, hlinked, fun _ _ h => absurd h List.not_mem_nil⟩
    | append_singleton l pair ih =>
      obtain ⟨i, j⟩ := pair
      obtain ⟨t, ht, hresolving⟩ := ih
      obtain ⟨t', ht', hresolving'⟩ := hresolving.step hdist i j
      refine ⟨t', fun fuel hfuel => ?_, hresolving'⟩
      rw [List.foldlM_append, ht fuel hfuel, Option.bind_eq_bind, Option.bind_some,
        List.foldlM_cons, ht' fuel hfuel]
      rfl
  exact hfold (pairs n)

/-- The node after a number of steps along the next nodes for a destination. -/
def follows (t : Table n) (destination : Fin n) : ℕ → Fin n → Option (Fin n)
  | 0, i => some i
  | m + 1, i => (t i destination).next_node.bind (follows t destination m)

lemma follows_spec {network : Network n} {t : Table n}
    (hdist : Distances (Hop network) n t.cost) (hlinked : Linked t)
    (hresolved : ∀ i j, Resolved network t i j) (j : Fin n) {m : ℕ} {i : Fin n}
    (hle : m ≤ t.cost i j) (hlt : t.cost i j < n) :
    ∃ x, follows t j m i = some x ∧ t.cost x j + m = t.cost i j := by
  induction m generalizing i with
  | zero => exact ⟨i, rfl, rfl⟩
  | succ m ih =>
    rcases hresolved i j with ⟨hnone, _⟩ | ⟨x, _, _, hx, _, _, _, hone⟩
    · rcases hlinked.unlinked i j hnone with rfl | hfar
      · rw [hdist.self] at hle
        omega
      · omega
    · obtain ⟨_, _, _, hsum, _⟩ := hlinked.between i j x hx
      have htriangle := hdist.triangle i x j
      obtain ⟨y, hy, hcost⟩ := ih (i := x) (by omega) (by omega)
      exact ⟨y, by rw [follows, hx]; exact hy, by omega⟩

/-- A walk along hops, of any number. -/
def Reachable (network : Network n) (i j : Fin n) : Prop := ∃ m, Walk (Hop network) m i j

structure Routes (network : Network n) (t : Table n) : Prop where
  distances : Distances (Hop network) n t.cost
  linked : Linked t
  resolved : ∀ i j, Resolved network t i j

lemma FloydWarshall_routes (network : Network n) :
    ∃ t, (∀ fuel, n ≤ fuel → FloydWarshall network fuel (Initialize network) = some t) ∧
      Routes network t := by
  obtain ⟨t, hrun, hresolving⟩ := FloydWarshall_resolving network
  refine ⟨t, hrun, ?_, hresolving.linked, fun i j => hresolving.resolved i j (mem_pairs i j)⟩
  rw [hresolving.cost]
  exact (costs_distances network).1

/-- **Shortest-path routing**: the cost is the hop distance, or the number of nodes without a
route, and following next nodes reaches the destination in exactly the cost. -/
theorem routes_shortest (network : Network n) :
    ∃ t, (∀ fuel, n ≤ fuel → FloydWarshall network fuel (Initialize network) = some t) ∧
      ∀ i j, (Reachable network i j → IsDist (Hop network) i j (t i j).cost) ∧
        (¬Reachable network i j → (t i j).cost = n) ∧
        ((t i j).buffer = none ↔ i = j ∨ ¬Reachable network i j) ∧
        (∀ buffer, (t i j).buffer = some buffer → ∃ x k c, (t i j).next_node = some x ∧
          buffer = (i, k) ∧ (network.output_buffers i)[k]? = some c ∧ x ∈ c.destinations) ∧
        (Reachable network i j → follows t j (t i j).cost i = some j ∧
          ∀ m < (t i j).cost, follows t j m i ≠ some j) := by
  obtain ⟨t, hrun, hdist, hlinked, hresolved⟩ := FloydWarshall_routes network
  have hreach : ∀ i j, t.cost i j < n ↔ Reachable network i j := fun i j =>
    hdist.lt_iff (Fintype.card_fin n).symm i j
  refine ⟨t, hrun, fun i j => ⟨fun h => hdist.isDist ((hreach i j).mpr h), fun h => ?_, ?_, ?_,
    fun h => ?_⟩⟩
  · have hle := hdist.le i j
    have hge : ¬t.cost i j < n := fun hlt => h ((hreach i j).mp hlt)
    exact le_antisymm hle (not_lt.mp hge)
  · rw [← hreach]
    rcases hresolved i j with ⟨hnone, hbuffer⟩ | ⟨x, k, c, hx, hbuffer, _⟩
    · refine ⟨fun _ => ?_, fun _ => hbuffer⟩
      rcases hlinked.unlinked i j hnone with rfl | hfar
      · exact .inl rfl
      · exact .inr (not_lt.mpr hfar)
    · obtain ⟨hij, hlt, _⟩ := hlinked.between i j x hx
      rw [hbuffer]
      exact ⟨nofun, fun h => by rcases h with rfl | hfar <;> contradiction⟩
  · intro buffer hbuffer
    rcases hresolved i j with ⟨_, hnone⟩ | ⟨x, k, c, hx, hsome, hc, hmem, _⟩
    · rw [hnone] at hbuffer
      exact absurd hbuffer nofun
    · exact ⟨x, k, c, hx, Option.some.inj (hbuffer.symm.trans hsome), hc, hmem⟩
  · have hlt := (hreach i j).mpr h
    constructor
    · obtain ⟨x, hx, hcost⟩ := follows_spec hdist hlinked hresolved j le_rfl hlt
      obtain rfl := hdist.eq_of_zero i.pos (by omega : t.cost x j = 0)
      exact hx
    · intro m hm hstop
      obtain ⟨x, hx, hcost⟩ := follows_spec hdist hlinked hresolved j hm.le hlt
      rw [hx, Option.some.injEq] at hstop
      rw [hstop, hdist.self] at hcost
      unfold Table.cost at hcost
      omega

lemma Routes.walk {network : Network n} {t : Table n} (h : Routes network t) {d : Fin n} {m : ℕ}
    {i x : Fin n} (hx : follows t d m i = some x) : Walk (Hop network) m i x := by
  induction m generalizing i with
  | zero =>
    obtain rfl := Option.some.inj hx
    exact .nil i
  | succ m ih =>
    obtain ⟨y, hy, hrest⟩ := Option.bind_eq_some_iff.mp hx
    rcases h.resolved i d with ⟨hnone, _⟩ | ⟨z, _, _, hz, _, _, _, hone⟩
    · rw [hnone] at hy
      exact absurd hy nofun
    · obtain rfl := Option.some.inj (hz.symm.trans hy)
      obtain ⟨_, hlt, hzi, hsum, _⟩ := h.linked.between i d z hz
      have htwo : 1 < n := by
        have hi := i.isLt
        have hj := z.isLt
        have hne : z.val ≠ i.val := fun heq => hzi (Fin.ext heq)
        omega
      exact .cons (h.distances.adj_of_one htwo hone) (ih hrest)

/-- Links in both directions between neighbours of a row of five nodes, the end nodes at the
ends and in the middle, switches between. -/
def row : Network 5 where
  kind i := if i.val % 2 = 0 then .EndNode else .Switch
  output_buffers := ![[.Link 1 1], [.Link 0 1, .Link 2 1], [.Link 1 1, .Link 3 1],
    [.Link 2 1, .Link 4 1], [.Link 3 1]]
  links_valid := by
    intro source destination channels hmem
    fin_cases source <;> simp at hmem <;> aesop

instance (network : Network n) (i j : Fin n) : Decidable (Hop network i j) :=
  inferInstanceAs (Decidable (_ ∧ _))

lemma row_reachable : Reachable row 0 4 :=
  ⟨4, .cons (by decide : Hop row 0 1) (.cons (by decide : Hop row 1 2)
    (.cons (by decide : Hop row 2 3) (.cons (by decide : Hop row 3 4) (.nil 4))))⟩

lemma row_isDist : IsDist (Hop row) 0 2 2 := by
  refine ⟨.cons (by decide : Hop row 0 1) (.cons (by decide : Hop row 1 2) (.nil 2)), ?_⟩
  intro m hwalk
  by_contra hlt
  interval_cases m
  · cases hwalk
  · cases hwalk with
    | cons h₁ hnil =>
      cases hnil
      exact absurd h₁ (by decide)

end OISA.Net
