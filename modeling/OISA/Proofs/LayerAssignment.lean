import Mathlib.Order.WellFoundedSet
import OISA.Proofs.CycleRemoval

/-!
# The layers of an acyclic graph

The first phase labels every vertex, and the labels rise along the edges.
-/

namespace OISA.Cpp.LayeredGraph

open OISA.Lib

variable {g : LayeredGraph} {address : ℕ → ℕ} {label : ℕ} {vs : List ℕ}

def withLabels (g : LayeredGraph) (key : ℕ → ℤ) (incoming : ℕ → List ℕ) : LayeredGraph :=
  { g with key := key, incoming_vertices := incoming }

/-- The labels below `label` are given out, to vertices with smaller labels in front of them. -/
structure Labelled (g : LayeredGraph) (label : ℕ) : Prop where
  numbered : Numbered (List.range g.num_vertices) g.key label (g.num_vertices + 1)
  below : ∀ v, g.key v < label
  incoming : Lists Edge.destination_vertex Edge.source_vertex g.edges g.incoming_vertices
  rising : ∀ v, g.key v ≠ 0 → ∀ u ∈ g.incoming_vertices v, g.key u ≠ 0 ∧ g.key u < g.key v

lemma Labelled.give (h : g.Labelled label) {v : ℕ} (hv : v < g.num_vertices) (h0 : g.key v = 0)
    (hin : ∀ u ∈ g.incoming_vertices v, g.key u ≠ 0) :
    ({ g with key := Function.update g.key v label }).Labelled (label + 1) where
  numbered := by
    have hn := h.numbered.giveFirst List.nodup_range (List.mem_range.mpr hv) h0
    rwa [← Nat.cast_succ] at hn
  below u := by
    have hu := h.below u
    change Function.update g.key v label u < _
    by_cases huv : u = v
    · rw [huv, Function.update_self]
      push_cast
      omega
    · rw [Function.update_of_ne huv]
      push_cast
      omega
  incoming := h.incoming
  rising w hw u hu := by
    change Function.update g.key v label w ≠ 0 at hw
    change Function.update g.key v label u ≠ 0 ∧
      Function.update g.key v label u < Function.update g.key v label w
    by_cases hwv : w = v
    · subst hwv
      have huw : u ≠ w := fun h => hin u hu (h ▸ h0)
      rw [Function.update_self, Function.update_of_ne huw]
      exact ⟨hin u hu, h.below u⟩
    · rw [Function.update_of_ne hwv] at hw ⊢
      obtain ⟨hu0, hlt⟩ := h.rising w hw u hu
      have huv : u ≠ v := fun h => hu0 (h ▸ h0)
      rw [Function.update_of_ne huv]
      exact ⟨hu0, hlt⟩

lemma Labelled.permute (h : g.Labelled label) {incoming : ℕ → List ℕ}
    (hp : ∀ v, (incoming v).Perm (g.incoming_vertices v)) :
    ({ g with incoming_vertices := incoming }).Labelled label where
  numbered := h.numbered
  below := h.below
  incoming v := (hp v).trans (h.incoming v)
  rising v hv u hu := h.rising v hv u ((hp v).mem_iff.mp hu)

lemma labelled_one (h : g.WellFormed) : g.Labelled 1 where
  numbered := by
    have hzero := numbered_zero (List.range g.num_vertices)
    rwa [List.length_range, ← h.key] at hzero
  below v := by
    rw [h.key]
    exact Int.one_pos
  incoming := h.agrees.incoming
  rising v hv := absurd (congrFun h.key v) hv

lemma labelSources_spec (h : g.Labelled label) (hvs : vs.Nodup)
    (hsub : ∀ v ∈ vs, v < g.num_vertices) (h0 : ∀ v ∈ vs, g.key v = 0) :
    ∃ label' key, labelSources vs label g = (label', { g with key := key }) ∧
      ({ g with key := key }).Labelled label' := by
  induction vs generalizing g label with
  | nil => exact ⟨label, g.key, rfl, h⟩
  | cons v vs ih =>
    obtain ⟨hv, hvs⟩ := List.nodup_cons.mp hvs
    obtain ⟨hlt, hsub⟩ := List.forall_mem_cons.mp hsub
    obtain ⟨hv0, h0⟩ := List.forall_mem_cons.mp h0
    unfold labelSources
    by_cases hin : (g.incoming_vertices v).length = 0
    · rw [if_pos hin]
      have hgive := h.give hlt hv0 fun u hu =>
        absurd (List.length_eq_zero_iff.mp hin ▸ hu) List.not_mem_nil
      refine ih hgive hvs hsub fun u hu => ?_
      change Function.update g.key v label u = 0
      rw [Function.update_of_ne fun h : u = v => hv (h ▸ hu)]
      exact h0 u hu
    · rw [if_neg hin]
      exact ih h hvs hsub h0

lemma perm_sortIncoming (g : LayeredGraph) (v u : ℕ) :
    ((g.sortIncoming v).incoming_vertices u).Perm (g.incoming_vertices u) := by
  change (Function.update g.incoming_vertices v _ u).Perm _
  by_cases huv : u = v
  · subst huv
    rw [Function.update_self]
    exact List.perm_insertionSort _ _
  · rw [Function.update_of_ne huv]

lemma chooseCandidate_spec (address : ℕ → ℕ) (rest : List ℕ) (candidate : ℕ) (g : LayeredGraph) :
    ∃ chosen incoming, chooseCandidate address rest candidate g =
        (chosen, { g with incoming_vertices := incoming }) ∧ chosen ∈ candidate :: rest ∧
      ∀ v, (incoming v).Perm (g.incoming_vertices v) := by
  induction rest generalizing candidate g with
  | nil => exact ⟨candidate, g.incoming_vertices, rfl, List.mem_cons_self, fun _ => .refl _⟩
  | cons alternate rest ih =>
    -- both outcomes of the comparison go on in the same way
    have hgo (c : ℕ) (hc : c = candidate ∨ c = alternate) :
        ∃ chosen incoming, chooseCandidate address rest c (g.sortIncoming alternate) =
            (chosen, { g with incoming_vertices := incoming }) ∧
          chosen ∈ candidate :: alternate :: rest ∧
          ∀ v, (incoming v).Perm (g.incoming_vertices v) := by
      obtain ⟨chosen, incoming, heq, hmem, hperm⟩ := ih c (g.sortIncoming alternate)
      refine ⟨chosen, incoming, heq, ?_, fun v => (hperm v).trans (perm_sortIncoming g alternate v)⟩
      rcases List.mem_cons.mp hmem with rfl | hmem
      · rcases hc with rfl | rfl <;> simp
      · exact List.mem_cons_of_mem _ (List.mem_cons_of_mem _ hmem)
    unfold chooseCandidate
    dsimp only
    split
    · exact hgo alternate (.inr rfl)
    · exact hgo candidate (.inl rfl)
    · split_ifs
      · exact hgo alternate (.inr rfl)
      · exact hgo candidate (.inl rfl)

lemma Labelled.exists_candidate (h : g.Labelled label) (hle : label ≤ g.num_vertices)
    (hsource : ∀ e ∈ g.edges, e.source_vertex < g.num_vertices)
    (hacyclic : ¬Cyclic (ends Edge.source_vertex Edge.destination_vertex g.edges)) :
    g.candidates ≠ [] := by
  let before := Relation.TransGen
    fun u v => v ∈ ends Edge.source_vertex Edge.destination_vertex g.edges u
  have hirrefl : ∀ v, ¬before v v := fun v hv => hacyclic ⟨v, hv⟩
  have horder : IsStrictOrder ℕ before :=
    { irrefl := hirrefl, trans := fun _ _ _ => Relation.TransGen.trans }
  have hfinite : {v | v < g.num_vertices}.WellFoundedOn before :=
    (Set.finite_lt_nat g.num_vertices).wellFoundedOn
  intro hnone
  obtain ⟨v, hv, hv0⟩ := h.numbered.exists_zero (by exact_mod_cast Nat.lt_succ_of_le hle)
  refine hfinite.induction (x := v) (P := fun v => g.key v ≠ 0) (List.mem_range.mp hv) ?_ hv0
  intro v hv ih hv0
  have hnot : v ∉ g.candidates := by
    rw [hnone]
    exact List.not_mem_nil
  refine hnot (List.mem_filter.mpr ⟨List.mem_range.mpr hv, decide_eq_true ⟨hv0, fun u hu => ?_⟩⟩)
  obtain ⟨e, he, hd, hs⟩ := h.incoming.mem_iff.mp hu
  have hu : u < g.num_vertices := hs ▸ hsource e he
  exact ih u hu (.single (mem_ends.mpr ⟨e, he, hs, hd⟩))

lemma labelOthers_spec {count : ℕ} (h : g.Labelled label)
    (hcount : label + count = g.num_vertices + 1)
    (hsource : ∀ e ∈ g.edges, e.source_vertex < g.num_vertices)
    (hacyclic : ¬Cyclic (ends Edge.source_vertex Edge.destination_vertex g.edges)) :
    ∃ key incoming, labelOthers address count label g = some (g.withLabels key incoming) ∧
      (g.withLabels key incoming).Labelled (g.num_vertices + 1) := by
  induction count generalizing g label with
  | zero => exact ⟨g.key, g.incoming_vertices, rfl, hcount ▸ h⟩
  | succ count ih =>
    have hne := h.exists_candidate (by omega) hsource hacyclic
    obtain ⟨candidate, rest, hcons⟩ := List.exists_cons_of_ne_nil hne
    unfold labelOthers
    rw [hcons]
    dsimp only
    obtain ⟨chosen, incoming, heq, hmem, hperm⟩ :=
      chooseCandidate_spec address rest candidate (g.sortIncoming candidate)
    rw [heq]
    dsimp only
    rw [← hcons] at hmem
    obtain ⟨hlt, hc⟩ := List.mem_filter.mp hmem
    obtain ⟨h0, hin⟩ := of_decide_eq_true hc
    have hp v := (hperm v).trans (perm_sortIncoming g candidate v)
    have hgive := (h.permute hp).give (List.mem_range.mp hlt) h0
      fun u hu => hin u ((hp chosen).mem_iff.mp hu)
    have hcount : label + 1 + count = g.num_vertices + 1 := by omega
    exact ih hgive hcount hsource hacyclic

lemma assignLabels_spec (address : ℕ → ℕ) (h : g.WellFormed)
    (hacyclic : ¬Cyclic (ends Edge.source_vertex Edge.destination_vertex g.edges)) :
    ∃ key incoming, g.assignLabels address = some (g.withLabels key incoming) ∧
      (g.withLabels key incoming).Labelled (g.num_vertices + 1) := by
  obtain ⟨label, key, heq, hl⟩ := labelSources_spec (labelled_one h)
    (List.nodup_range (n := g.num_vertices)) (fun v => List.mem_range.mp)
    fun v _ => congrFun h.key v
  have hle : label ≤ g.num_vertices + 1 := by
    have hleft : (label : ℤ) + (List.range g.num_vertices).countP (key · = 0) =
      g.num_vertices + 1 := hl.numbered.left
    omega
  unfold assignLabels
  rw [heq]
  exact labelOthers_spec hl (Nat.add_sub_cancel' hle) h.source hacyclic

variable {width : ℕ} {ordered : List ℕ} {v : ℕ}

def placeAll (width : ℕ) : List ℕ → List ℕ → LayeredGraph → LayeredGraph
  | [], _, g => g
  | v :: vs, ordered, g => placeAll width vs (ordered ++ [v]) (g.placeCandidate width ordered v)

/-- Each time a vertex of the list is placed, the layer above its outgoing vertices or the one
above that has room. -/
def FindsRoom (width : ℕ) : List ℕ → List ℕ → LayeredGraph → Prop
  | [], _, _ => True
  | v :: vs, ordered, g =>
    (g.layerWidth ordered (g.layerAbove v) < width ∨
      g.layerWidth ordered (g.layerAbove v + 1) < width) ∧
    FindsRoom width vs (ordered ++ [v]) (g.placeCandidate width ordered v)

/-- The vertices of a list have layers, above those of their outgoing vertices. -/
structure Placed (g : LayeredGraph) (ordered : List ℕ) : Prop where
  nonneg : ∀ v ∈ ordered, 0 ≤ g.y_value v
  falling : ∀ v ∈ ordered, ∀ u ∈ g.outgoing_vertices v, u ∈ ordered ∧ g.y_value u < g.y_value v

def Ready (g : LayeredGraph) (ordered vs : List ℕ) : Prop :=
  ∀ before v after, vs = before ++ v :: after → ∀ u ∈ g.outgoing_vertices v, u ∈ ordered ++ before

lemma Ready.head (h : g.Ready ordered (v :: vs)) : ∀ u ∈ g.outgoing_vertices v, u ∈ ordered := by
  intro u hu
  have hmem := h [] v vs rfl u hu
  rwa [List.append_nil] at hmem

lemma Ready.tail (h : g.Ready ordered (v :: vs)) : g.Ready (ordered ++ [v]) vs := by
  intro before w after heq u hu
  rw [List.append_assoc]
  exact h (v :: before) w after (by rw [heq]; rfl) u hu

lemma layerPass_eq {candidate : Option ℕ} {passed : List ℕ} (h : g.Ready ordered vs) :
    layerPass width vs passed candidate ordered g =
      (passed, ordered ++ vs, placeAll width vs ordered g) := by
  induction vs generalizing g ordered candidate with
  | nil => rw [List.append_nil]; rfl
  | cons v vs ih =>
    unfold layerPass
    dsimp only
    rw [if_pos h.head]
    dsimp only
    have htail : (g.placeCandidate width ordered v).Ready (ordered ++ [v]) vs := h.tail
    rw [ih htail, List.append_assoc]
    rfl

lemma foldl_layer (y : ℕ → ℤ) (us : List ℕ) (layer : ℤ) :
    layer ≤ us.foldl (fun layer u => if y u ≥ layer then y u + 1 else layer) layer ∧
      ∀ u ∈ us, y u < us.foldl (fun layer u => if y u ≥ layer then y u + 1 else layer) layer := by
  induction us generalizing layer with
  | nil => exact ⟨le_rfl, fun u hu => absurd hu List.not_mem_nil⟩
  | cons a us ih =>
    obtain ⟨hle, hall⟩ := ih (if y a ≥ layer then y a + 1 else layer)
    have hstep : layer ≤ (if y a ≥ layer then y a + 1 else layer) ∧
        y a < (if y a ≥ layer then y a + 1 else layer) := by
      split_ifs with h <;> omega
    refine ⟨hstep.1.trans hle, ?_⟩
    rintro u (_ | ⟨_, hu⟩)
    · exact hstep.2.trans_le hle
    · exact hall u hu

lemma layerAbove_nonneg (g : LayeredGraph) (v : ℕ) : 0 ≤ g.layerAbove v :=
  (foldl_layer g.y_value (g.outgoing_vertices v) 0).1

lemma lt_layerAbove {u : ℕ} (hu : u ∈ g.outgoing_vertices v) : g.y_value u < g.layerAbove v :=
  (foldl_layer g.y_value (g.outgoing_vertices v) 0).2 u hu

def layerFor (g : LayeredGraph) (width : ℕ) (ordered : List ℕ) (v : ℕ) : ℤ :=
  if g.layerWidth ordered (g.layerAbove v) < width then g.layerAbove v else g.layerAbove v + 1

lemma layerAbove_le (g : LayeredGraph) (width : ℕ) (ordered : List ℕ) (v : ℕ) :
    g.layerAbove v ≤ g.layerFor width ordered v := by
  unfold layerFor
  split_ifs
  · exact le_rfl
  · exact (lt_add_one _).le

lemma y_value_placeCandidate (g : LayeredGraph) (width : ℕ) (ordered : List ℕ) (v : ℕ) :
    (g.placeCandidate width ordered v).y_value =
      Function.update g.y_value v (g.layerFor width ordered v) := rfl

lemma Placed.place (h : g.Placed ordered) (hv : v ∉ ordered)
    (hout : ∀ u ∈ g.outgoing_vertices v, u ∈ ordered) :
    (g.placeCandidate width ordered v).Placed (ordered ++ [v]) := by
  have hy : (g.placeCandidate width ordered v).y_value v = g.layerFor width ordered v := by
    rw [y_value_placeCandidate, Function.update_self]
  have hsame {u : ℕ} (hu : u ∈ ordered) :
      (g.placeCandidate width ordered v).y_value u = g.y_value u := by
    rw [y_value_placeCandidate, Function.update_of_ne fun h : u = v => hv (h ▸ hu)]
  have hle := layerAbove_le g width ordered v
  refine ⟨fun w hw => ?_, fun w hw u hu => ?_⟩
  · rcases List.mem_append.mp hw with hw | hw
    · rw [hsame hw]
      exact h.nonneg w hw
    · rw [List.mem_singleton.mp hw, hy]
      exact (layerAbove_nonneg g v).trans hle
  · rcases List.mem_append.mp hw with hw | hw
    · obtain ⟨hu, hlt⟩ := h.falling w hw u hu
      rw [hsame hw, hsame hu]
      exact ⟨List.mem_append_left _ hu, hlt⟩
    · cases List.mem_singleton.mp hw
      have hu : u ∈ g.outgoing_vertices v := hu
      rw [hy, hsame (hout u hu)]
      exact ⟨List.mem_append_left _ (hout u hu), (lt_layerAbove hu).trans_le hle⟩

lemma placeAll_eq (width : ℕ) (vs ordered : List ℕ) (g : LayeredGraph) :
    ∃ y, placeAll width vs ordered g = { g with y_value := y } := by
  induction vs generalizing ordered g with
  | nil => exact ⟨g.y_value, rfl⟩
  | cons v vs ih => exact ih (ordered ++ [v]) (g.placeCandidate width ordered v)

lemma Placed.placeAll (h : g.Placed ordered) (hnodup : (ordered ++ vs).Nodup)
    (hready : g.Ready ordered vs) : (placeAll width vs ordered g).Placed (ordered ++ vs) := by
  induction vs generalizing g ordered with
  | nil => rwa [List.append_nil]
  | cons v vs ih =>
    have hv : v ∉ ordered := fun hv =>
      (List.nodup_append.mp hnodup).2.2 v hv v List.mem_cons_self rfl
    rw [List.append_cons] at hnodup ⊢
    exact ih (h.place hv hready.head) hnodup hready.tail

lemma layerWidth_place (g : LayeredGraph) (width : ℕ) (hv : v ∉ ordered) (layer : ℤ) :
    (g.placeCandidate width ordered v).layerWidth (ordered ++ [v]) layer =
      g.layerWidth ordered layer + if g.layerFor width ordered v = layer then 1 else 0 := by
  unfold layerWidth
  rw [List.countP_append, y_value_placeCandidate]
  congr 1
  · refine List.countP_congr fun u hu => ?_
    rw [Function.update_of_ne fun h : u = v => hv (h ▸ hu)]
  · rw [List.countP_singleton, Function.update_self]
    simp only [decide_eq_true_eq]

lemma layerWidth_le_placeAll (width : ℕ) (hnodup : (ordered ++ vs).Nodup) (layer : ℤ) :
    g.layerWidth ordered layer ≤ (placeAll width vs ordered g).layerWidth (ordered ++ vs) layer := by
  induction vs generalizing g ordered with
  | nil => rw [List.append_nil]; rfl
  | cons v vs ih =>
    have hv : v ∉ ordered := fun hv =>
      (List.nodup_append.mp hnodup).2.2 v hv v List.mem_cons_self rfl
    rw [List.append_cons] at hnodup ⊢
    refine le_trans ?_ (ih hnodup)
    rw [layerWidth_place g width hv]
    exact Nat.le_add_right _ _

lemma room_iff : g.layerWidth ordered (g.layerFor width ordered v) < width ↔
    g.layerWidth ordered (g.layerAbove v) < width ∨
      g.layerWidth ordered (g.layerAbove v + 1) < width := by
  unfold layerFor
  split_ifs with h
  · exact iff_of_true h (.inl h)
  · exact (or_iff_right h).symm

lemma layerWidth_placeAll_iff (hnodup : (ordered ++ vs).Nodup)
    (h : ∀ layer, g.layerWidth ordered layer ≤ width) :
    (∀ layer, (placeAll width vs ordered g).layerWidth (ordered ++ vs) layer ≤ width) ↔
      FindsRoom width vs ordered g := by
  induction vs generalizing g ordered with
  | nil =>
    rw [List.append_nil]
    exact iff_of_true h trivial
  | cons v vs ih =>
    have hv : v ∉ ordered := fun hv =>
      (List.nodup_append.mp hnodup).2.2 v hv v List.mem_cons_self rfl
    rw [List.append_cons] at hnodup ⊢
    have hwidth := layerWidth_place g width hv
    unfold FindsRoom
    rw [← room_iff]
    by_cases hroom : g.layerWidth ordered (g.layerFor width ordered v) < width
    · rw [and_iff_right hroom]
      refine ih hnodup fun layer => ?_
      rw [hwidth]
      split_ifs with hl
      · rw [← hl]
        exact hroom
      · exact h layer
    · -- the layer stays too wide
      refine iff_of_false (fun hall => hroom ?_) fun hall => hroom hall.1
      have hle := (layerWidth_le_placeAll width hnodup
        (g.layerFor width ordered v)).trans (hall _)
      rwa [hwidth, if_pos rfl] at hle

lemma Labelled.key_ne_zero (h : g.Labelled (g.num_vertices + 1)) (hv : v < g.num_vertices) :
    g.key v ≠ 0 := by
  intro h0
  have hlt := h.numbered.lt_of_zero (List.mem_range.mpr hv) h0
  push_cast at hlt
  exact lt_irrefl _ hlt

lemma perm_unorderedList (g : LayeredGraph) :
    g.unorderedList.reverse.Perm (List.range g.num_vertices) :=
  (List.reverse_perm _).trans (List.perm_insertionSort _ _)

lemma unorderedList_sorted (g : LayeredGraph) :
    g.unorderedList.reverse.Pairwise fun a b => g.key b ≤ g.key a := by
  have htotal : Std.Total fun a b => g.key a ≤ g.key b := ⟨fun a b => le_total _ _⟩
  have htrans : IsTrans ℕ fun a b => g.key a ≤ g.key b := ⟨fun _ _ _ => le_trans⟩
  exact List.pairwise_reverse.mpr (List.pairwise_insertionSort _ _)

lemma Labelled.ready (h : g.Labelled (g.num_vertices + 1))
    (hout : Lists Edge.source_vertex Edge.destination_vertex g.edges g.outgoing_vertices)
    (hdestination : ∀ e ∈ g.edges, e.destination_vertex < g.num_vertices) :
    g.Ready [] g.unorderedList.reverse := by
  intro before v after heq u hu
  obtain ⟨e, he, hs, hd⟩ := hout.mem_iff.mp hu
  have hlt : u < g.num_vertices := hd ▸ hdestination e he
  have hrise := (h.rising u (h.key_ne_zero hlt) v (h.incoming.mem_iff.mpr ⟨e, he, hd, hs⟩)).2
  have hmem : u ∈ before ++ v :: after := by
    rw [← heq]
    exact (perm_unorderedList g).mem_iff.mpr (List.mem_range.mpr hlt)
  rcases List.mem_append.mp hmem with hb | hb
  · exact hb
  · have hsorted := unorderedList_sorted g
    rw [heq, List.pairwise_append] at hsorted
    rcases List.mem_cons.mp hb with rfl | ha
    · exact absurd hrise (lt_irrefl _)
    · exact absurd hrise (not_lt.mpr ((List.pairwise_cons.mp hsorted.2.1).1 u ha))

lemma le_foldl_max (y : ℕ → ℤ) (us : List ℕ) (n : ℤ) :
    n ≤ us.foldl (fun n v => max n (y v)) n ∧
      ∀ u ∈ us, y u ≤ us.foldl (fun n v => max n (y v)) n := by
  induction us generalizing n with
  | nil => exact ⟨le_rfl, fun u hu => absurd hu List.not_mem_nil⟩
  | cons a us ih =>
    obtain ⟨hle, hall⟩ := ih (max n (y a))
    refine ⟨(le_max_left _ _).trans hle, ?_⟩
    rintro u (_ | ⟨_, hu⟩)
    · exact (le_max_right _ _).trans hle
    · exact hall u hu

/-- The layering ends, every vertex has one of the layers, the source of every edge is above its
destination, and no layer has more vertices than the width. -/
def Layered (g : LayeredGraph) (width : ℕ) (outcome : Option (ℤ × LayeredGraph)) : Prop :=
  ∃ layers g', outcome = some (layers, g') ∧
    (∀ v < g.num_vertices, 0 ≤ g'.y_value v ∧ g'.y_value v ≤ layers) ∧
    (∀ e ∈ g.edges, g'.y_value e.destination_vertex < g'.y_value e.source_vertex) ∧
    ∀ layer, g'.layerWidth (List.range g.num_vertices) layer ≤ width

/-- Each vertex finds room when it is placed, from the highest label down. -/
def Roomy (address : ℕ → ℕ) (width : ℕ) (g : LayeredGraph) : Prop :=
  ∃ labelled, g.assignLabels address = some labelled ∧
    FindsRoom width labelled.unorderedList.reverse [] labelled

lemma layerPasses_eq (width : ℕ) (h : g.Ready [] g.unorderedList.reverse) {fuel : ℕ} (hfuel : 2 ≤ fuel) :
    layerPasses width fuel g.unorderedList [] g =
      some (placeAll width g.unorderedList.reverse [] g) := by
  obtain ⟨fuel, rfl⟩ := Nat.exists_eq_add_of_le' hfuel
  unfold layerPasses
  by_cases hnil : g.unorderedList = []
  · rw [if_pos hnil, hnil]
    rfl
  · rw [if_neg hnil, layerPass_eq h]
    unfold layerPasses
    exact if_pos rfl

lemma CoffmanGrahamLayering_spec (address : ℕ → ℕ) (width : ℕ) {fuel : ℕ} (h : g.WellFormed)
    (hacyclic : ¬Cyclic (ends Edge.source_vertex Edge.destination_vertex g.edges))
    (hfuel : 2 ≤ fuel) :
    ∃ layers g', g.CoffmanGrahamLayering address width fuel = some (layers, g') ∧
      (∀ v < g.num_vertices, 0 ≤ g'.y_value v ∧ g'.y_value v ≤ layers) ∧
      (∀ e ∈ g.edges, g'.y_value e.destination_vertex < g'.y_value e.source_vertex) ∧
      ((∀ layer, g'.layerWidth (List.range g.num_vertices) layer ≤ width) ↔
        g.Roomy address width) := by
  obtain ⟨key, incoming, hlabels, hl⟩ := assignLabels_spec address h hacyclic
  let labelled := g.withLabels key incoming
  let vertices := labelled.unorderedList.reverse
  have hready : labelled.Ready [] vertices := hl.ready h.agrees.outgoing h.destination
  have hperm : vertices.Perm (List.range g.num_vertices) := perm_unorderedList labelled
  have hnodup : ([] ++ vertices).Nodup := hperm.nodup_iff.mpr List.nodup_range
  have hnone : labelled.Placed [] :=
    ⟨fun v hv => absurd hv List.not_mem_nil, fun v hv => absurd hv List.not_mem_nil⟩
  have hpasses := layerPasses_eq width hready hfuel
  have hplaced : (placeAll width vertices [] labelled).Placed vertices :=
    hnone.placeAll hnodup hready
  have hwidths : (∀ layer, (placeAll width vertices [] labelled).layerWidth vertices layer ≤ width) ↔
      FindsRoom width vertices [] labelled :=
    layerWidth_placeAll_iff hnodup fun layer => Nat.zero_le _
  obtain ⟨y, hy⟩ := placeAll_eq width vertices [] labelled
  rw [hy] at hpasses hplaced hwidths
  have hmem {v : ℕ} (hv : v < g.num_vertices) : v ∈ vertices :=
    hperm.mem_iff.mpr (List.mem_range.mpr hv)
  refine ⟨(List.range g.num_vertices).foldl (fun n v => max n (y v)) 0,
    { labelled with y_value := y }, ?_, fun v hv => ⟨hplaced.nonneg v (hmem hv), ?_⟩,
    fun e he => ?_, ?_⟩
  · unfold CoffmanGrahamLayering
    rw [hlabels, Option.bind_eq_bind, Option.bind_some, hpasses]
    rfl
  · exact (le_foldl_max y (List.range g.num_vertices) 0).2 v (List.mem_range.mpr hv)
  · exact (hplaced.falling e.source_vertex (hmem (h.source e he)) e.destination_vertex
      (h.agrees.outgoing.mem_iff.mpr ⟨e, he, rfl, rfl⟩)).2
  · unfold Roomy
    rw [hlabels]
    simp only [Option.some.injEq, exists_eq_left']
    rw [← hwidths]
    unfold layerWidth
    exact forall_congr' fun layer => by rw [hperm.countP_eq]

/-- For every acyclic graph that is built, the layering is as documented exactly if each vertex
finds room when it is placed. -/
theorem CoffmanGrahamLayering_layered_iff {fuel : ℕ} (h : Built g)
    (hacyclic : ¬Cyclic (ends Edge.source_vertex Edge.destination_vertex g.edges))
    (hfuel : 2 ≤ fuel) :
    Layered g width (g.CoffmanGrahamLayering address width fuel) ↔ g.Roomy address width := by
  obtain ⟨layers, g', heq, hlayers, hedges, hwidths⟩ :=
    CoffmanGrahamLayering_spec address width h.wellFormed hacyclic hfuel
  rw [← hwidths]
  constructor
  · rintro ⟨_, _, heq', -, -, hw⟩
    rw [heq] at heq'
    cases heq'
    exact hw
  · exact fun hw => ⟨layers, g', heq, hlayers, hedges, hw⟩

/-- An edge from 0 to 1 and one from 0 to 2 -/
theorem CoffmanGrahamLayering_layered_fork :
    let g := ((empty.addVertex.addVertex.addVertex).addEdge 0 1).addEdge 0 2
    Layered g 2 (g.CoffmanGrahamLayering id 2 2) ↔ g.Roomy id 2 := by
  refine CoffmanGrahamLayering_layered_iff
    (((Built.empty.addVertex.addVertex.addVertex).addEdge (by decide) (by decide)).addEdge
      (by decide) (by decide)) (not_cyclic_of_lt (x := Nat.cast) fun u v hv => ?_) (by decide)
  obtain ⟨e, he, rfl, rfl⟩ := mem_ends.mp hv
  revert e
  decide

/-- Three vertices without an edge and a width of 1: the third one goes into layer 1 too. -/
theorem not_CoffmanGrahamLayering_layered :
    let g := empty.addVertex.addVertex.addVertex
    Built g ∧ ¬Cyclic (ends Edge.source_vertex Edge.destination_vertex g.edges) ∧
      ∀ fuel, ¬Layered g 1 (g.CoffmanGrahamLayering id 1 fuel) := by
  refine ⟨Built.empty.addVertex.addVertex.addVertex,
    not_cyclic_of_lt (x := Nat.cast) fun u v hv => absurd hv List.not_mem_nil, ?_⟩
  rintro (_ | _ | fuel) ⟨layers, g', heq, -, -, hw⟩
  · cases heq
  · cases heq
  · cases heq
    exact absurd (hw 1) (by decide)

end OISA.Cpp.LayeredGraph
