import Mathlib.Data.List.Perm.Basic
import Mathlib.Tactic

/-!
# Directed graphs

Adjacency lists, trails along one edge of each node, and the search for a cycle.
-/

/-!
## Adjacency lists

A list for each vertex of what the edges of the vertex lead to, in any order and with an entry for
each edge, while edges come and go.
-/

namespace OISA.Lib

variable {ε α β : Type*} [DecidableEq α]

/-- What the edges with this end lead to -/
def ends (here : ε → α) (there : ε → β) (edges : List ε) (v : α) : List β :=
  (edges.filter (here · = v)).map there

def Lists (here : ε → α) (there : ε → β) (edges : List ε) (lists : α → List β) : Prop :=
  ∀ v, (lists v).Perm (ends here there edges v)

variable {here : ε → α} {there : ε → β} {edges edges' : List ε} {e : ε} {v : α}

lemma ends_cons_self : ends here there (e :: edges) (here e) =
    there e :: ends here there edges (here e) := by
  unfold ends
  rw [List.filter_cons_of_pos (by simp), List.map_cons]

lemma ends_cons_of_ne (h : here e ≠ v) :
    ends here there (e :: edges) v = ends here there edges v := by
  unfold ends
  rw [List.filter_cons_of_neg (by simpa using h)]

lemma mem_ends {b : β} : b ∈ ends here there edges v ↔ ∃ e ∈ edges, here e = v ∧ there e = b := by
  unfold ends
  simp [and_assoc]

namespace Lists

variable {lists : α → List β}

lemma mem_iff (h : Lists here there edges lists) {b : β} :
    b ∈ lists v ↔ ∃ e ∈ edges, here e = v ∧ there e = b :=
  (h v).mem_iff.trans mem_ends

lemma perm (h : Lists here there edges lists) (hp : edges.Perm edges') :
    Lists here there edges' lists :=
  fun v => (h v).trans ((hp.filter _).map _)

lemma append (h : Lists here there edges lists) (e : ε) :
    Lists here there (e :: edges)
      (Function.update lists (here e) (lists (here e) ++ [there e])) := by
  intro v
  by_cases hv : v = here e
  · rw [hv, Function.update_self, ends_cons_self]
    exact (List.perm_append_singleton _ _).trans ((h (here e)).cons _)
  · rw [Function.update_of_ne hv, ends_cons_of_ne (Ne.symm hv)]
    exact h v

lemma mem_of_cons (h : Lists here there (e :: edges) lists) : there e ∈ lists (here e) :=
  h.mem_iff.mpr ⟨e, List.mem_cons_self, rfl, rfl⟩

variable [DecidableEq β]

lemma erase (h : Lists here there (e :: edges) lists) :
    Lists here there edges
      (Function.update lists (here e) ((lists (here e)).erase (there e))) := by
  intro v
  by_cases hv : v = here e
  · rw [hv, Function.update_self]
    have hperm := (h (here e)).erase (there e)
    rwa [ends_cons_self, List.erase_cons_head] at hperm
  · rw [Function.update_of_ne hv]
    have hperm := h v
    rwa [ends_cons_of_ne (Ne.symm hv)] at hperm

end Lists

end OISA.Lib

/-!
## Trails of a partial function

The trail from a node goes to the next node until it is at its target or a next node is missing.
-/

namespace OISA.Lib

variable {α : Type*}

/-- The hops of the trail from a node, and whether it arrives at the target -/
inductive Trail (next : α → Option α) (target : α) : α → List (α × α) → Bool → Prop
  | arrived : Trail next target target [] true
  | missing {x} (h : x ≠ target) (hn : next x = none) : Trail next target x [] false
  | hop {x y hops arrives} (h : x ≠ target) (hn : next x = some y)
      (hw : Trail next target y hops arrives) : Trail next target x ((x, y) :: hops) arrives

namespace Trail

variable {next : α → Option α} {target x y : α} {hops hops' : List (α × α)} {arrives arrives' : Bool}

lemma unique (h : Trail next target x hops arrives) (h' : Trail next target x hops' arrives') :
    hops = hops' ∧ arrives = arrives' := by
  induction h generalizing hops' with
  | arrived =>
    cases h' with
    | arrived => exact ⟨rfl, rfl⟩
    | missing hne => exact absurd rfl hne
    | hop hne => exact absurd rfl hne
  | missing hne hn =>
    cases h' with
    | arrived => exact absurd rfl hne
    | missing => exact ⟨rfl, rfl⟩
    | hop _ hn' =>
      rw [hn] at hn'
      cases hn'
  | hop hne hn _ ih =>
    cases h' with
    | arrived => exact absurd rfl hne
    | missing _ hn' =>
      rw [hn] at hn'
      cases hn'
    | hop _ hn' hw' =>
      rw [hn] at hn'
      cases hn'
      obtain ⟨rfl, rfl⟩ := ih hw'
      exact ⟨rfl, rfl⟩

lemma exists_hop (h : Trail next target x hops arrives) (hne : x ≠ target) (hn : next x = some y) :
    ∃ rest, hops = (x, y) :: rest ∧ Trail next target y rest arrives := by
  cases h with
  | arrived => exact absurd rfl hne
  | missing _ hn' =>
    rw [hn] at hn'
    cases hn'
  | hop _ hn' hw =>
    rw [hn] at hn'
    cases hn'
    exact ⟨_, rfl, hw⟩

lemma of_mem (h : Trail next target x hops arrives) {hop : α × α} (hmem : hop ∈ hops) :
    hop.1 ≠ target ∧ next hop.1 = some hop.2 ∧
      ∃ rest, Trail next target hop.2 rest arrives ∧ rest.length < hops.length := by
  induction h with
  | arrived => cases hmem
  | missing => cases hmem
  | hop hne hn hw ih =>
    rcases List.mem_cons.mp hmem with rfl | hmem
    · exact ⟨hne, hn, _, hw, Nat.lt_succ_self _⟩
    · obtain ⟨hne', hn', rest, hrest, hlt⟩ := ih hmem
      exact ⟨hne', hn', rest, hrest, Nat.lt_succ_of_lt hlt⟩

lemma fst_ne (h : Trail next target y hops arrives) (hne : x ≠ target) (hn : next x = some y)
    {hop : α × α} (hmem : hop ∈ hops) : hop.1 ≠ x := by
  rintro rfl
  obtain ⟨-, hn', rest, hrest, hlt⟩ := h.of_mem hmem
  rw [hn] at hn'
  cases hn'
  rw [(h.unique hrest).1] at hlt
  exact Nat.lt_irrefl _ hlt

lemma fst_ne_snd (h : Trail next target x hops arrives) {hop : α × α} (hmem : hop ∈ hops) :
    hop.1 ≠ hop.2 := by
  intro heq
  obtain ⟨hne, hn, rest, hrest, -⟩ := h.of_mem hmem
  have hagain := Trail.hop hne hn hrest
  rw [← heq] at hrest
  have hlength := congrArg List.length (hagain.unique hrest).1
  rw [List.length_cons] at hlength
  omega

end Trail

end OISA.Lib

/-!
## Depth-first search for a cycle

The search marks the vertices it visits and those on its stack.
-/

namespace OISA.Lib

/-- Which vertices have been visited and which are on the stack -/
structure Marks where
  visited : List ℕ
  stacked : List ℕ

def visitAll (visit : ℕ → Marks → Bool × Marks) : List ℕ → Marks → Bool × Marks
  | [], marks => (false, marks)
  | a :: as, marks =>
    let (found, marks) := if a ∈ marks.visited then (false, marks) else visit a marks
    if found then (true, marks)
    else if a ∈ marks.stacked then (true, marks)
    else visitAll visit as marks

/-- The search from a vertex, with the depth that is left -/
def traverse (adjacent : ℕ → List ℕ) : ℕ → ℕ → Marks → Bool × Marks
  | 0, _, marks => (true, marks)
  | depth + 1, v, marks =>
    let (found, marks) :=
      if v ∈ marks.visited then (false, marks)
      else visitAll (traverse adjacent depth) (adjacent v) {
        visited := v :: marks.visited
        stacked := v :: marks.stacked }
    if found then (true, marks)
    else (false, { marks with stacked := marks.stacked.filter (· ≠ v) })

def traverseAll (adjacent : ℕ → List ℕ) (depth : ℕ) : List ℕ → Marks → Bool
  | [], _ => false
  | v :: vs, marks =>
    let (found, marks) := traverse adjacent depth v marks
    if found then true else traverseAll adjacent depth vs marks

def searchCycle (adjacent : ℕ → List ℕ) (vertices : List ℕ) : Bool :=
  traverseAll adjacent (vertices.length + 1) vertices { visited := [], stacked := [] }

section Soundness

variable {adjacent : ℕ → List ℕ} {marks marks' : Marks} {v : ℕ}

abbrev Ends (adjacent : ℕ → List ℕ) (v : ℕ) : Prop := Acc (fun a b => a ∈ adjacent b) v

structure Marks.Left (adjacent : ℕ → List ℕ) (marks : Marks) : Prop where
  visited : ∀ u ∈ marks.stacked, u ∈ marks.visited
  ends : ∀ u ∈ marks.visited, u ∉ marks.stacked → Ends adjacent u

/-- A search without a cycle visits more vertices and leaves the stack as it was. -/
structure Marks.Extends (marks marks' : Marks) : Prop where
  visited : ∀ u ∈ marks.visited, u ∈ marks'.visited
  stacked : ∀ u, u ∈ marks'.stacked ↔ u ∈ marks.stacked

lemma Marks.Left.visit (h : marks.Left adjacent) (v : ℕ) :
    Marks.Left adjacent {
      visited := v :: marks.visited
      stacked := v :: marks.stacked } := by
  refine ⟨fun u hu => ?_, fun u hu hnot => ?_⟩
  · rcases List.mem_cons.mp hu with rfl | hu
    · exact List.mem_cons_self
    · exact List.mem_cons_of_mem v (h.visited u hu)
  · rw [List.mem_cons, not_or] at hnot
    exact h.ends u ((List.mem_cons.mp hu).resolve_left hnot.1) hnot.2

lemma visitAll_spec {visit : ℕ → Marks → Bool × Marks}
    (hvisit : ∀ a marks marks', marks.Left adjacent → a ∉ marks.stacked →
      visit a marks = (false, marks') →
        marks'.Left adjacent ∧ marks.Extends marks' ∧ a ∈ marks'.visited)
    {as : List ℕ} (h : marks.Left adjacent) (hrun : visitAll visit as marks = (false, marks')) :
    marks'.Left adjacent ∧ marks.Extends marks' ∧ ∀ a ∈ as, Ends adjacent a := by
  induction as generalizing marks with
  | nil =>
    obtain ⟨_, rfl⟩ := Prod.mk.inj hrun
    exact ⟨h, ⟨fun _ hu => hu, fun _ => Iff.rfl⟩, fun a ha => absurd ha List.not_mem_nil⟩
  | cons a as ih =>
    rw [visitAll] at hrun
    cases hstep : if a ∈ marks.visited then (false, marks) else visit a marks with
    | mk found marks₁ =>
      rw [hstep] at hrun
      dsimp only at hrun
      cases found with
      | true => exact absurd (Prod.mk.inj hrun).1.symm Bool.false_ne_true
      | false =>
        rw [if_neg Bool.false_ne_true] at hrun
        by_cases hstacked : a ∈ marks₁.stacked
        · rw [if_pos hstacked] at hrun
          exact absurd (Prod.mk.inj hrun).1.symm Bool.false_ne_true
        rw [if_neg hstacked] at hrun
        have hspec : marks₁.Left adjacent ∧ marks.Extends marks₁ ∧ a ∈ marks₁.visited := by
          by_cases hvisited : a ∈ marks.visited
          · rw [if_pos hvisited] at hstep
            obtain ⟨_, rfl⟩ := Prod.mk.inj hstep
            exact ⟨h, ⟨fun _ hu => hu, fun _ => Iff.rfl⟩, hvisited⟩
          · rw [if_neg hvisited] at hstep
            exact hvisit a marks marks₁ h (fun hin => hvisited (h.visited a hin)) hstep
        obtain ⟨h₁, hextends, ha⟩ := hspec
        obtain ⟨h', hextends', hends⟩ := ih h₁ hrun
        refine ⟨h', ⟨fun u hu => hextends'.visited u (hextends.visited u hu),
          fun u => (hextends'.stacked u).trans (hextends.stacked u)⟩, fun b hb => ?_⟩
        rcases List.mem_cons.mp hb with rfl | hb
        · exact h₁.ends b ha hstacked
        · exact hends b hb

lemma traverse_spec {depth : ℕ} (h : marks.Left adjacent) (hv : v ∉ marks.stacked)
    (hrun : traverse adjacent depth v marks = (false, marks')) :
    marks'.Left adjacent ∧ marks.Extends marks' ∧ v ∈ marks'.visited := by
  induction depth generalizing v marks marks' with
  | zero => exact absurd (Prod.mk.inj hrun).1.symm Bool.false_ne_true
  | succ depth ih =>
    rw [traverse] at hrun
    cases hstep : if v ∈ marks.visited then (false, marks)
        else visitAll (traverse adjacent depth) (adjacent v) {
          visited := v :: marks.visited
          stacked := v :: marks.stacked } with
    | mk found marks₁ =>
      rw [hstep] at hrun
      dsimp only at hrun
      cases found with
      | true => exact absurd (Prod.mk.inj hrun).1.symm Bool.false_ne_true
      | false =>
        obtain ⟨_, rfl⟩ := Prod.mk.inj hrun
        by_cases hvisited : v ∈ marks.visited
        · rw [if_pos hvisited] at hstep
          obtain ⟨_, rfl⟩ := Prod.mk.inj hstep
          have hfilter : ∀ u, u ∈ marks.stacked.filter (· ≠ v) ↔ u ∈ marks.stacked := by
            intro u
            rw [List.mem_filter, decide_eq_true_eq, and_iff_left_iff_imp]
            rintro hu rfl
            exact hv hu
          refine ⟨⟨fun u hu => h.visited u ((hfilter u).mp hu), fun u hu hnot => ?_⟩,
            ⟨fun u hu => hu, hfilter⟩, hvisited⟩
          exact h.ends u hu fun hin => hnot ((hfilter u).mpr hin)
        · rw [if_neg hvisited] at hstep
          obtain ⟨h₁, hextends, hends⟩ :=
            visitAll_spec (fun a m m' hm ha hr => ih hm ha hr) (h.visit v) hstep
          -- all adjacent vertices end, so the vertex does
          have hv' : Ends adjacent v := Acc.intro v hends
          have hfilter : ∀ u, u ∈ marks₁.stacked.filter (· ≠ v) ↔ u ∈ marks.stacked := by
            intro u
            rw [List.mem_filter, decide_eq_true_eq, hextends.stacked, List.mem_cons]
            constructor
            · rintro ⟨hu, hne⟩
              exact hu.resolve_left hne
            · intro hu
              refine ⟨.inr hu, ?_⟩
              rintro rfl
              exact hv hu
          refine ⟨⟨fun u hu => ?_, fun u hu hnot => ?_⟩, ⟨fun u hu => ?_, hfilter⟩, ?_⟩
          · exact h₁.visited u (List.mem_of_mem_filter hu)
          · by_cases hne : u = v
            · rw [hne]
              exact hv'
            · refine h₁.ends u hu fun hin => hnot ?_
              exact List.mem_filter.mpr ⟨hin, decide_eq_true hne⟩
          · exact hextends.visited u (List.mem_cons_of_mem v hu)
          · exact hextends.visited v List.mem_cons_self

lemma Ends.no_path (h : Ends adjacent v) :
    ¬Relation.TransGen (fun a b => a ∈ adjacent b) v v := by
  have hpaths := h.transGen
  induction hpaths with
  | intro v _ ih =>
    intro hv
    exact ih v hv (h.inv_of_transGen hv) hv

lemma Marks.left_nil : Marks.Left adjacent { visited := [], stacked := [] } :=
  ⟨fun _ hu => absurd hu List.not_mem_nil, fun _ hu => absurd hu List.not_mem_nil⟩

lemma ends_of_traverseAll {depth : ℕ} {vs : List ℕ} (hleft : marks.Left adjacent)
    (hempty : ∀ u, u ∉ marks.stacked) (h : traverseAll adjacent depth vs marks = false) :
    ∀ v ∈ vs, Ends adjacent v := by
  induction vs generalizing marks with
  | nil => exact fun v hv => absurd hv List.not_mem_nil
  | cons v vs ih =>
    rw [traverseAll] at h
    cases hstep : traverse adjacent depth v marks with
    | mk found marks₁ =>
      rw [hstep] at h
      cases found with
      | true => exact absurd h.symm Bool.false_ne_true
      | false =>
        obtain ⟨h₁, hextends, hv⟩ := traverse_spec hleft (hempty v) hstep
        have hempty₁ : ∀ u, u ∉ marks₁.stacked := fun u hu => hempty u ((hextends.stacked u).mp hu)
        have hrest := ih h₁ hempty₁ h
        intro u hu
        rcases List.mem_cons.mp hu with rfl | hu
        · exact h₁.ends u hv (hempty₁ u)
        · exact hrest u hu

/-- If the search finds no cycle, every path from the vertices ends. -/
theorem ends_of_searchCycle {vertices : List ℕ} (h : searchCycle adjacent vertices = false) :
    ∀ v ∈ vertices, Ends adjacent v :=
  ends_of_traverseAll Marks.left_nil (fun _ => List.not_mem_nil) h

/-! ### Cycles that are found -/

variable {vertices : List ℕ}

def Marks.fresh (vertices : List ℕ) (marks : Marks) : ℕ :=
  (vertices.filter (· ∉ marks.visited)).length

lemma Marks.Extends.fresh_le (h : marks.Extends marks') :
    marks'.fresh vertices ≤ marks.fresh vertices := by
  refine (List.monotone_filter_right vertices fun u hu => ?_).length_le
  rw [decide_eq_true_eq] at hu ⊢
  exact fun hin => hu (h.visited u hin)

lemma Marks.fresh_visit (hv : v ∈ vertices) (hnot : v ∉ marks.visited) (stacked : List ℕ) :
    Marks.fresh vertices { visited := v :: marks.visited, stacked } < marks.fresh vertices := by
  have hfilter : vertices.filter (· ∉ v :: marks.visited) =
      (vertices.filter (· ∉ marks.visited)).filter (· ≠ v) := by
    rw [List.filter_filter]
    refine List.filter_congr fun u _ => ?_
    rw [← Bool.decide_and, decide_eq_decide, List.mem_cons, not_or]
  unfold Marks.fresh
  dsimp only
  rw [hfilter, List.length_filter_lt_length_iff_exists]
  exact ⟨v, List.mem_filter.mpr ⟨hv, decide_eq_true hnot⟩, by simp⟩

/-- A path from a vertex to itself -/
def Cyclic (adjacent : ℕ → List ℕ) : Prop :=
  ∃ v, Relation.TransGen (fun a b => b ∈ adjacent a) v v

lemma visitAll_found {depth : ℕ} (hclosed : ∀ u ∈ vertices, ∀ a ∈ adjacent u, a ∈ vertices)
    (hvisit : ∀ a marks marks', marks.Left adjacent → a ∈ vertices →
      (∀ u ∈ marks.stacked, Relation.TransGen (fun a b => b ∈ adjacent a) u a) →
        marks.fresh vertices < depth → traverse adjacent depth a marks = (true, marks') →
          Cyclic adjacent)
    {as : List ℕ} (hv : v ∈ vertices) (has : ∀ a ∈ as, a ∈ adjacent v)
    (h : marks.Left adjacent)
    (hpath : ∀ u ∈ marks.stacked, Relation.ReflTransGen (fun a b => b ∈ adjacent a) u v)
    (hdepth : marks.fresh vertices < depth)
    (hrun : visitAll (traverse adjacent depth) as marks = (true, marks')) : Cyclic adjacent := by
  induction as generalizing marks with
  | nil => exact absurd (Prod.mk.inj hrun).1 Bool.false_ne_true
  | cons a as ih =>
    have hedge := has a List.mem_cons_self
    rw [visitAll] at hrun
    cases hstep : if a ∈ marks.visited then (false, marks) else traverse adjacent depth a marks with
    | mk found marks₁ =>
      rw [hstep] at hrun
      dsimp only at hrun
      cases found with
      | true =>
        by_cases hvisited : a ∈ marks.visited
        · rw [if_pos hvisited] at hstep
          exact absurd (Prod.mk.inj hstep).1 Bool.false_ne_true
        · rw [if_neg hvisited] at hstep
          exact hvisit a marks marks₁ h (hclosed v hv a hedge)
            (fun u hu => .tail' (hpath u hu) hedge) hdepth hstep
      | false =>
        rw [if_neg Bool.false_ne_true] at hrun
        have hspec : marks₁.Left adjacent ∧ marks.Extends marks₁ := by
          by_cases hvisited : a ∈ marks.visited
          · rw [if_pos hvisited] at hstep
            obtain ⟨_, rfl⟩ := Prod.mk.inj hstep
            exact ⟨h, ⟨fun _ hu => hu, fun _ => Iff.rfl⟩⟩
          · rw [if_neg hvisited] at hstep
            obtain ⟨h₁, hextends, _⟩ :=
              traverse_spec h (fun hin => hvisited (h.visited a hin)) hstep
            exact ⟨h₁, hextends⟩
        obtain ⟨h₁, hextends⟩ := hspec
        by_cases hstacked : a ∈ marks₁.stacked
        · -- the edge closes a path from a vertex on the stack
          exact ⟨a, .tail' (hpath a ((hextends.stacked a).mp hstacked)) hedge⟩
        · rw [if_neg hstacked] at hrun
          exact ih (fun b hb => has b (List.mem_cons_of_mem a hb)) h₁
            (fun u hu => hpath u ((hextends.stacked u).mp hu))
            (hextends.fresh_le.trans_lt hdepth) hrun

lemma traverse_found (hclosed : ∀ u ∈ vertices, ∀ a ∈ adjacent u, a ∈ vertices) {depth : ℕ}
    (h : marks.Left adjacent) (hv : v ∈ vertices)
    (hpath : ∀ u ∈ marks.stacked, Relation.TransGen (fun a b => b ∈ adjacent a) u v)
    (hdepth : marks.fresh vertices < depth)
    (hrun : traverse adjacent depth v marks = (true, marks')) : Cyclic adjacent := by
  induction depth generalizing v marks marks' with
  | zero => omega
  | succ depth ih =>
    rw [traverse] at hrun
    cases hstep : if v ∈ marks.visited then (false, marks)
        else visitAll (traverse adjacent depth) (adjacent v) {
          visited := v :: marks.visited
          stacked := v :: marks.stacked } with
    | mk found marks₁ =>
      rw [hstep] at hrun
      cases found with
      | false => exact absurd (Prod.mk.inj hrun).1 Bool.false_ne_true
      | true =>
        by_cases hvisited : v ∈ marks.visited
        · rw [if_pos hvisited] at hstep
          exact absurd (Prod.mk.inj hstep).1 Bool.false_ne_true
        rw [if_neg hvisited] at hstep
        have hfresh := Marks.fresh_visit hv hvisited (v :: marks.stacked)
        refine visitAll_found hclosed (fun a m m' hm ha hp hd hr => ih hm ha hp hd hr) hv
          (fun a ha => ha) (h.visit v) ?_ (by omega) hstep
        intro u hu
        rcases List.mem_cons.mp hu with rfl | hu
        · exact .refl
        · exact (hpath u hu).to_reflTransGen

lemma cyclic_of_traverseAll (hclosed : ∀ u ∈ vertices, ∀ a ∈ adjacent u, a ∈ vertices)
    {depth : ℕ} {vs : List ℕ} (hdepth : vertices.length < depth) (hvs : ∀ v ∈ vs, v ∈ vertices)
    (hleft : marks.Left adjacent) (hempty : ∀ u, u ∉ marks.stacked)
    (h : traverseAll adjacent depth vs marks = true) : Cyclic adjacent := by
  induction vs generalizing marks with
  | nil => exact absurd h Bool.false_ne_true
  | cons v vs ih =>
    have hfresh : marks.fresh vertices < depth := (List.length_filter_le _ _).trans_lt hdepth
    rw [traverseAll] at h
    cases hstep : traverse adjacent depth v marks with
    | mk found marks₁ =>
      rw [hstep] at h
      cases found with
      | true =>
        exact traverse_found hclosed hleft (hvs v List.mem_cons_self)
          (fun u hu => absurd hu (hempty u)) hfresh hstep
      | false =>
        obtain ⟨h₁, hextends, _⟩ := traverse_spec hleft (hempty v) hstep
        exact ih (fun u hu => hvs u (List.mem_cons_of_mem v hu)) h₁
          (fun u hu => hempty u ((hextends.stacked u).mp hu)) h

/-- A cycle that the search finds is there: the depth never runs out. -/
theorem cyclic_of_searchCycle (hclosed : ∀ u ∈ vertices, ∀ a ∈ adjacent u, a ∈ vertices)
    (h : searchCycle adjacent vertices = true) : Cyclic adjacent :=
  cyclic_of_traverseAll hclosed (Nat.lt_succ_self _) (fun _ hv => hv) Marks.left_nil
    (fun _ => List.not_mem_nil) h

end Soundness

end OISA.Lib
