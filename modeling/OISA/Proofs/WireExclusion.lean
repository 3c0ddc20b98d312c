import OISA.Lib.Runs
import OISA.Net.Wires

/-!
# Exclusive use of links, lanes and source buffers

A transmission ends before the busy cycles of its wire and of its source buffer do.
-/

namespace OISA.Net

open OISA.Lib Traffic

variable {w : Wiring} {s s' : Traffic}

def Stale (s : Traffic) (b k B : ℕ) : Prop :=
  (s.lanes b k).scheduled_when = s.cycle ∧ (s.lanes b k).scheduled_buffer = some B ∧
    s.cycle ≤ (s.lanes b k).busy

/-- The transfer of the packet is about to use a decision again: it is at the head of a source
buffer of a bus, the destination buffer can take it, and a lane has a used decision for the
buffer. -/
def Reuses (w : Wiring) (s : Traffic) (p : ℕ) : Prop :=
  ∃ b D k, w.connection (s.packets p).buffer = .bus b ∧
    (s.buffers (s.packets p).buffer).packets.head? = some p ∧
    s.busDestination w b p (s.packets p).buffer = some D ∧ (s.buffers D).write_busy < s.cycle ∧
    (s.buffers D).count + (s.packets p).size ≤ w.size D ∧ k < (w.bus_lanes b).length ∧
    Stale s b k (s.packets p).buffer

/-- An earlier transmission over the same wire or from the same source buffer is over before
the later one starts. -/
def Separate (T U : Transmission) : Prop :=
  T.wire = U.wire ∨ T.source = U.source → T.last < U.start

def Wire.Of (w : Wiring) (B : ℕ) : Wire → Prop
  | .link l => w.connection B = .link l
  | .lane b _ => w.connection B = .bus b

structure Exclusion (w : Wiring) (s : Traffic) : Prop where
  wired : ∀ T ∈ s.transmissions, T.wire.Of w T.source ∧ w.isSource T.source = true
  read : ∀ T ∈ s.transmissions, T.last ≤ (s.buffers T.source).read_busy
  link : ∀ T ∈ s.transmissions, ∀ l, T.wire = .link l → T.last ≤ (s.links l).busy
  lane : ∀ T ∈ s.transmissions, ∀ b k, T.wire = .lane b k → T.last ≤ (s.lanes b k).busy
  decided : ∀ b k, (s.lanes b k).scheduled_when ≤ s.cycle
  scheduled : ∀ b k B, (s.lanes b k).scheduled_buffer = some B → B ∈ w.bus_sources b
  /-- a free lane with a decision of this cycle is for a free buffer, or for one that used the
  decision of another lane -/
  granted : ∀ b k B, (s.lanes b k).scheduled_when = s.cycle →
    (s.lanes b k).scheduled_buffer = some B → (s.lanes b k).busy < s.cycle →
      k < (w.bus_lanes b).length → (s.buffers B).read_busy < s.cycle ∨
        ∃ k' < (w.bus_lanes b).length, Stale s b k' B
  exclusive : s.transmissions.Pairwise Separate

lemma Exclusion.congr (h : Exclusion w s) (htransmissions : s'.transmissions = s.transmissions)
    (hcycle : s'.cycle = s.cycle) (hlinks : ∀ l, (s'.links l).busy = (s.links l).busy)
    (hlanes : s'.lanes = s.lanes)
    (hread : ∀ B, w.isSource B = true → (s'.buffers B).read_busy = (s.buffers B).read_busy) :
    Exclusion w s' where
  wired := by rw [htransmissions]; exact h.wired
  read T hT := by
    rw [htransmissions] at hT
    rw [hread _ (h.wired T hT).2]
    exact h.read T hT
  link T hT l hl := by
    rw [htransmissions] at hT
    rw [hlinks]
    exact h.link T hT l hl
  lane T hT := by
    rw [htransmissions] at hT
    rw [hlanes]
    exact h.lane T hT
  decided := by rw [hlanes, hcycle]; exact h.decided
  scheduled := by rw [hlanes]; exact h.scheduled
  granted b k B hwhen hB hbusy hk := by
    rw [hlanes, hcycle] at hwhen hbusy
    rw [hlanes] at hB
    have hsource := (w.bus_valid b B (h.scheduled b k B hB)).2
    rw [hread B hsource, hcycle]
    unfold Stale
    rw [hlanes, hcycle]
    exact h.granted b k B hwhen hB hbusy hk
  exclusive := by rw [htransmissions]; exact h.exclusive

lemma Exclusion.advance (h : Exclusion w s) : Exclusion w { s with cycle := s.cycle + 1 } where
  wired := h.wired
  read := h.read
  link := h.link
  lane := h.lane
  decided b k := by
    have hle := h.decided b k
    dsimp only
    omega
  scheduled := h.scheduled
  granted b k B hwhen := by
    have hle := h.decided b k
    dsimp only at hwhen
    omega
  exclusive := h.exclusive

lemma pick_spec {sources : List ℕ} {last : ℤ} {index B : ℕ}
    (h : s.pick sources last = some (index, B)) :
    B ∈ sources ∧ (s.buffers B).read_busy < s.cycle := by
  obtain ⟨i, _, hi⟩ := List.exists_of_findSome?_eq_some h
  obtain ⟨B', hB', hready⟩ := Option.bind_eq_some_iff.mp hi
  split_ifs at hready with hr
  obtain ⟨_, rfl⟩ := Prod.mk.inj (Option.some.inj hready)
  refine ⟨List.mem_of_getElem? hB', ?_⟩
  unfold ready at hr
  split at hr
  · exact absurd hr (by decide)
  · rw [Bool.and_eq_true, decide_eq_true_eq, decide_eq_true_eq] at hr
    exact hr.2

/-- Arbitration changes decisions only, and makes none that is used already. -/
structure Arbitrated (s s' : Traffic) : Prop where
  cycle : s'.cycle = s.cycle
  buffers : s'.buffers = s.buffers
  packets : s'.packets = s.packets
  transmissions : s'.transmissions = s.transmissions
  links : ∀ l, (s'.links l).busy = (s.links l).busy
  lanes : ∀ b k, (s'.lanes b k).busy = (s.lanes b k).busy
  stale : ∀ b k B, Stale s' b k B → Stale s b k B

lemma Arbitrated.refl (s : Traffic) : Arbitrated s s :=
  ⟨rfl, rfl, rfl, rfl, fun _ => rfl, fun _ _ => rfl, fun _ _ _ h => h⟩

lemma Arbitrated.trans {s₁ s₂ s₃ : Traffic} (h : Arbitrated s₁ s₂) (h' : Arbitrated s₂ s₃) :
    Arbitrated s₁ s₃ where
  cycle := h'.cycle.trans h.cycle
  buffers := h'.buffers.trans h.buffers
  packets := h'.packets.trans h.packets
  transmissions := h'.transmissions.trans h.transmissions
  links l := (h'.links l).trans (h.links l)
  lanes b k := (h'.lanes b k).trans (h.lanes b k)
  stale b k B hs := h.stale b k B (h'.stale b k B hs)

lemma setLane_self (s : Traffic) (b k : ℕ) (lane : Lane) : (s.setLane b k lane).lanes b k = lane :=
  if_pos ⟨rfl, rfl⟩

lemma setLane_of_ne (s : Traffic) {b k b' k' : ℕ} (lane : Lane) (h : ¬(b' = b ∧ k' = k)) :
    (s.setLane b k lane).lanes b' k' = s.lanes b' k' := if_neg h

/-- A new decision of a lane: none, or for a free source buffer while the lane is free. -/
lemma Exclusion.decide (h : Exclusion w s) (b k : ℕ) (found : Option ℕ) (last : ℕ → ℤ)
    (hnew : (s.lanes b k).scheduled_when < s.cycle)
    (hfound : ∀ B, found = some B → B ∈ w.bus_sources b ∧ (s.buffers B).read_busy < s.cycle ∧
      (s.lanes b k).busy < s.cycle) :
    Exclusion w { s.setLane b k { s.lanes b k with
        scheduled_when := s.cycle
        scheduled_buffer := found } with
      last_node_index := last } ∧
    Arbitrated s { s.setLane b k { s.lanes b k with
        scheduled_when := s.cycle
        scheduled_buffer := found } with
      last_node_index := last } := by
  set lane : Lane := { s.lanes b k with
    scheduled_when := s.cycle
    scheduled_buffer := found }
  have hbusy : ∀ b' k', ((s.setLane b k lane).lanes b' k').busy = (s.lanes b' k').busy := by
    intro b' k'
    by_cases hhere : b' = b ∧ k' = k
    · obtain ⟨rfl, rfl⟩ := hhere
      rw [setLane_self]
    · rw [setLane_of_ne _ _ hhere]
  have hstale : ∀ b' k' B, Stale (s.setLane b k lane) b' k' B → Stale s b' k' B := by
    rintro b' k' B ⟨hwhen, hB, hle⟩
    by_cases hhere : b' = b ∧ k' = k
    · obtain ⟨rfl, rfl⟩ := hhere
      rw [setLane_self] at hB hle
      have hlt := (hfound B hB).2.2
      exact absurd hle (not_le.mpr hlt)
    · rw [setLane_of_ne _ _ hhere] at hwhen hB hle
      exact ⟨hwhen, hB, hle⟩
  -- used decisions are of this cycle, so the lane had none
  have hkeep : ∀ b' k' B, Stale s b' k' B → Stale (s.setLane b k lane) b' k' B := by
    rintro b' k' B ⟨hwhen, hB, hle⟩
    have hhere : ¬(b' = b ∧ k' = k) := by
      rintro ⟨rfl, rfl⟩
      omega
    unfold Stale
    rw [setLane_of_ne _ _ hhere]
    exact ⟨hwhen, hB, hle⟩
  refine ⟨?_, ⟨rfl, rfl, rfl, rfl, fun _ => rfl, hbusy, hstale⟩⟩
  exact {
    wired := h.wired
    read := h.read
    link := h.link
    lane := fun T hT b' k' hwire => by
      have hle := h.lane T hT b' k' hwire
      rwa [← hbusy b' k'] at hle
    decided := fun b' k' => by
      by_cases hhere : b' = b ∧ k' = k
      · obtain ⟨rfl, rfl⟩ := hhere
        exact (congrArg Lane.scheduled_when (setLane_self s b' k' lane)).le
      · exact (congrArg Lane.scheduled_when (setLane_of_ne s lane hhere)).trans_le (h.decided b' k')
    scheduled := fun b' k' B hB => by
      by_cases hhere : b' = b ∧ k' = k
      · obtain ⟨rfl, rfl⟩ := hhere
        dsimp only at hB
        rw [setLane_self] at hB
        exact (hfound B hB).1
      · dsimp only at hB
        rw [setLane_of_ne _ _ hhere] at hB
        exact h.scheduled b' k' B hB
    granted := fun b' k' B hwhen hB hlt hk => by
      by_cases hhere : b' = b ∧ k' = k
      · obtain ⟨rfl, rfl⟩ := hhere
        dsimp only at hB
        rw [setLane_self] at hB
        exact .inl (hfound B hB).2.1
      · dsimp only at hwhen hB hlt
        rw [setLane_of_ne _ _ hhere] at hwhen hB hlt
        rcases h.granted b' k' B hwhen hB hlt hk with hfree | ⟨k₂, hk₂, hs⟩
        · exact .inl hfree
        · exact .inr ⟨k₂, hk₂, hkeep b' k₂ B hs⟩
    exclusive := h.exclusive }

lemma LaneArbitration_spec (h : Exclusion w s) (b k : ℕ) {found : Option ℕ}
    (hrun : s.LaneArbitration w b k = (s', found)) :
    Exclusion w s' ∧ Arbitrated s s' ∧ (s'.lanes b k).scheduled_when = s.cycle ∧
      (s'.lanes b k).scheduled_buffer = found := by
  have hwhen := h.decided b k
  unfold LaneArbitration at hrun
  dsimp only at hrun
  split_ifs at hrun with hdone hbusy
  · obtain ⟨rfl, rfl⟩ := Prod.mk.inj hrun
    exact ⟨h, .refl s, le_antisymm hwhen hdone, rfl⟩
  · obtain ⟨rfl, rfl⟩ := Prod.mk.inj hrun
    obtain ⟨h', harb⟩ := h.decide b k none s.last_node_index (by omega) (fun B hB => by cases hB)
    exact ⟨h', harb, congrArg Lane.scheduled_when (setLane_self s b k _),
      congrArg Lane.scheduled_buffer (setLane_self s b k _)⟩
  · cases hpick : s.pick (w.bus_sources b) (s.last_node_index b) with
    | none =>
      rw [hpick] at hrun
      obtain ⟨rfl, rfl⟩ := Prod.mk.inj hrun
      obtain ⟨h', harb⟩ := h.decide b k none s.last_node_index (by omega)
        (fun B hB => by cases hB)
      exact ⟨h', harb, congrArg Lane.scheduled_when (setLane_self s b k _),
        congrArg Lane.scheduled_buffer (setLane_self s b k _)⟩
    | some found =>
      obtain ⟨index, B⟩ := found
      rw [hpick] at hrun
      obtain ⟨rfl, rfl⟩ := Prod.mk.inj hrun
      obtain ⟨hmem, hfree⟩ := pick_spec hpick
      obtain ⟨h', harb⟩ := h.decide b k (some B) (Function.update s.last_node_index b index)
        (by omega) (fun B' hB' => by
          obtain rfl := Option.some.inj hB'
          exact ⟨hmem, hfree, by omega⟩)
      exact ⟨h', harb, congrArg Lane.scheduled_when (setLane_self s b k _),
        congrArg Lane.scheduled_buffer (setLane_self s b k _)⟩

lemma Arbitration_spec {b B : ℕ} {ks : List ℕ} (h : Exclusion w s) {lane : Option ℕ}
    (hrun : Arbitration w b B ks s = (s', lane)) :
    Exclusion w s' ∧ Arbitrated s s' ∧ ∀ k, lane = some k → k ∈ ks ∧
      (s'.lanes b k).scheduled_when = s.cycle ∧ (s'.lanes b k).scheduled_buffer = some B := by
  induction ks generalizing s with
  | nil =>
    obtain ⟨rfl, rfl⟩ := Prod.mk.inj hrun
    exact ⟨h, .refl s, fun k hk => by cases hk⟩
  | cons k ks ih =>
    rw [Arbitration] at hrun
    cases hlane : s.LaneArbitration w b k with
    | mk s₁ found =>
      rw [hlane] at hrun
      obtain ⟨h₁, harb₁, hwhen, hfound⟩ := LaneArbitration_spec h b k hlane
      dsimp only at hrun
      split_ifs at hrun with hB
      · obtain ⟨rfl, rfl⟩ := Prod.mk.inj hrun
        refine ⟨h₁, harb₁, fun k' hk' => ?_⟩
        obtain rfl := Option.some.inj hk'
        exact ⟨List.mem_cons_self, hwhen, hfound.trans hB⟩
      · obtain ⟨h', harb, hspec⟩ := ih h₁ hrun
        refine ⟨h', harb₁.trans harb, fun k' hk' => ?_⟩
        obtain ⟨hmem, hwhen', hB'⟩ := hspec k' hk'
        exact ⟨List.mem_cons_of_mem k hmem, hwhen'.trans harb₁.cycle, hB'⟩

/-- A transfer occupies its wire and its source buffer for the latency, and touches no other
busy cycle of links, lanes and buffers that are read. -/
structure Transferred (s t : Traffic) (wire : Wire) (latency p B : ℕ) : Prop where
  cycle : t.cycle = s.cycle
  transmissions : t.transmissions = s.transmissions ++ [⟨wire, B, p, s.cycle, latency⟩]
  read : ∀ B', (t.buffers B').read_busy =
    if B' = B then s.cycle + latency - 1 else (s.buffers B').read_busy
  links : ∀ l, (t.links l).busy =
    if wire = .link l then s.cycle + latency - 1 else (s.links l).busy
  lanes : ∀ b k, (t.lanes b k).busy =
    if wire = .lane b k then s.cycle + latency - 1 else (s.lanes b k).busy
  when : ∀ b k, (t.lanes b k).scheduled_when = (s.lanes b k).scheduled_when
  buffer : ∀ b k, (t.lanes b k).scheduled_buffer = (s.lanes b k).scheduled_buffer

lemma transfer_read_busy (s : Traffic) (wire : Wire) (latency p B D B' : ℕ) :
    ((s.transfer wire latency p B D).buffers B').read_busy =
      if B' = B then s.cycle + latency - 1 else (s.buffers B').read_busy := by
  simp only [Traffic.transfer, setBuffer, wake, Function.update_apply]
  by_cases hD : B' = D
  · subst hD
    rw [if_pos rfl]
    by_cases hB : B' = B
    · rw [if_pos hB, if_pos hB]
    · rw [if_neg hB, if_neg hB]
  · rw [if_neg hD]
    by_cases hB : B' = B
    · rw [if_pos hB, if_pos hB]
    · rw [if_neg hB, if_neg hB]

lemma transferred_link (s : Traffic) (l latency p B D : ℕ) :
    Transferred s ((s.setLink l { s.links l with
      busy := s.cycle + latency - 1 }).transfer (.link l) latency p B D) (.link l) latency p B where
  cycle := rfl
  transmissions := rfl
  read B' := transfer_read_busy _ _ _ _ _ _ _
  links l' := by
    simp only [Traffic.transfer, setBuffer, wake, setLink, Function.update_apply, Wire.link.injEq]
    by_cases hl : l' = l
    · rw [if_pos hl, if_pos hl.symm]
    · rw [if_neg hl, if_neg (fun h => hl h.symm)]
  lanes b k := (if_neg nofun).symm
  when _ _ := rfl
  buffer _ _ := rfl

lemma transferred_lane (s : Traffic) (b k latency p B D : ℕ) :
    Transferred s ((s.setLane b k { s.lanes b k with
        busy := s.cycle + latency - 1 }).transfer (.lane b k) latency p B D)
      (.lane b k) latency p B := by
  have hlane : ∀ b' k', ((s.setLane b k { s.lanes b k with
      busy := s.cycle + latency - 1 }).transfer (.lane b k) latency p B D).lanes b' k' =
        if b' = b ∧ k' = k then { s.lanes b k with busy := s.cycle + latency - 1 }
        else s.lanes b' k' := fun _ _ => rfl
  refine ⟨rfl, rfl, fun B' => transfer_read_busy _ _ _ _ _ _ _, fun l => (if_neg nofun).symm,
    ?_, ?_, ?_⟩ <;> intro b' k' <;> rw [hlane]
  · by_cases hhere : b' = b ∧ k' = k
    · obtain ⟨rfl, rfl⟩ := hhere
      rw [if_pos ⟨rfl, rfl⟩, if_pos rfl]
    · rw [if_neg hhere, if_neg]
      rintro hwire
      injection hwire with hb hk
      exact hhere ⟨hb.symm, hk.symm⟩
  · by_cases hhere : b' = b ∧ k' = k
    · obtain ⟨rfl, rfl⟩ := hhere
      rw [if_pos ⟨rfl, rfl⟩]
    · rw [if_neg hhere]
  · by_cases hhere : b' = b ∧ k' = k
    · obtain ⟨rfl, rfl⟩ := hhere
      rw [if_pos ⟨rfl, rfl⟩]
    · rw [if_neg hhere]

/-- A transfer over a free wire from a free source buffer keeps the invariant. -/
lemma Exclusion.transferred (h : Exclusion w s) {wire : Wire} {latency p B : ℕ}
    (ht : Transferred s s' wire latency p B) (hlatency : 0 < latency) (hwire : wire.Of w B)
    (hsource : w.isSource B = true)
    (hfree : ∀ T ∈ s.transmissions, T.wire = wire ∨ T.source = B → T.last < s.cycle)
    (hused : ∀ b k, wire = .lane b k → k < (w.bus_lanes b).length ∧
      (s.lanes b k).scheduled_when = s.cycle ∧ (s.lanes b k).scheduled_buffer = some B) :
    Exclusion w s' := by
  set U : Transmission := ⟨wire, B, p, s.cycle, latency⟩
  have hlast : U.last = s.cycle + latency - 1 := rfl
  have hmem : ∀ T ∈ s'.transmissions, T ∈ s.transmissions ∨ T = U := by
    intro T hT
    rw [ht.transmissions, List.mem_append, List.mem_singleton] at hT
    exact hT
  have hstale : ∀ b k B', Stale s b k B' → Stale s' b k B' := by
    rintro b k B' ⟨hwhen, hB', hle⟩
    refine ⟨by rw [ht.when, ht.cycle, hwhen], by rw [ht.buffer, hB'], ?_⟩
    rw [ht.cycle, ht.lanes]
    split_ifs
    · omega
    · exact hle
  exact {
    wired := fun T hT => by
      rcases hmem T hT with hT | rfl
      · exact h.wired T hT
      · exact ⟨hwire, hsource⟩
    read := fun T hT => by
      rw [ht.read]
      rcases hmem T hT with hT | rfl
      · split_ifs with hB
        · have hlt := hfree T hT (.inr hB)
          omega
        · exact h.read T hT
      · rw [if_pos rfl, hlast]
    link := fun T hT l hl => by
      rw [ht.links]
      rcases hmem T hT with hT | rfl
      · split_ifs with hw
        · have hlt := hfree T hT (.inl (hl.trans hw.symm))
          omega
        · exact h.link T hT l hl
      · rw [if_pos hl, hlast]
    lane := fun T hT b k hk => by
      rw [ht.lanes]
      rcases hmem T hT with hT | rfl
      · split_ifs with hw
        · have hlt := hfree T hT (.inl (hk.trans hw.symm))
          omega
        · exact h.lane T hT b k hk
      · rw [if_pos hk, hlast]
    decided := fun b k => by
      rw [ht.when, ht.cycle]
      exact h.decided b k
    scheduled := fun b k B' hB' => by
      rw [ht.buffer] at hB'
      exact h.scheduled b k B' hB'
    granted := fun b k B' hwhen hB' hlt hk => by
      rw [ht.when, ht.cycle] at hwhen
      rw [ht.buffer] at hB'
      rw [ht.lanes, ht.cycle] at hlt
      split_ifs at hlt with hw
      · omega
      · rcases h.granted b k B' hwhen hB' hlt hk with hread | ⟨k', hk', hs⟩
        · by_cases hB : B' = B
          · -- the lane is of the bus of the source buffer, which has now used another lane
            subst hB
            have hbus := (w.bus_valid b B' (h.scheduled b k B' hB')).1
            cases wire with
            | link l =>
              have hlink : w.connection B' = .link l := hwire
              rw [hbus] at hlink
              cases hlink
            | lane b' k' =>
              have hbus' : w.connection B' = .bus b' := hwire
              rw [hbus] at hbus'
              injection hbus' with hb
              subst hb
              obtain ⟨hk', hwhen', hbuffer'⟩ := hused b k' rfl
              refine .inr ⟨k', hk', by rw [ht.when, ht.cycle, hwhen'], by rw [ht.buffer, hbuffer'],
                ?_⟩
              rw [ht.cycle, ht.lanes, if_pos rfl]
              omega
          · left
            rw [ht.read, if_neg hB, ht.cycle]
            exact hread
        · exact .inr ⟨k', hk', hstale b k' B' hs⟩
    exclusive := by
      rw [ht.transmissions, List.pairwise_append]
      refine ⟨h.exclusive, List.pairwise_singleton _ _, fun T hT U' hU' => ?_⟩
      rw [List.mem_singleton] at hU'
      subst hU'
      exact hfree T hT }

lemma latency_pos (s : Traffic) (p bandwidth : ℕ) : 0 < s.latency p bandwidth :=
  Nat.succ_pos _

lemma VirtualChannelArbitration_spec (h : Exclusion w s) {l : ℕ} {found : Option ℕ}
    (hrun : s.VirtualChannelArbitration w l = (s', found)) :
    Exclusion w s' ∧ Arbitrated s s' := by
  have hkept : ∀ link : LinkState, link.busy = (s.links l).busy →
      Exclusion w (s.setLink l link) ∧ Arbitrated s (s.setLink l link) := by
    intro link hbusy
    have hlinks : ∀ l', ((s.setLink l link).links l').busy = (s.links l').busy := by
      intro l'
      simp only [setLink, Function.update_apply]
      split_ifs with hl
      · rw [hl, hbusy]
      · rfl
    exact ⟨h.congr rfl rfl hlinks rfl (fun _ _ => rfl),
      ⟨rfl, rfl, rfl, rfl, hlinks, fun _ _ => rfl, fun _ _ _ hs => hs⟩⟩
  unfold VirtualChannelArbitration at hrun
  dsimp only at hrun
  split_ifs at hrun with hdone
  · obtain ⟨rfl, _⟩ := Prod.mk.inj hrun
    exact ⟨h, .refl s⟩
  · cases hpick : s.pick (w.link_sources l) (s.links l).last_scheduled_buffer_index with
    | none =>
      rw [hpick] at hrun
      obtain ⟨rfl, _⟩ := Prod.mk.inj hrun
      exact hkept _ rfl
    | some found =>
      rw [hpick] at hrun
      obtain ⟨rfl, _⟩ := Prod.mk.inj hrun
      exact hkept _ rfl

lemma Exclusion.next (h : Exclusion w s) (p : ℕ) (after : ℤ) : Exclusion w (s.next p after) :=
  h.congr rfl rfl (fun _ => rfl) rfl fun _ _ => rfl

lemma Exclusion.wait (h : Exclusion w s) (p B : ℕ) : Exclusion w (s.wait p B) :=
  h.congr rfl rfl (fun _ => rfl) rfl fun _ _ => rfl

/-- A link is not busy when it transfers, and an earlier transmission from the source buffer was
over the same link. -/
lemma linkTransfer_exclusion (h : Exclusion w s) {l p : ℕ}
    (hrun : s.linkTransfer w l p = some s') : Exclusion w s' := by
  unfold linkTransfer at hrun
  dsimp only at hrun
  by_cases hmem : (s.packets p).buffer ∈ w.link_sources l
  case neg =>
    rw [if_pos hmem] at hrun
    cases hrun
  rw [if_neg (not_not.mpr hmem)] at hrun
  by_cases hhead : (s.buffers (s.packets p).buffer).packets.head? = some p
  case neg =>
    rw [if_pos hhead] at hrun
    obtain rfl := Option.some.inj hrun
    exact h.wait p _
  rw [if_neg (not_not.mpr hhead)] at hrun
  by_cases hbusy : s.cycle ≤ (s.links l).busy
  case pos =>
    rw [if_pos hbusy] at hrun
    obtain rfl := Option.some.inj hrun
    exact h.next p _
  rw [if_neg hbusy] at hrun
  obtain ⟨hconnection, hsource⟩ := w.link_valid l _ hmem
  cases harb : s.VirtualChannelArbitration w l with
  | mk s₁ found =>
    obtain ⟨h₁, harb₁⟩ := VirtualChannelArbitration_spec h harb
    rw [harb] at hrun
    dsimp only at hrun
    by_cases hfound : found = some (s.packets p).buffer
    case neg =>
      rw [if_pos hfound] at hrun
      obtain rfl := Option.some.inj hrun
      exact h₁.next p 1
    rw [if_neg (not_not.mpr hfound)] at hrun
    cases hD : (w.link_destinations l)[(w.link_sources l).idxOf (s.packets p).buffer]? with
    | none =>
      rw [hD] at hrun
      cases hrun
    | some D =>
      rw [hD] at hrun
      dsimp only at hrun
      split_ifs at hrun with hwrite hfull
      · obtain rfl := Option.some.inj hrun
        exact h₁.next p _
      · obtain rfl := Option.some.inj hrun
        exact h₁.wait p D
      · obtain rfl := Option.some.inj hrun
        have hlink : (s₁.links l).busy < s₁.cycle := by
          rw [harb₁.links, harb₁.cycle]
          omega
        refine h₁.transferred (transferred_link s₁ l _ p _ D) (latency_pos _ _ _) hconnection
          hsource ?_ (fun b k hw => by cases hw)
        intro T hT hsame
        suffices hw : T.wire = .link l from (h₁.link T hT l hw).trans_lt hlink
        rcases hsame with hw | hB
        · exact hw
        · -- the wire is the connection of the source buffer
          have hof := (h₁.wired T hT).1
          rw [hB] at hof
          cases hw : T.wire with
          | link l' =>
            rw [hw] at hof
            have hl := Connected.link.inj ((show w.connection _ = .link l' from hof).symm.trans
              hconnection)
            rw [hl]
          | lane b k =>
            rw [hw] at hof
            have hl := (show w.connection _ = .bus b from hof).symm.trans hconnection
            cases hl

/-- If no used decision is reused, the lane found by the arbitration and the source buffer are
free. -/
lemma busTransfer_exclusion (h : Exclusion w s) {b p : ℕ}
    (hconnection : w.connection (s.packets p).buffer = .bus b) (hfresh : ¬Reuses w s p)
    (hrun : s.busTransfer w b p = some s') : Exclusion w s' := by
  unfold busTransfer at hrun
  dsimp only at hrun
  by_cases hmem : (s.packets p).buffer ∈ w.bus_sources b
  case neg =>
    rw [if_pos hmem] at hrun
    cases hrun
  rw [if_neg (not_not.mpr hmem)] at hrun
  by_cases hhead : (s.buffers (s.packets p).buffer).packets.head? = some p
  case neg =>
    rw [if_pos hhead] at hrun
    obtain rfl := Option.some.inj hrun
    exact h.wait p _
  rw [if_neg (not_not.mpr hhead)] at hrun
  have hsource := (w.bus_valid b _ hmem).2
  cases hD : s.busDestination w b p (s.packets p).buffer with
  | none =>
    rw [hD] at hrun
    cases hrun
  | some D =>
    rw [hD] at hrun
    dsimp only at hrun
    split_ifs at hrun with hwrite hsize hfull
    · obtain rfl := Option.some.inj hrun
      exact h.next p _
    · obtain rfl := Option.some.inj hrun
      exact h.wait p D
    cases harb : Arbitration w b (s.packets p).buffer (List.range (w.bus_lanes b).length) s with
    | mk s₁ lane =>
      obtain ⟨h₁, harb₁, hspec⟩ := Arbitration_spec h harb
      rw [harb] at hrun
      dsimp only at hrun
      cases lane with
      | none =>
        obtain rfl := Option.some.inj hrun
        exact h₁.next p 1
      | some k =>
        obtain rfl := Option.some.inj hrun
        obtain ⟨hk, hwhen, hbuffer⟩ := hspec k rfl
        rw [List.mem_range] at hk
        rw [← harb₁.cycle] at hwhen
        have hunused : ∀ k' < (w.bus_lanes b).length, ¬Stale s₁ b k' (s.packets p).buffer :=
          fun k' hk' hs => hfresh ⟨b, D, k', hconnection, hhead, hD, not_le.mp hwrite,
            not_lt.mp hfull, hk', harb₁.stale b k' _ hs⟩
        have hlane : (s₁.lanes b k).busy < s₁.cycle := by
          by_contra hle
          exact hunused k hk ⟨hwhen, hbuffer, not_lt.mp hle⟩
        have hread : (s₁.buffers (s.packets p).buffer).read_busy < s₁.cycle := by
          rcases h₁.granted b k _ hwhen hbuffer hlane hk with hread | ⟨k', hk', hs⟩
          · exact hread
          · exact absurd hs (hunused k' hk')
        refine h₁.transferred (transferred_lane s₁ b k _ p _ D) (latency_pos _ _ _) hconnection
          hsource ?_ ?_
        · intro T hT hsame
          rcases hsame with hw | hB
          · exact (h₁.lane T hT b k hw).trans_lt hlane
          · have hle := h₁.read T hT
            rw [hB] at hle
            exact hle.trans_lt hread
        · intro b' k' hw
          injection hw with hb hk'
          subst hb hk'
          exact ⟨hk, hwhen, hbuffer⟩

/-- The step does not use a decision again. -/
def Fresh (w : Wiring) : TrafficOp → Traffic → Prop
  | .output p, s => ¬Reuses w s p
  | _, _ => True

lemma perform_exclusion (op : TrafficOp) (h : Exclusion w s) (hfresh : Fresh w op s)
    (hstep : op.perform w s = some s') : Exclusion w s' := by
  cases op with
  | advance =>
    rw [TrafficOp.perform] at hstep
    split_ifs at hstep
    obtain rfl := Option.some.inj hstep
    exact h.advance
  | output p =>
    rw [TrafficOp.perform] at hstep
    split_ifs at hstep
    have h₁ : Exclusion w { s with events := s.events.erase (p, .due s.cycle) } :=
      h.congr rfl rfl (fun _ => rfl) rfl fun _ _ => rfl
    unfold outputBufferHandler at hstep
    cases hconnection : w.connection (s.packets p).buffer with
    | link l =>
      rw [hconnection] at hstep
      exact linkTransfer_exclusion h₁ hstep
    | bus b =>
      rw [hconnection] at hstep
      exact busTransfer_exclusion h₁ hconnection hfresh hstep
  | arrive p B size destination latency =>
    rw [TrafficOp.perform] at hstep
    dsimp only at hstep
    split_ifs at hstep with hroom
    obtain rfl := Option.some.inj hstep
    refine h.congr rfl rfl (fun _ => rfl) rfl fun B' _ => ?_
    simp only [Traffic.next, setBuffer, Function.update_apply]
    split_ifs with hB
    · rw [hB]
    · rfl
  | leave p D read_busy =>
    rw [TrafficOp.perform] at hstep
    split_ifs at hstep with hinput
    obtain rfl := Option.some.inj hstep
    refine h.congr rfl rfl (fun _ => rfl) rfl fun B' hB' => ?_
    have hne : B' ≠ D := by
      rintro rfl
      exact hinput.1 hB'
    simp only [wake, setBuffer, Function.update_apply, if_neg hne]

lemma new_exclusion (w : Wiring) : Exclusion w .new where
  wired T hT := by cases hT
  read T hT := by cases hT
  link T hT := by cases hT
  lane T hT := by cases hT
  decided _ _ := le_rfl
  scheduled b k B hB := by cases hB
  granted b k B _ hB := by cases hB
  exclusive := .nil

/-- In every run in which no used decision of a lane is used again, the transmissions over a
link, over a lane, or from a source buffer never overlap. -/
theorem transmissions_exclusive (w : Wiring) {ops : List TrafficOp} {s : Traffic}
    (hrun : run (TrafficOp.perform w) ops .new = some s)
    (hfresh : Along (TrafficOp.perform w) (Fresh w) ops .new) :
    s.transmissions.Pairwise Separate :=
  (run_invariant (fun op _ _ h => perform_exclusion op h) (new_exclusion w) hfresh hrun).exclusive

instance Stale.decidable (s : Traffic) (b k B : ℕ) : Decidable (Stale s b k B) :=
  inferInstanceAs (Decidable (_ ∧ _ ∧ _))

lemma reuses_iff {p b : ℕ} (hb : w.connection (s.packets p).buffer = .bus b) :
    Reuses w s p ↔ ∃ D ∈ s.busDestination w b p (s.packets p).buffer,
      (s.buffers (s.packets p).buffer).packets.head? = some p ∧
        (s.buffers D).write_busy < s.cycle ∧
          (s.buffers D).count + (s.packets p).size ≤ w.size D ∧
            ∃ k < (w.bus_lanes b).length, Stale s b k (s.packets p).buffer := by
  constructor
  · rintro ⟨b', D, k, hb', hhead, hD, hwrite, hroom, hk, hs⟩
    obtain rfl := Connected.bus.inj (hb.symm.trans hb')
    exact ⟨D, hD, hhead, hwrite, hroom, k, hk, hs⟩
  · rintro ⟨D, hD, hhead, hwrite, hroom, k, hk, hs⟩
    exact ⟨b, D, k, hb, hhead, hD, hwrite, hroom, hk, hs⟩

instance Reuses.decidable (w : Wiring) (s : Traffic) (p : ℕ) : Decidable (Reuses w s p) :=
  match hconnection : w.connection (s.packets p).buffer with
  | .link l => isFalse fun ⟨_, _, _, hb, _⟩ => by
      rw [hconnection] at hb
      cases hb
  | .bus _ => decidable_of_iff _ (reuses_iff hconnection).symm

instance Fresh.decidable (w : Wiring) : (op : TrafficOp) → (s : Traffic) → Decidable (Fresh w op s)
  | .output p, s => inferInstanceAs (Decidable (¬Reuses w s p))
  | .advance, _ | .arrive .., _ | .leave .., _ => inferInstanceAs (Decidable True)

/-- A bus with one lane of one byte a cycle from buffer 0 to buffers 1 and 2. -/
def oneLane : Wiring where
  connection _ := .bus 0
  isSource B := B = 0
  node B := B
  size _ := 16
  link_bandwidth _ := 1
  link_sources _ := []
  link_destinations _ := []
  bus_lanes _ := [1]
  bus_sources b := if b = 0 then [0] else []
  bus_destinations _ := [1, 2]
  next_node _ destination := some destination
  link_valid _ B hB := by cases hB
  bus_valid b B hB := by
    split_ifs at hB with hb
    · rw [List.mem_singleton] at hB
      exact ⟨by rw [hb], decide_eq_true hB⟩
    · cases hB

/-- The second packet is sent while the first one is on the lane, and waits for its end. -/
theorem transmissions_exclusive_oneLane : ∃ s : Traffic,
    s.transmissions = [⟨.lane 0 0, 0, 0, 1, 5⟩, ⟨.lane 0 0, 0, 1, 6, 5⟩] ∧
      s.transmissions.Pairwise Separate := by
  let ops : List TrafficOp := [.arrive 0 0 5 1 1, .advance, .output 0, .arrive 1 0 5 2 1, .advance,
    .output 1, .advance, .output 1, .advance, .output 1, .advance, .output 1, .advance, .output 1]
  have hrun := (Option.some_get (by decide +kernel :
    (run (TrafficOp.perform oneLane) ops .new).isSome = true)).symm
  refine ⟨_, ?_, transmissions_exclusive oneLane hrun (by decide +kernel)⟩
  decide +kernel

/-- Two packets for different nodes that are sent in one cycle are transmitted over the only lane
in the same cycles. -/
theorem lane_transmits_twice : ∃ s : Traffic,
    run (TrafficOp.perform oneLane) [.arrive 0 0 5 1 1, .arrive 1 0 5 2 1, .advance, .output 0,
      .output 1] .new = some s ∧
    s.transmissions = [⟨.lane 0 0, 0, 0, 1, 5⟩, ⟨.lane 0 0, 0, 1, 1, 5⟩] ∧
      ¬s.transmissions.Pairwise Separate := by
  have hrun := (Option.some_get (by decide +kernel :
    (run (TrafficOp.perform oneLane) [.arrive 0 0 5 1 1, .arrive 1 0 5 2 1, .advance, .output 0,
      .output 1] .new).isSome = true)).symm
  have htwice : ((run (TrafficOp.perform oneLane) [.arrive 0 0 5 1 1, .arrive 1 0 5 2 1, .advance,
      .output 0, .output 1] .new).get (by decide +kernel)).transmissions =
        [⟨.lane 0 0, 0, 0, 1, 5⟩, ⟨.lane 0 0, 0, 1, 1, 5⟩] := by decide +kernel
  refine ⟨_, hrun, htwice, fun hseparate => ?_⟩
  rw [htwice, List.pairwise_pair] at hseparate
  exact absurd (hseparate (.inl rfl)) (by decide)

end OISA.Net
