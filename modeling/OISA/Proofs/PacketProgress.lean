import OISA.Proofs.PacketRoutes

/-!
# Progress of packets

A packet at the head of an output buffer waits for space in an input buffer, whose head waits for
space in the next output buffer of its route.
-/

namespace OISA.Net

open OISA.Lib Delivery

variable {layout : Layout} {w : Topology} {s s' : Delivery} {p B : ℕ}

/-- The receive event of the packet is scheduled, or its handler has it go on to another event. -/
def CanProceed (w : Topology) (s : Delivery) (p : ℕ) : Prop :=
  ∃ stage, (p, stage) ∈ s.events ∧
    (stage = .receive ∨ ∃ s', s.handle w p stage false = .ok s' ∧ (p, stage) ∉ s'.events)

/-- A packet waits for space in an input buffer that holds an assembled packet of an incomplete
message. -/
def Choked (w : Topology) (s : Delivery) : Prop :=
  ∃ p o D q M, (p, .output) ∈ s.events ∧ (s.packets p).buffer = some o ∧
    w.size D < (s.buffers D).count + (s.packets p).size ∧
      (∃ destination, w.target o destination = some D) ∧ q ∈ (s.buffers D).packets ∧
        s.message_table (s.packets q).message = some M ∧ q ∈ M.received_packets ∧
          M.received_packets.length < M.packets.length

lemma exists_head (h : (s.buffers B).packets ≠ []) :
    ∃ p, (s.buffers B).packets.head? = some p ∧ p ∈ (s.buffers B).packets := by
  obtain ⟨p, ps, hps⟩ := List.exists_cons_of_ne_nil h
  exact ⟨p, by rw [hps, List.head?_cons], by rw [hps]; exact List.mem_cons_self⟩

lemma Stored.nonempty {out : List ℕ} (h : Stored w out s) {size : ℕ}
    (hfull : w.size B < (s.buffers B).count + size) (hsize : size ≤ w.size B) :
    (s.buffers B).packets ≠ [] := by
  intro hnil
  have hcount := (h.space B).1
  rw [hnil, List.map_nil, List.sum_nil] at hcount
  omega

lemma OnRoute.resident {r : DeliveryRun} (h : OnRoute w r)
    (hp : p ∈ (r.network.buffers B).packets) :
    ∃ M, r.network.message_table (r.network.packets p).message = some M ∧ p ∈ M.packets ∧
      (r.network.packets p).buffer = some B ∧ w.fix_latency = 0 ∧
        (p ∈ M.received_packets ∧ Station w (r.network.packets p) M.destination_node .receive ∨
          ∃ stage, (p, stage) ∈ r.network.events ∧
            Station w (r.network.packets p) M.destination_node stage) := by
  obtain ⟨⟨M, hM, hmem⟩, _, hbuffer⟩ := (h.sane.conserving.stored.place p B).mp hp
  refine ⟨M, hM, hmem, hbuffer, ?_, ?_⟩
  · by_contra hfix
    rw [h.sane.conserving.stored.fixed hfix] at hbuffer
    cases hbuffer
  · rcases h.located.covered _ M hM p hmem List.not_mem_nil with hreceived | ⟨stage, he⟩
    · exact .inl ⟨hreceived, (h.located.parked _ M hM p hreceived).2⟩
    · exact .inr ⟨stage, he, (h.located.stationed _ he).2 M hM⟩

lemma OnRoute.outputResident {r : DeliveryRun} (hrouted : WellRouted layout w) (h : OnRoute w r)
    {n d : ℕ} (hB : w.buffer n d = some B) (hp : p ∈ (r.network.buffers B).packets) :
    ∃ M, r.network.message_table (r.network.packets p).message = some M ∧ p ∈ M.packets ∧
      (r.network.packets p).buffer = some B ∧ (p, .output) ∈ r.network.events ∧
        w.buffer (w.node B) M.destination_node = some B := by
  obtain ⟨M, hM, hmem, hbuffer, hfix, hstate⟩ := h.resident hp
  have hnotInput : ∀ {o D d'}, (r.network.packets p).buffer = some D →
      w.target o d' = some D → False := by
    intro o D d' hD htarget
    rw [hbuffer] at hD
    obtain rfl := Option.some.inj hD
    exact hrouted.input hB htarget rfl
  have hnotReceive : ¬Station w (r.network.packets p) M.destination_node .receive := by
    rintro (hne | ⟨o, D, hD, _, _, htarget⟩)
    · exact hne hfix
    · exact hnotInput hD htarget
  rcases hstate with ⟨_, hstation⟩ | ⟨stage, he, hstation⟩
  · exact absurd hstation hnotReceive
  · cases stage with
    | output =>
      obtain ⟨o, ho, hroute⟩ := hstation
      rw [hbuffer] at ho
      obtain rfl := Option.some.inj ho
      exact ⟨M, hM, hmem, hbuffer, he, hroute⟩
    | input =>
      obtain ⟨o, D, hD, _, _, htarget⟩ := hstation
      exact absurd htarget fun h => hnotInput hD h
    | receive => exact absurd hstation hnotReceive

lemma OnRoute.inputResident {r : DeliveryRun} (hrouted : WellRouted layout w) (h : OnRoute w r)
    {o d : ℕ} (hB : w.target o d = some B) (hp : p ∈ (r.network.buffers B).packets) :
    ∃ M o', r.network.message_table (r.network.packets p).message = some M ∧ p ∈ M.packets ∧
      (r.network.packets p).buffer = some B ∧ (r.network.packets p).node = some (w.node B) ∧
        w.buffer (w.node o') M.destination_node = some o' ∧
        w.target o' M.destination_node = some B ∧
        (p ∈ M.received_packets ∨ (p, .receive) ∈ r.network.events ∨
          (p, .input) ∈ r.network.events) := by
  obtain ⟨M, hM, hmem, hbuffer, hfix, hstate⟩ := h.resident hp
  have harrived : (∃ o' D, (r.network.packets p).buffer = some D ∧
      (r.network.packets p).node = some (w.node D) ∧
        w.buffer (w.node o') M.destination_node = some o' ∧
        w.target o' M.destination_node = some D) → ∃ o',
      (r.network.packets p).node = some (w.node B) ∧
        w.buffer (w.node o') M.destination_node = some o' ∧
        w.target o' M.destination_node = some B := by
    rintro ⟨o', D, hD, hnode, hroute, htarget⟩
    rw [hbuffer] at hD
    obtain rfl := Option.some.inj hD
    exact ⟨o', hnode, hroute, htarget⟩
  rcases hstate with ⟨hreceived, hstation⟩ | ⟨stage, he, hstation⟩
  · obtain ⟨o', hnode, hroute, htarget⟩ := harrived (hstation.resolve_left fun hne => hne hfix)
    exact ⟨M, o', hM, hmem, hbuffer, hnode, hroute, htarget, .inl hreceived⟩
  · cases stage with
    | output =>
      obtain ⟨B', hB', hroute⟩ := hstation
      rw [hbuffer] at hB'
      obtain rfl := Option.some.inj hB'
      exact absurd rfl (hrouted.input hroute hB)
    | input =>
      obtain ⟨o', hnode, hroute, htarget⟩ := harrived hstation
      exact ⟨M, o', hM, hmem, hbuffer, hnode, hroute, htarget, .inr (.inr he)⟩
    | receive =>
      obtain ⟨o', hnode, hroute, htarget⟩ := harrived (hstation.resolve_left fun hne => hne hfix)
      exact ⟨M, o', hM, hmem, hbuffer, hnode, hroute, htarget, .inr (.inl he)⟩

lemma move_ok {D : ℕ} (stage : Stage) (hhead : (s.buffers B).packets.head? = some p)
    (hroom : (s.buffers D).count + (s.packets p).size ≤ w.size D) (node : Option ℕ) :
    ∃ s', s.move w B D p node stage = .ok s' ∧ s'.events = s.events ++ [(p, stage)] := by
  rw [Delivery.move, extract_head hhead]
  set s₁ := s.setContents B {
    packets := (s.buffers B).packets.erase p
    count := (s.buffers B).count - (s.packets p).size }
  have hroom₁ : (s₁.buffers D).count + (s₁.packets p).size ≤ w.size D :=
    space_extract (Nat.sub_le _ _) hroom
  unfold Except.bind
  dsimp only
  rw [Delivery.put, InsertPacket, if_neg (not_lt.mpr hroom₁)]
  exact ⟨_, rfl, rfl⟩

lemma Tracked.gone (h : Tracked [] s) {stage stage' : Stage}
    (hne : stage ≠ stage') : (p, stage) ∉ s.events.erase (p, stage) ++ [(p, stage')] := by
  rw [List.mem_append, List.mem_singleton, not_or]
  refine ⟨fun hin => ?_, fun hsame => hne (Prod.mk.inj hsame).2⟩
  exact (h.events.of_map.mem_erase_iff.mp hin).1 rfl

lemma proceeds_output (hrouted : WellRouted layout w) (h : Tracked [] s) {D : ℕ} {M : Message}
    (hevent : (p, .output) ∈ s.events) (hM : s.message_table (s.packets p).message = some M)
    (hbuffer : (s.packets p).buffer = some B)
    (hroute : w.buffer (w.node B) M.destination_node = some B)
    (hD : w.target B M.destination_node = some D)
    (hhead : (s.buffers B).packets.head? = some p) (hsize : (s.packets p).size ≤ w.size D)
    (hroom : (s.buffers D).count + (s.packets p).size ≤ w.size D) : CanProceed w s p := by
  set s₁ : Delivery := { s with events := s.events.erase (p, .output) } with hs₁
  obtain ⟨s', hmove, hevents⟩ := move_ok (s := s₁) .input hhead hroom
    (some (w.node D))
  refine ⟨.output, hevent, .inr ⟨s', ?_, ?_⟩⟩
  · have hsource := hrouted.source hroute
    unfold Delivery.handle EventTypeOutputBufferHandler
    rw [hM]
    dsimp only
    rw [hbuffer]
    dsimp only
    unfold Topology.target at hD
    unfold Topology.sources at hsource
    cases hconnection : w.connection B with
    | link l =>
      rw [hconnection] at hD hsource
      dsimp only at hD hsource ⊢
      unfold Delivery.linkTransferPacket
      rw [if_neg (not_not.mpr hsource), if_neg, hD]
      · exact (if_neg (not_lt.mpr hroom)).trans hmove
      · rintro (hne | hfalse)
        · exact hne hhead
        · exact Bool.false_ne_true hfalse
    | bus b =>
      rw [hconnection] at hD hsource
      dsimp only at hD hsource ⊢
      unfold Delivery.busTransferPacket
      rw [if_neg (not_not.mpr hsource), if_neg (not_not.mpr hhead), hD]
      dsimp only
      rw [if_neg Bool.false_ne_true, if_neg (not_lt.mpr hsize)]
      exact (if_neg (not_lt.mpr hroom)).trans hmove
  · rw [hevents]
    exact h.gone (by decide)

lemma proceeds_input (h : Tracked [] s) {D : ℕ} {M : Message}
    (hevent : (p, .input) ∈ s.events) (hM : s.message_table (s.packets p).message = some M)
    (hbuffer : (s.packets p).buffer = some B) (hnode : (s.packets p).node = some (w.node B))
    (hne : w.node B ≠ M.destination_node) (hswitch : w.is_switch (w.node B) = true)
    (hroute : w.buffer (w.node B) M.destination_node = some D)
    (hhead : (s.buffers B).packets.head? = some p) (hsize : (s.packets p).size ≤ w.size D)
    (hroom : (s.buffers D).count + (s.packets p).size ≤ w.size D) : CanProceed w s p := by
  set s₁ : Delivery := { s with events := s.events.erase (p, .input) } with hs₁
  obtain ⟨s', hmove, hevents⟩ := move_ok (s := s₁) .output hhead hroom
    (s₁.packets p).node
  refine ⟨.input, hevent, .inr ⟨s', ?_, ?_⟩⟩
  · unfold Delivery.handle EventTypeInputBufferHandler
    rw [hM]
    dsimp only
    rw [hnode, hbuffer]
    dsimp only
    rw [if_neg hne, if_neg (not_not.mpr hhead), hswitch]
    unfold Forward
    rw [if_neg (by decide), if_neg (not_not.mpr rfl), hroute]
    dsimp only
    rw [if_neg Bool.false_ne_true, if_neg (not_lt.mpr hsize)]
    exact (if_neg (not_lt.mpr hroom)).trans hmove
  · rw [hevents]
    exact h.gone (by decide)

lemma proceeds_destination (h : Tracked [] s) {M : Message}
    (hevent : (p, .input) ∈ s.events) (hM : s.message_table (s.packets p).message = some M)
    (hbuffer : (s.packets p).buffer = some B)
    (hnode : (s.packets p).node = some M.destination_node) : CanProceed w s p := by
  refine ⟨.input, hevent, .inr ⟨{ s with events := s.events.erase (p, .input) }.schedule p .receive,
    ?_, h.gone (by decide)⟩⟩
  unfold Delivery.handle EventTypeInputBufferHandler
  rw [hM]
  dsimp only
  rw [hnode, hbuffer]
  exact if_pos rfl

lemma mem_adjacent (hrouted : WellRouted layout w) {o d o' D : ℕ}
    (hroute : w.buffer (w.node o) d = some o) (htarget : w.target o d = some D)
    (hnext : w.buffer (w.node D) d = some o') : o' ∈ layout.adjacent w o := by
  obtain ⟨hn, hd, hne, _⟩ := hrouted.known hroute
  obtain ⟨D', hD', hnode, _⟩ := hrouted.target hroute
  rw [htarget] at hD'
  obtain rfl := Option.some.inj hD'
  refine List.mem_flatMap.mpr ⟨w.node o, hn, List.mem_filterMap.mpr ⟨d, hd, ?_⟩⟩
  rw [if_neg hne, if_pos hroute, hnode]
  exact hnext

lemma mem_vertices (hrouted : WellRouted layout w) {o d : ℕ} (hroute : w.buffer (w.node o) d = some o) :
    o ∈ layout.vertices w := by
  obtain ⟨hn, hd, _, hmem, _⟩ := hrouted.known hroute
  refine List.mem_flatMap.mpr ⟨w.node o, hn, List.mem_filter.mpr ⟨hmem, ?_⟩⟩
  exact List.any_eq_true.mpr ⟨d, hd, decide_eq_true hroute⟩

lemma adjacent_vertices (hrouted : WellRouted layout w) {o o' : ℕ} (h : o' ∈ layout.adjacent w o) :
    o' ∈ layout.vertices w := by
  obtain ⟨source, _, hsource⟩ := List.mem_flatMap.mp h
  obtain ⟨destination, _, hedge⟩ := List.mem_filterMap.mp hsource
  split_ifs at hedge
  obtain ⟨next, _, hnext⟩ := Option.bind_eq_some_iff.mp hedge
  rw [← (hrouted.known hnext).2.2.2.2] at hnext
  exact mem_vertices hrouted hnext

/-- The check finds a cycle if and only if there is one. -/
theorem hasCycle_iff (hrouted : WellRouted layout w) :
    layout.hasCycle w = true ↔ Cyclic (layout.adjacent w) := by
  constructor
  · exact cyclic_of_searchCycle fun u _ a ha => adjacent_vertices hrouted ha
  · rintro ⟨v, hv⟩
    by_contra hnone
    rw [Bool.not_eq_true] at hnone
    obtain ⟨u, _, hedge⟩ := Relation.TransGen.tail'_iff.mp hv
    have hends := ends_of_searchCycle hnone v (adjacent_vertices hrouted hedge)
    exact hends.no_path (Relation.transGen_swap.mpr hv)

lemma OnRoute.inputHead {r : DeliveryRun} (hrouted : WellRouted layout w) (h : OnRoute w r) {o d D : ℕ}
    (hD : w.target o d = some D) (hnonempty : (r.network.buffers D).packets ≠ []) :
    (∃ q M, q ∈ (r.network.buffers D).packets ∧
      r.network.message_table (r.network.packets q).message = some M ∧ q ∈ M.received_packets ∧
        w.node D = M.destination_node) ∨
    (∃ q, CanProceed w r.network q) ∨
    ∃ o₂ d₂ o', w.buffer (w.node o₂) d₂ = some o₂ ∧ w.target o₂ d₂ = some D ∧
      w.is_switch (w.node D) = true ∧ w.buffer (w.node D) d₂ = some o' ∧
        (r.network.buffers o').packets ≠ [] := by
  obtain ⟨q, hhead, hq⟩ := exists_head hnonempty
  obtain ⟨M, o₂, hM, hmem, hbuffer, hnode, hroute, htarget, hstate⟩ :=
    h.inputResident hrouted hD hq
  have ht := h.sane.conserving.tracked
  rcases hstate with hreceived | hreceive | hinput
  · refine .inl ⟨q, M, hq, hM, hreceived, ?_⟩
    have hat := ((ht.arrived _ M hM).2 q hreceived).2
    rw [hnode] at hat
    exact Option.some.inj hat
  · exact .inr (.inl ⟨q, .receive, hreceive, .inl rfl⟩)
  · by_cases hdestination : w.node D = M.destination_node
    · rw [hdestination] at hnode
      exact .inr (.inl ⟨q, proceeds_destination ht hinput hM hbuffer hnode⟩)
    · obtain ⟨D', hD', _, hnext⟩ := hrouted.target hroute
      rw [htarget] at hD'
      obtain rfl := Option.some.inj hD'
      obtain ⟨hswitch, o', ho'⟩ := hnext.resolve_left hdestination
      have hsize := h.located.fits _ M hM q hmem o'
      by_cases hroom : (r.network.buffers o').count + (r.network.packets q).size ≤ w.size o'
      · exact .inr (.inl ⟨q, proceeds_input ht hinput hM hbuffer hnode hdestination hswitch ho'
          hhead hsize hroom⟩)
      · refine .inr (.inr ⟨o₂, M.destination_node, o', hroute, htarget, hswitch, ho', ?_⟩)
        exact h.sane.conserving.stored.nonempty (not_le.mp hroom) hsize

lemma OnRoute.outputBuffer {r : DeliveryRun} (hrouted : WellRouted layout w) (hfed : FedOnce w)
    (h : OnRoute w r) (hremoved : r.network.returned = []) {o : ℕ}
    (hends : Ends (layout.adjacent w) o) (hnonempty : (r.network.buffers o).packets ≠ [])
    (hroute : ∃ n d, w.buffer n d = some o) :
    (∃ q, CanProceed w r.network q) ∨ Choked w r.network := by
  induction hends with
  | intro o _ ih =>
    obtain ⟨n, d, hnd⟩ := hroute
    have ht := h.sane.conserving.tracked
    obtain ⟨p, hhead, hp⟩ := exists_head hnonempty
    obtain ⟨M, hM, hmem, hbuffer, hevent, hroute⟩ := h.outputResident hrouted hnd hp
    obtain ⟨D, hD, _, _⟩ := hrouted.target hroute
    have hsize := h.located.fits _ M hM p hmem D
    by_cases hroom : (r.network.buffers D).count + (r.network.packets p).size ≤ w.size D
    · exact .inl ⟨p, proceeds_output hrouted ht hevent hM hbuffer hroute hD hhead hsize hroom⟩
    have hfull := h.sane.conserving.stored.nonempty (not_le.mp hroom) hsize
    rcases h.inputHead hrouted hD hfull with ⟨q, M', hq, hM', hreceived, _⟩ | hproceeds |
      ⟨o₂, d₂, o', hroute₂, htarget₂, hswitch, ho', hnonempty'⟩
    · refine .inr ⟨p, o, D, q, M', hevent, hbuffer, not_le.mp hroom, ⟨_, hD⟩, hq, hM', hreceived,
        ?_⟩
      -- complete messages have been removed
      have hle : M'.received_packets.length ≤ M'.packets.length :=
        ((ht.arrived _ M' hM').1.subperm fun q hq =>
          ((ht.arrived _ M' hM').2 q hq).1).length_le
      refine lt_of_le_of_ne hle fun hall => ?_
      have hreturned := h.notified _ M' hM' hall
      rw [hremoved] at hreturned
      exact absurd hreturned List.not_mem_nil
    · exact .inl hproceeds
    · obtain rfl := hfed hroute hD hroute₂ htarget₂ hswitch
      exact ih o' (mem_adjacent hrouted hroute₂ htarget₂ ho') hnonempty' ⟨_, _, ho'⟩

def allWait (w : Topology) (s : Delivery) : Bool :=
  s.events.all fun e => e.2 ≠ .receive && match s.handle w e.1 e.2 false with
    | .ok s' => e ∈ s'.events
    | .error _ => true

lemma not_canProceed (h : allWait w s = true) (p : ℕ) : ¬CanProceed w s p := by
  rintro ⟨stage, he, hcase⟩
  have hwait := List.all_eq_true.mp h (p, stage) he
  rw [Bool.and_eq_true, decide_eq_true_eq] at hwait
  obtain ⟨hne, hagain⟩ := hwait
  rcases hcase with hreceive | ⟨s', hs', hgone⟩
  · exact hne hreceive
  · dsimp only at hagain
    rw [hs'] at hagain
    exact hgone (of_decide_eq_true hagain)

def undelivered (s : Delivery) : Bool :=
  (s.message_table 0).any fun M => M.packets.any fun p => p ∉ M.received_packets

lemma exists_undelivered (h : undelivered s = true) : ∃ m M, s.message_table m = some M ∧
    ∃ p ∈ M.packets, p ∉ M.received_packets := by
  unfold undelivered at h
  cases hM : s.message_table 0 with
  | none =>
    rw [hM] at h
    cases h
  | some M =>
    rw [hM, Option.any_some] at h
    obtain ⟨p, hp, hnot⟩ := List.any_eq_true.mp h
    exact ⟨0, M, hM, p, hp, of_decide_eq_true hnot⟩

/-- The run ends in a state in which a message is not delivered and no packet can go on, in a network
without cycles whose buffers fit a message. -/
structure Deadlocks (layout : Layout) (w : Topology) (largest : ℕ) (ops : List DeliveryOp) :
    Prop where
  routed : WellRouted layout w
  noCycle : layout.hasCycle w = false
  fits : FitsMessage w largest
  fitting : Along (DeliveryOp.perform w) (fun op r => Fitting w largest op r.network) ops .new
  deadlock : ∃ r, run (DeliveryOp.perform w) ops .new = some r ∧ r.panic = none ∧
    r.network.returned = [] ∧
      (∃ m M, r.network.message_table m = some M ∧ ∃ p ∈ M.packets, p ∉ M.received_packets) ∧
        ∀ p, ¬CanProceed w r.network p

/-- A network with a table of routes: source, destination, next node and output buffer. -/
def network (switches bus_sources bus_destinations : List ℕ) (node : ℕ → ℕ)
    (routes : List (ℕ × ℕ × ℕ × ℕ)) (size packet_size : ℕ) : Topology where
  connection B := if B ∈ bus_sources then .bus 0 else .link B
  isSource B := B < 100
  node := node
  size _ := size
  link_bandwidth _ := 1
  link_sources l := if l < 100 ∧ l ∉ bus_sources then [l] else []
  link_destinations l := [100 + l]
  bus_lanes _ := [1]
  bus_sources b := if b = 0 then bus_sources.filter (· < 100) else []
  bus_destinations _ := bus_destinations.filter (100 ≤ ·)
  next_node n d := (routes.find? fun r => r.1 = n ∧ r.2.1 = d).map fun r => r.2.2.1
  link_valid l B hB := by
    split_ifs at hB with hl
    · rw [List.mem_singleton] at hB
      rw [hB, if_neg hl.2]
      exact ⟨rfl, decide_eq_true hl.1⟩
    · cases hB
  bus_valid b B hB := by
    split_ifs at hB with hb
    · obtain ⟨hmem, hlt⟩ := List.mem_filter.mp hB
      rw [if_pos hmem, hb]
      exact ⟨rfl, hlt⟩
    · cases hB
  buffer n d := (routes.find? fun r => r.1 = n ∧ r.2.1 = d).map fun r => r.2.2.2
  is_switch n := n ∈ switches
  is_end n := n ∉ switches
  packet_size
  fix_latency := 0

section Network

variable {switches bus_sources bus_destinations : List ℕ} {node : ℕ → ℕ}
  {routes : List (ℕ × ℕ × ℕ × ℕ)} {size packet_size : ℕ}

lemma network_route {n d B : ℕ} (h : (network switches bus_sources bus_destinations node routes size
    packet_size).buffer n d = some B) :
    ∃ r ∈ routes, r.1 = n ∧ r.2.1 = d ∧ r.2.2.2 = B := by
  obtain ⟨r, hr, hB⟩ := Option.map_eq_some_iff.mp h
  have hfound := List.find?_some hr
  rw [decide_eq_true_eq] at hfound
  exact ⟨r, List.mem_of_find?_eq_some hr, hfound.1, hfound.2, hB⟩

lemma network_target {B d D : ℕ} (h : (network switches bus_sources bus_destinations node routes size
    packet_size).target B d = some D) : 100 ≤ D := by
  unfold Topology.target at h
  cases hconnection : (network switches bus_sources bus_destinations node routes size
      packet_size).connection B with
  | link l =>
    rw [hconnection] at h
    have hmem : D ∈ [100 + l] := List.mem_of_getElem? h
    rw [List.mem_singleton] at hmem
    omega
  | bus b =>
    rw [hconnection] at h
    obtain ⟨_, _, hfound⟩ := Option.bind_eq_some_iff.mp h
    have hmem : D ∈ bus_destinations.filter (100 ≤ ·) := List.mem_of_find?_eq_some hfound
    exact of_decide_eq_true (List.mem_filter.mp hmem).2

lemma network_routed (layout : Layout) (inputs : List ℕ)
    (hroutes : ∀ r ∈ routes, r.1 ∈ layout.nodes ∧ r.2.1 ∈ layout.nodes ∧ r.1 ≠ r.2.1 ∧
      r.2.2.2 ∈ layout.output_buffers r.1 ∧ node r.2.2.2 = r.1 ∧ r.2.2.2 < 100 ∧
      r.2.2.2 ∈ (network switches bus_sources bus_destinations node routes size
        packet_size).sources r.2.2.2 ∧
      ∃ D ∈ inputs, (network switches bus_sources bus_destinations node routes size
          packet_size).target r.2.2.2 r.2.1 = some D ∧
        (network switches bus_sources bus_destinations node routes size packet_size).next_node r.1 r.2.1
          = some (node D) ∧
        (node D = r.2.1 ∨ node D ∈ switches ∧ ∃ r' ∈ routes, (network switches bus_sources
          bus_destinations node routes size packet_size).buffer (node D) r.2.1 = some r'.2.2.2)) :
    WellRouted layout (network switches bus_sources bus_destinations node routes size packet_size) where
  known h := by
    obtain ⟨r, hr, rfl, rfl, rfl⟩ := network_route h
    obtain ⟨hn, hd, hne, hmem, hnode, _⟩ := hroutes r hr
    exact ⟨hn, hd, hne, hmem, hnode⟩
  source h := by
    obtain ⟨r, hr, rfl, rfl, rfl⟩ := network_route h
    obtain ⟨_, _, _, _, _, _, hsource, _⟩ := hroutes r hr
    exact hsource
  target h := by
    obtain ⟨r, hr, rfl, rfl, rfl⟩ := network_route h
    obtain ⟨_, _, _, _, _, _, _, D, _, hD, hnext, hcase⟩ := hroutes r hr
    refine ⟨D, hD, hnext, hcase.imp_right ?_⟩
    rintro ⟨hswitch, r', _, hr'⟩
    exact ⟨decide_eq_true hswitch, _, hr'⟩
  input h htarget := by
    obtain ⟨r, hr, rfl, rfl, rfl⟩ := network_route h
    obtain ⟨_, _, _, _, _, hlt, _⟩ := hroutes r hr
    have hge := network_target htarget
    omega

end Network

instance Fitting.decidable (w : Topology) (largest : ℕ) :
    (op : DeliveryOp) → (s : Delivery) → Decidable (Fitting w largest op s)
  | .send .., _ | .trySend .., _ => inferInstanceAs (Decidable (_ ∧ _ ∧ _))
  | .handle .., _ | .receive .., _ => inferInstanceAs (Decidable (_ ∧ True))

def funnelNode : ℕ → ℕ
  | 0 => 0
  | 1 => 1
  | 102 => 3
  | _ => 2

def funnel : Topology :=
  network [2] [] [] funnelNode [(0, 3, 2, 0), (1, 3, 2, 1), (2, 3, 3, 2)] 2 1

def funnelLayout : Layout where
  nodes := [0, 1, 2, 3]
  output_buffers n := if n < 3 then [n] else []

lemma funnel_routed : WellRouted funnelLayout funnel :=
  network_routed funnelLayout [100, 101, 102] (by decide)

lemma funnel_target {B d D : ℕ} (h : funnel.target B d = some D) : D = 100 + B := by
  have hmem : D ∈ [100 + B] := List.mem_of_getElem? h
  exact List.mem_singleton.mp hmem

lemma funnel_fedOnce : FedOnce funnel := by
  intro n d B n' d' B' D _ hD _ hD' _
  have hB := funnel_target hD
  have hB' := funnel_target hD'
  omega

/-- End nodes 0, 1 and 2 send to end nodes 3, 4 and 5 through switches 6 and 7. -/
def crossingNode : ℕ → ℕ
  | 0 => 0
  | 1 => 1
  | 2 => 2
  | 3 | 4 | 101 | 200 => 6
  | 5 | 6 | 102 | 103 => 7
  | 104 => 4
  | 106 => 5
  | _ => 3

def crossing : Topology :=
  network [6, 7] [0, 5] [200, 201] crossingNode
    [(0, 5, 6, 0), (6, 5, 7, 3), (7, 5, 5, 6), (1, 3, 6, 1), (6, 3, 7, 3), (7, 3, 3, 5),
      (2, 4, 7, 2), (7, 4, 6, 5), (6, 4, 4, 4)] 1 0

def crossingLayout : Layout where
  nodes := [0, 1, 2, 3, 4, 5, 6, 7]
  output_buffers
    | 0 => [0]
    | 1 => [1]
    | 2 => [2]
    | 6 => [3, 4]
    | 7 => [5, 6]
    | _ => []

lemma crossing_routed : WellRouted crossingLayout crossing :=
  network_routed crossingLayout [101, 102, 103, 104, 106, 200, 201] (by decide)

end OISA.Net
