import OISA.Lib.Runs
import OISA.Net.Delivery

/-!
# Conservation of packets

Every packet of a message in the table is in the buffer that it names and nowhere else, and the
space taken in a buffer is the sum of the sizes of its packets.
-/

namespace OISA.Net

open OISA.Lib Delivery

variable {w : Topology} {s s' : Delivery} {out out' : List ℕ} {p B : ℕ}

def Yields {α : Type} (Q : α → Prop) : Except Panic α → Prop
  | .ok a => Q a
  | .error e => e = .other

lemma Yields.bind {α β : Type} {Q : α → Prop} {R : β → Prop} {x : Except Panic α}
    {f : α → Except Panic β} (hx : Yields Q x) (hf : ∀ a, Q a → Yields R (f a)) :
    Yields R (x.bind f) := by
  cases x with
  | ok a => exact hf a hx
  | error e => exact hx

lemma Yields.map {α β : Type} {Q : α → Prop} {R : β → Prop} {x : Except Panic α} {f : α → β}
    (hx : Yields Q x) (hf : ∀ a, Q a → R (f a)) : Yields R (x.map f) := by
  cases x with
  | ok a => exact hf a hx
  | error e => exact hx

lemma Yields.ite {α : Type} {Q : α → Prop} {x y : Except Panic α} {c : Prop} [Decidable c]
    (hx : c → Yields Q x) (hy : ¬c → Yields Q y) : Yields Q (if c then x else y) := by
  by_cases hc : c
  · rw [if_pos hc]
    exact hx hc
  · rw [if_neg hc]
    exact hy hc

def Live (s : Delivery) (p : ℕ) : Prop :=
  ∃ M, s.message_table (s.packets p).message = some M ∧ p ∈ M.packets

def Underway (s : Delivery) (p : ℕ) : Prop :=
  ∃ M, s.message_table (s.packets p).message = some M ∧ p ∈ M.packets ∧ p ∉ M.received_packets

def AtDestination (s : Delivery) (p : ℕ) : Prop :=
  ∃ M, s.message_table (s.packets p).message = some M ∧
    (s.packets p).node = some M.destination_node

lemma Underway.live (h : Underway s p) : Live s p := by
  obtain ⟨M, hM, hp, _⟩ := h
  exact ⟨M, hM, hp⟩

structure Stored (w : Topology) (out : List ℕ) (s : Delivery) : Prop where
  space : ∀ B, (s.buffers B).count =
    ((s.buffers B).packets.map fun p => (s.packets p).size).sum ∧ (s.buffers B).count ≤ w.size B
  nodup : ∀ B, (s.buffers B).packets.Nodup
  place : ∀ p B, p ∈ (s.buffers B).packets ↔
    Live s p ∧ p ∉ out ∧ (s.packets p).buffer = some B
  placed : w.fix_latency = 0 → ∀ p, Live s p → p ∉ out → (s.packets p).buffer ≠ none
  fixed : w.fix_latency ≠ 0 → ∀ p, (s.packets p).buffer = none

/-- What the messages and the events know about the packets -/
structure Tracked (out : List ℕ) (s : Delivery) : Prop where
  owner : ∀ m M, s.message_table m = some M → m < s.num_messages ∧ M.packets.Nodup ∧
    ∀ p ∈ M.packets, p < s.num_packets ∧ (s.packets p).message = m
  events : (s.events.map Prod.fst).Nodup
  pending : ∀ e ∈ s.events, Underway s e.1 ∧ e.1 ∉ out ∧ (e.2 = .receive → AtDestination s e.1)
  arrived : ∀ m M, s.message_table m = some M → M.received_packets.Nodup ∧
    ∀ p ∈ M.received_packets, p ∈ M.packets ∧ (s.packets p).node = some M.destination_node
  returned : ∀ m ∈ s.returned, ∃ M, s.message_table m = some M ∧
    M.received_packets.length = M.packets.length
  once : (s.received.map Reception.message).Nodup
  received : ∀ r ∈ s.received, r.message < s.num_messages ∧ s.message_table r.message = none ∧
    ∀ n ∈ r.nodes, n = some r.destination

structure Conserving (w : Topology) (out : List ℕ) (s : Delivery) : Prop where
  stored : Stored w out s
  tracked : Tracked out s

def Idle (s : Delivery) (p : ℕ) : Prop := ∀ e ∈ s.events, e.1 ≠ p

lemma update_none_eq {table : ℕ → Option Message} {m m' : ℕ} {M : Message}
    (hM : Function.update table m none m' = some M) : m' ≠ m ∧ table m' = some M := by
  rw [Function.update_apply] at hM
  split_ifs at hM with hne
  exact ⟨hne, hM⟩

lemma update_some_eq {table : ℕ → Option Message} {m m' : ℕ} {M M' : Message}
    (hM : Function.update table m (some M') m' = some M) :
    m' = m ∧ M = M' ∨ m' ≠ m ∧ table m' = some M := by
  rw [Function.update_apply] at hM
  split_ifs at hM with hne
  · exact .inl ⟨hne, (Option.some.inj hM).symm⟩
  · exact .inr ⟨hne, hM⟩

lemma Tracked.congr (h : Tracked out s) (htable : s'.message_table = s.message_table)
    (hevents : s'.events = s.events) (hreturned : s'.returned = s.returned)
    (hreceived : s'.received = s.received) (hmessages : s'.num_messages = s.num_messages)
    (hpackets : s'.num_packets = s.num_packets)
    (hmessage : ∀ q, (s'.packets q).message = (s.packets q).message)
    (hnode : ∀ q, (s'.packets q).node = (s.packets q).node ∨ Underway s q ∧ q ∈ out)
    (hout : ∀ q ∈ out', q ∈ out) : Tracked out' s' where
  owner m M hM := by
    rw [htable] at hM
    obtain ⟨hm, hnodup, hpackets'⟩ := h.owner m M hM
    refine ⟨by rwa [hmessages], hnodup, fun p hp => ?_⟩
    rw [hpackets, hmessage]
    exact hpackets' p hp
  events := by rw [hevents]; exact h.events
  pending e he := by
    rw [hevents] at he
    obtain ⟨hunderway, hnot, hdestination⟩ := h.pending e he
    have hsame : (s'.packets e.1).node = (s.packets e.1).node :=
      (hnode e.1).resolve_right fun hin => hnot hin.2
    refine ⟨?_, fun hin => hnot (hout _ hin), fun hreceive => ?_⟩
    · rw [Underway, htable, hmessage]
      exact hunderway
    · rw [AtDestination, htable, hmessage, hsame]
      exact hdestination hreceive
  arrived m M hM := by
    rw [htable] at hM
    obtain ⟨hnodup, harrived⟩ := h.arrived m M hM
    refine ⟨hnodup, fun q hq => ?_⟩
    obtain ⟨hmem, hat⟩ := harrived q hq
    rcases hnode q with hsame | ⟨⟨M', hM', _, hnot⟩, _⟩
    · exact ⟨hmem, hsame.trans hat⟩
    · rw [((h.owner m M hM).2.2 q hmem).2, hM] at hM'
      obtain rfl := Option.some.inj hM'
      exact absurd hq hnot
  returned := by rw [hreturned, htable]; exact h.returned
  once := by rw [hreceived]; exact h.once
  received := by rw [hreceived, hmessages, htable]; exact h.received

lemma Tracked.takeOut (h : Tracked out s) (hidle : Idle s p) : Tracked (p :: out) s :=
  { h with
    pending := fun e he => by
      obtain ⟨hunderway, hnot, hdestination⟩ := h.pending e he
      exact ⟨hunderway, fun hin => (List.mem_cons.mp hin).elim (hidle e he) hnot, hdestination⟩ }

lemma Conserving.schedule (h : Conserving w out s) {stage : Stage} (hunderway : Underway s p)
    (hout : p ∉ out) (hidle : Idle s p) (hstage : stage = .receive → AtDestination s p) :
    Conserving w out (s.schedule p stage) where
  stored := ⟨h.stored.space, h.stored.nodup, h.stored.place, h.stored.placed, h.stored.fixed⟩
  tracked := {
    owner := h.tracked.owner
    events := by
      simp only [Delivery.schedule, List.map_append, List.map_cons, List.map_nil]
      refine List.Nodup.append h.tracked.events (List.nodup_singleton _) ?_
      rw [List.disjoint_singleton]
      intro hp
      obtain ⟨e, he, rfl⟩ := List.mem_map.mp hp
      exact hidle e he rfl
    pending := fun e he => by
      rcases List.mem_append.mp he with he | he
      · exact h.tracked.pending e he
      · rw [List.mem_singleton] at he
        subst he
        exact ⟨hunderway, hout, hstage⟩
    arrived := h.tracked.arrived
    returned := h.tracked.returned
    once := h.tracked.once
    received := h.tracked.received }

lemma setContents_self (s : Delivery) (B : ℕ) (contents : Contents) :
    (s.setContents B contents).buffers B = contents := by
  simp only [Delivery.setContents, Function.update_self]

lemma setContents_of_ne (s : Delivery) {B B' : ℕ} (contents : Contents) (h : B' ≠ B) :
    (s.setContents B contents).buffers B' = s.buffers B' := by
  simp only [Delivery.setContents, Function.update_of_ne h]

/-- A packet leaves its buffer. -/
lemma Conserving.takeOut (h : Conserving w out s) (hp : p ∈ (s.buffers B).packets)
    (hidle : Idle s p) :
    Conserving w (p :: out) (s.setContents B {
      packets := (s.buffers B).packets.erase p
      count := (s.buffers B).count - (s.packets p).size }) where
  stored := {
    space := fun B' => by
      by_cases hB : B' = B
      · subst hB
        rw [setContents_self]
        obtain ⟨hcount, hle⟩ := h.stored.space B'
        have hsum := ((List.perm_cons_erase hp).map fun q => (s.packets q).size).sum_eq
        rw [← hcount, List.map_cons, List.sum_cons] at hsum
        refine ⟨?_, (Nat.sub_le _ _).trans hle⟩
        dsimp only [Delivery.setContents]
        omega
      · rw [setContents_of_ne _ _ hB]
        exact h.stored.space B'
    nodup := fun B' => by
      by_cases hB : B' = B
      · subst hB
        rw [setContents_self]
        exact (h.stored.nodup B').erase p
      · rw [setContents_of_ne _ _ hB]
        exact h.stored.nodup B'
    place := fun q B' => by
      have hbuffer := ((h.stored.place p B).mp hp).2.2
      have hq := h.stored.place q B'
      rw [List.mem_cons, not_or]
      by_cases hB : B' = B
      · subst hB
        rw [setContents_self, (h.stored.nodup B').mem_erase_iff, hq]
        exact ⟨fun ⟨hne, hlive, hout, hin⟩ => ⟨hlive, ⟨hne, hout⟩, hin⟩,
          fun ⟨hlive, ⟨hne, hout⟩, hin⟩ => ⟨hne, hlive, hout, hin⟩⟩
      · rw [setContents_of_ne _ _ hB, hq]
        refine ⟨fun ⟨hlive, hout, hin⟩ => ⟨hlive, ⟨?_, hout⟩, hin⟩,
          fun ⟨hlive, ⟨_, hout⟩, hin⟩ => ⟨hlive, hout, hin⟩⟩
        rintro rfl
        rw [hbuffer] at hin
        exact hB (Option.some.inj hin).symm
    placed := fun hfix q hlive hout =>
      h.stored.placed hfix q hlive fun hin => hout (List.mem_cons_of_mem p hin)
    fixed := h.stored.fixed }
  tracked :=
    (h.tracked.takeOut hidle).congr rfl rfl rfl rfl rfl rfl (fun _ => rfl) (fun _ => .inl rfl)
      fun _ hq => hq

/-- A packet comes back into a buffer with space for it. -/
lemma Conserving.put (h : Conserving w (p :: out) s) (hfix : w.fix_latency = 0)
    (hunderway : Underway s p) (hout : p ∉ out)
    (hroom : (s.buffers B).count + (s.packets p).size ≤ w.size B) (node : Option ℕ) :
    Yields (fun s' => Conserving w out s' ∧ Underway s' p ∧ s'.events = s.events ∧
      s'.message_table = s.message_table ∧
        (∀ q, (s'.packets q).message = (s.packets q).message) ∧
        (∀ q, (s'.packets q).size = (s.packets q).size) ∧
        (s'.buffers B).count = (s.buffers B).count + (s.packets p).size) (s.put w B p node) := by
  rw [Delivery.put, InsertPacket, if_neg (not_lt.mpr hroom)]
  set s₁ := s.setContents B {
    packets := (s.buffers B).packets ++ [p]
    count := (s.buffers B).count + (s.packets p).size }
  set s' := s₁.setPacket p { s₁.packets p with
    node
    buffer := some B }
  have hself : s'.packets p = { s.packets p with
      node
      buffer := some B } := Function.update_self p _ s.packets
  have hother : ∀ q, q ≠ p → s'.packets q = s.packets q :=
    fun q hq => Function.update_of_ne hq _ s.packets
  have hmessage : ∀ q, (s'.packets q).message = (s.packets q).message := by
    intro q
    by_cases hq : q = p
    · rw [hq, hself]
    · rw [hother q hq]
  have hsize : ∀ q, (s'.packets q).size = (s.packets q).size := by
    intro q
    by_cases hq : q = p
    · rw [hq, hself]
    · rw [hother q hq]
  have hlive : ∀ q, Live s' q ↔ Live s q := by
    intro q
    unfold Live
    rw [hmessage]
    rfl
  have hB : s'.buffers B = {
      packets := (s.buffers B).packets ++ [p]
      count := (s.buffers B).count + (s.packets p).size } := setContents_self s B _
  have hB' : ∀ B', B' ≠ B → s'.buffers B' = s.buffers B' := fun B' hne => setContents_of_ne s _ hne
  have hnotin : ∀ B', p ∉ (s.buffers B').packets := fun B' hin =>
    ((h.stored.place p B').mp hin).2.1 List.mem_cons_self
  refine ⟨⟨?_, ?_⟩, ?_, rfl, rfl, hmessage, hsize, by rw [hB]⟩
  · exact {
      space := fun B' => by
        have hsizes : (fun q => (s'.packets q).size) = fun q => (s.packets q).size := funext hsize
        rw [hsizes]
        by_cases hne : B' = B
        · rw [hne, hB]
          obtain ⟨hcount, _⟩ := h.stored.space B
          refine ⟨?_, hroom⟩
          rw [List.map_append, List.sum_append, ← hcount, List.map_singleton, List.sum_singleton]
        · rw [hB' B' hne]
          exact h.stored.space B'
      nodup := fun B' => by
        by_cases hne : B' = B
        · rw [hne, hB]
          refine List.Nodup.append (h.stored.nodup B) (List.nodup_singleton p) ?_
          rw [List.disjoint_singleton]
          exact hnotin B
        · rw [hB' B' hne]
          exact h.stored.nodup B'
      place := fun q B' => by
        rw [hlive]
        by_cases hq : q = p
        · subst hq
          rw [hself]
          constructor
          · intro hin
            refine ⟨hunderway.live, hout, ?_⟩
            by_contra hne
            rw [hB' B' (fun hB => hne (congrArg some hB.symm))] at hin
            exact hnotin B' hin
          · rintro ⟨_, _, hin⟩
            obtain rfl := Option.some.inj hin
            rw [hB]
            exact List.mem_append_right _ List.mem_cons_self
        · rw [hother q hq]
          have hplace := h.stored.place q B'
          rw [List.mem_cons, not_or] at hplace
          have hcontents : q ∈ (s'.buffers B').packets ↔ q ∈ (s.buffers B').packets := by
            by_cases hne : B' = B
            · rw [hne, hB, List.mem_append, List.mem_singleton, or_iff_left hq]
            · rw [hB' B' hne]
          rw [hcontents, hplace, and_iff_right hq]
      placed := fun _ q hq hnot => by
        by_cases hqp : q = p
        · rw [hqp, hself]
          exact Option.some_ne_none B
        · rw [hother q hqp]
          refine h.stored.placed hfix q ((hlive q).mp hq) ?_
          exact fun hin => (List.mem_cons.mp hin).elim hqp hnot
      fixed := fun hne => absurd hfix hne }
  · refine h.tracked.congr rfl rfl rfl rfl rfl rfl hmessage (fun q => ?_)
      fun q hq => List.mem_cons_of_mem p hq
    by_cases hq : q = p
    · subst hq
      exact .inr ⟨hunderway, List.mem_cons_self⟩
    · rw [hother q hq]
      exact .inl rfl
  · rw [Underway, hmessage]
    exact hunderway

lemma extract_head (hhead : (s.buffers B).packets.head? = some p) :
    s.ExtractPacket B = .ok (s.setContents B {
      packets := (s.buffers B).packets.erase p
      count := (s.buffers B).count - (s.packets p).size }) := by
  obtain ⟨ps, hps⟩ := List.head?_eq_some_iff.mp hhead
  rw [ExtractPacket, hps, List.erase_cons_head]

lemma space_extract {D size count : ℕ} {ps : List ℕ} (hcount : count ≤ (s.buffers B).count)
    (hroom : (s.buffers D).count + size ≤ w.size D) :
    ((s.setContents B {
      packets := ps
      count }).buffers D).count + size ≤ w.size D := by
  by_cases hD : D = B
  · subst hD
    rw [setContents_self]
    exact le_trans (Nat.add_le_add_right hcount _) hroom
  · rw [setContents_of_ne _ _ hD]
    exact hroom

lemma Conserving.move (h : Conserving w [] s) {D : ℕ} {stage : Stage}
    (hhead : (s.buffers B).packets.head? = some p) (hunderway : Underway s p) (hidle : Idle s p)
    (hroom : (s.buffers D).count + (s.packets p).size ≤ w.size D) (hstage : stage ≠ .receive)
    (node : Option ℕ) : Yields (Conserving w []) (s.move w B D p node stage) := by
  have hp : p ∈ (s.buffers B).packets := List.mem_of_head? hhead
  have hfix : w.fix_latency = 0 := by
    by_contra hne
    have hbuffer := ((h.stored.place p B).mp hp).2.2
    rw [h.stored.fixed hne] at hbuffer
    cases hbuffer
  have hout := h.takeOut hp hidle
  rw [Delivery.move, extract_head hhead]
  refine (hout.put hfix hunderway List.not_mem_nil
    (space_extract (Nat.sub_le _ _) hroom) node).map fun s₂ hs₂ => ?_
  obtain ⟨h₂, hunderway₂, hevents, _⟩ := hs₂
  refine h₂.schedule hunderway₂ List.not_mem_nil ?_ (fun hreceive => absurd hreceive hstage)
  unfold Idle
  rw [hevents]
  exact hidle

lemma Conserving.retry (h : Conserving w [] s) (hunderway : Underway s p) (hidle : Idle s p)
    {stage : Stage} (hstage : stage ≠ .receive) : Conserving w [] (s.schedule p stage) :=
  h.schedule hunderway List.not_mem_nil hidle fun hreceive => absurd hreceive hstage

lemma Conserving.linkTransferPacket (h : Conserving w [] s) (hunderway : Underway s p)
    (hidle : Idle s p) (l : ℕ) (blocked : Bool) :
    Yields (Conserving w []) (s.linkTransferPacket w l B p blocked) := by
  have hretry : Conserving w [] (s.schedule p .output) := h.retry hunderway hidle nofun
  unfold Delivery.linkTransferPacket
  refine .ite (fun _ => rfl) fun _ => .ite (fun _ => hretry) fun hblocked => ?_
  rw [not_or, not_not] at hblocked
  cases (w.link_destinations l)[(w.link_sources l).idxOf B]? with
  | none => exact rfl
  | some D =>
    refine .ite (fun _ => hretry) fun hfull => ?_
    exact h.move hblocked.1 hunderway hidle (not_lt.mp hfull) (by decide) _

lemma Conserving.busTransferPacket (h : Conserving w [] s) (hunderway : Underway s p)
    (hidle : Idle s p) (b : ℕ) (message : Message) (blocked : Bool) :
    Yields (Conserving w []) (s.busTransferPacket w b B p message blocked) := by
  have hretry : Conserving w [] (s.schedule p .output) := h.retry hunderway hidle nofun
  unfold Delivery.busTransferPacket
  refine .ite (fun _ => rfl) fun _ => .ite (fun _ => hretry) fun hhead => ?_
  rw [not_not] at hhead
  cases (w.next_node (w.node B) message.destination_node).bind fun node =>
      (w.bus_destinations b).find? fun D => w.node D = node with
  | none => exact rfl
  | some D =>
    refine .ite (fun _ => hretry) fun _ => .ite (fun _ => rfl) fun _ => ?_
    refine .ite (fun _ => hretry) fun hfull => ?_
    exact h.move hhead hunderway hidle (not_lt.mp hfull) (by decide) _

lemma Conserving.outputBuffer (h : Conserving w [] s) (hunderway : Underway s p) (hidle : Idle s p)
    (message : Message) (blocked : Bool) :
    Yields (Conserving w []) (s.EventTypeOutputBufferHandler w p message blocked) := by
  unfold EventTypeOutputBufferHandler
  cases (s.packets p).buffer with
  | none => exact rfl
  | some B =>
    dsimp only
    cases w.connection B with
    | link l => exact h.linkTransferPacket hunderway hidle l blocked
    | bus b => exact h.busTransferPacket hunderway hidle b message blocked

lemma Conserving.forward (h : Conserving w [] s) (hunderway : Underway s p) (hidle : Idle s p)
    (hhead : (s.buffers B).packets.head? = some p) (node : ℕ) (message : Message)
    (blocked : Bool) : Yields (Conserving w []) (s.Forward w node B p message blocked) := by
  have hretry : Conserving w [] (s.schedule p .input) := h.retry hunderway hidle nofun
  unfold Forward
  refine .ite (fun _ => rfl) fun _ => ?_
  cases w.buffer node message.destination_node with
  | none => exact rfl
  | some D =>
    refine .ite (fun _ => hretry) fun _ => .ite (fun _ => rfl) fun _ => ?_
    refine .ite (fun _ => hretry) fun hfull => ?_
    exact h.move hhead hunderway hidle (not_lt.mp hfull) (by decide) _

lemma Conserving.inputBuffer (h : Conserving w [] s) (hunderway : Underway s p) (hidle : Idle s p)
    {message : Message} (hmessage : s.message_table (s.packets p).message = some message)
    (blocked : Bool) :
    Yields (Conserving w []) (s.EventTypeInputBufferHandler w p message blocked) := by
  unfold EventTypeInputBufferHandler
  cases hnode : (s.packets p).node with
  | none => exact rfl
  | some node => cases hbuffer : (s.packets p).buffer with
    | none => exact rfl
    | some B =>
      dsimp only
      refine .ite (fun hdestination => ?_) fun _ => .ite (fun _ => ?_) fun hhead => ?_
      · refine h.schedule hunderway List.not_mem_nil hidle fun _ => ⟨message, hmessage, ?_⟩
        rw [hnode, hdestination]
      · exact h.retry hunderway hidle nofun
      · refine .ite (fun _ => rfl) fun _ => ?_
        exact h.forward hunderway hidle (not_not.mp hhead) node message blocked

lemma Conserving.removePackets {ps : List ℕ} (h : Conserving w out s) (hfix : w.fix_latency = 0)
    (hnodup : ps.Nodup) (hps : ∀ q ∈ ps, Live s q ∧ q ∉ out ∧ Idle s q) :
    Yields (fun s' => Conserving w (ps.reverse ++ out) s' ∧ s' = { s with buffers := s'.buffers })
      (removePackets ps s) := by
  induction ps generalizing s out with
  | nil => exact ⟨h, rfl⟩
  | cons p ps ih =>
    obtain ⟨hlive, hout, hidle⟩ := hps p List.mem_cons_self
    obtain ⟨hp, hnodup⟩ := List.nodup_cons.mp hnodup
    rw [Delivery.removePackets]
    cases hbuffer : (s.packets p).buffer with
    | none => exact absurd hbuffer (h.stored.placed hfix p hlive hout)
    | some B =>
      have hin := (h.stored.place p B).mpr ⟨hlive, hout, hbuffer⟩
      dsimp only
      rw [RemovePacket, if_neg (not_not.mpr hin)]
      have hrest := ih (h.takeOut hin hidle) hnodup fun q hq => by
        obtain ⟨hlive', hout', hidle'⟩ := hps q (List.mem_cons_of_mem p hq)
        refine ⟨hlive', fun hmem => ?_, hidle'⟩
        rcases List.mem_cons.mp hmem with rfl | hmem
        · exact hp hq
        · exact hout' hmem
      rw [List.reverse_cons, List.append_assoc]
      exact hrest

/-- A message whose packets are all out of the buffers leaves the table. -/
lemma Conserving.delete (h : Conserving w out s) {m : ℕ} {M : Message}
    (hM : s.message_table m = some M) (hout : ∀ q ∈ out, q ∈ M.packets)
    (hgone : ∀ q ∈ M.packets, ∀ B, q ∉ (s.buffers B).packets) (hidle : ∀ q ∈ M.packets, Idle s q)
    (hreturned : m ∉ s.returned)
    (hat : ∀ q ∈ M.packets, (s.packets q).node = some M.destination_node) :
    Conserving w [] { s with
      message_table := Function.update s.message_table m none
      received := s.received ++ [{
        message := m
        destination := M.destination_node
        nodes := M.packets.map fun q => (s.packets q).node }] } := by
  obtain ⟨hm, _, howner⟩ := h.tracked.owner m M hM
  have hkeep : ∀ q, q ∉ M.packets → ∀ M', s.message_table (s.packets q).message = some M' →
      q ∈ M'.packets → Function.update s.message_table m none (s.packets q).message = some M' := by
    intro q hq M' hM' hmem
    have hne : (s.packets q).message ≠ m := by
      intro hsame
      rw [hsame, hM] at hM'
      obtain rfl := Option.some.inj hM'
      exact hq hmem
    rw [Function.update_of_ne hne, hM']
  refine ⟨{
    space := h.stored.space
    nodup := h.stored.nodup
    place := fun q B => ?_
    placed := fun hfix q hlive _ => ?_
    fixed := h.stored.fixed }, {
    owner := fun m' M' hM' => h.tracked.owner m' M' (update_none_eq hM').2
    events := h.tracked.events
    pending := fun e he => ?_
    arrived := fun m' M' hM' => h.tracked.arrived m' M' (update_none_eq hM').2
    returned := fun m' hm' => ?_
    once := ?_
    received := fun r hr => ?_ }⟩
  · rw [h.stored.place]
    constructor
    · rintro ⟨hlive, hnot, hbuffer⟩
      have hq : q ∉ M.packets := fun hmem =>
        hgone q hmem B ((h.stored.place q B).mpr ⟨hlive, hnot, hbuffer⟩)
      obtain ⟨M', hM', hmem⟩ := hlive
      exact ⟨⟨M', hkeep q hq M' hM' hmem, hmem⟩, List.not_mem_nil, hbuffer⟩
    · rintro ⟨⟨M', hM', hmem⟩, _, hbuffer⟩
      obtain ⟨hne, hM'⟩ := update_none_eq hM'
      exact ⟨⟨M', hM', hmem⟩, fun hin => hne (howner q (hout q hin)).2, hbuffer⟩
  · obtain ⟨M', hM', hmem⟩ := hlive
    obtain ⟨hne, hM'⟩ := update_none_eq hM'
    exact h.stored.placed hfix q ⟨M', hM', hmem⟩ fun hin => hne (howner q (hout q hin)).2
  · obtain ⟨⟨M', hM', hmem, hnot⟩, _, hdestination⟩ := h.tracked.pending e he
    have hkept := hkeep e.1 (fun hin => hidle e.1 hin e he rfl) M' hM' hmem
    refine ⟨⟨M', hkept, hmem, hnot⟩, List.not_mem_nil, fun hreceive => ?_⟩
    obtain ⟨M₂, hM₂, hnode⟩ := hdestination hreceive
    rw [hM'] at hM₂
    obtain rfl := Option.some.inj hM₂
    exact ⟨M', hkept, hnode⟩
  · have hne : m' ≠ m := by
      rintro rfl
      exact hreturned hm'
    dsimp only
    rw [Function.update_of_ne hne]
    exact h.tracked.returned m' hm'
  · rw [List.map_append, List.map_singleton]
    refine List.Nodup.append h.tracked.once (List.nodup_singleton _) ?_
    rw [List.disjoint_singleton]
    intro hin
    obtain ⟨r, hr, hrm⟩ := List.mem_map.mp hin
    have hnone := (h.tracked.received r hr).2.1
    rw [hrm, hM] at hnone
    cases hnone
  · rcases List.mem_append.mp hr with hr | hr
    · obtain ⟨hlt, hnone, hnodes⟩ := h.tracked.received r hr
      refine ⟨hlt, ?_, hnodes⟩
      dsimp only
      rw [Function.update_apply]
      split_ifs
      · rfl
      · exact hnone
    · rw [List.mem_singleton] at hr
      subst hr
      refine ⟨hm, Function.update_self m none s.message_table, fun n hn => ?_⟩
      obtain ⟨q, hq, rfl⟩ := List.mem_map.mp hn
      exact hat q hq

lemma Tracked.all_received (h : Tracked out s) {m : ℕ} {M : Message}
    (hM : s.message_table m = some M) (hall : M.received_packets.length = M.packets.length) :
    ∀ q ∈ M.packets, q ∈ M.received_packets := by
  obtain ⟨hreceived, harrived⟩ := h.arrived m M hM
  have hperm : M.received_packets.Perm M.packets :=
    (hreceived.subperm fun q hq => (harrived q hq).1).perm_of_length_le hall.ge
  exact fun q hq => hperm.mem_iff.mpr hq

lemma Tracked.not_returned (h : Tracked out s) {M : Message}
    (hM : s.message_table (s.packets p).message = some M) (hp : p ∈ M.packets)
    (hnot : p ∉ M.received_packets) : (s.packets p).message ∉ s.returned := by
  intro hin
  obtain ⟨M', hM', hall⟩ := h.returned _ hin
  rw [hM] at hM'
  obtain rfl := Option.some.inj hM'
  exact hnot (h.all_received hM hall p hp)

lemma Conserving.receive (h : Conserving w [] s) {m : ℕ} {M : Message}
    (hM : s.message_table m = some M) (hall : M.received_packets.length = M.packets.length)
    (hreturned : m ∉ s.returned) (node : ℕ) : Yields (Conserving w []) (s.Receive w node m) := by
  obtain ⟨_, hnodup, howner⟩ := h.tracked.owner m M hM
  have hreceived := h.tracked.all_received hM hall
  have hat : ∀ q ∈ M.packets, (s.packets q).node = some M.destination_node :=
    fun q hq => ((h.tracked.arrived m M hM).2 q (hreceived q hq)).2
  -- packets that are assembled have no event
  have hidle : ∀ q ∈ M.packets, Idle s q := by
    rintro q hq e he rfl
    obtain ⟨⟨M', hM', _, hnot⟩, _⟩ := h.tracked.pending e he
    rw [(howner e.1 hq).2, hM] at hM'
    obtain rfl := Option.some.inj hM'
    exact hnot (hreceived _ hq)
  have hlive : ∀ q ∈ M.packets, Live s q := fun q hq =>
    ⟨M, by rw [(howner q hq).2, hM], hq⟩
  unfold Delivery.Receive
  rw [hM]
  refine .ite (fun _ => rfl) fun _ => ?_
  by_cases hfix : w.fix_latency = 0
  · rw [if_pos hfix]
    refine (h.removePackets hfix hnodup fun q hq =>
      ⟨hlive q hq, List.not_mem_nil, hidle q hq⟩).map fun s₁ hs₁ => ?_
    obtain ⟨h₁, heq⟩ := hs₁
    have htable : s₁.message_table = s.message_table := by rw [heq]
    have hpackets : s₁.packets = s.packets := by rw [heq]
    have hevents : s₁.events = s.events := by rw [heq]
    have hreturned' : s₁.returned = s.returned := by rw [heq]
    rw [List.append_nil] at h₁
    refine h₁.delete (by rw [htable, hM]) (fun q hq => List.mem_reverse.mp hq) ?_ ?_
      (by rwa [hreturned']) (by rwa [hpackets])
    · intro q hq B hin
      exact ((h₁.stored.place q B).mp hin).2.1 (List.mem_reverse.mpr hq)
    · unfold Idle
      rw [hevents]
      exact hidle
  · rw [if_neg hfix]
    refine h.delete hM (fun q hq => absurd hq List.not_mem_nil) (fun q _ B hin => ?_) hidle
      hreturned hat
    have hbuffer := ((h.stored.place q B).mp hin).2.2
    rw [h.stored.fixed hfix] at hbuffer
    cases hbuffer

/-- A packet at the destination is assembled. -/
lemma Conserving.assemble (h : Conserving w [] s) {M : Message}
    (hM : s.message_table (s.packets p).message = some M) (hp : p ∈ M.packets)
    (hnot : p ∉ M.received_packets) (hidle : Idle s p)
    (hnode : (s.packets p).node = some M.destination_node) :
    Conserving w [] { s with
      message_table := Function.update s.message_table (s.packets p).message (some { M with
        received_packets := M.received_packets ++ [p] }) } := by
  set M' : Message := { M with received_packets := M.received_packets ++ [p] } with hM'
  set m := (s.packets p).message with hm
  have hlive : ∀ q, (∃ M₂, Function.update s.message_table m (some M') (s.packets q).message =
      some M₂ ∧ q ∈ M₂.packets) ↔ Live s q := by
    intro q
    by_cases hne : (s.packets q).message = m
    · unfold Live
      rw [hne, Function.update_self, hM]
      constructor
      · rintro ⟨M₂, hM₂, hq⟩
        obtain rfl := Option.some.inj hM₂
        exact ⟨M, rfl, hq⟩
      · rintro ⟨M₂, hM₂, hq⟩
        obtain rfl := Option.some.inj hM₂
        exact ⟨M', rfl, hq⟩
    · unfold Live
      rw [Function.update_of_ne hne]
  obtain ⟨hlt, hnodup, howner⟩ := h.tracked.owner m M hM
  obtain ⟨hreceived, harrived⟩ := h.tracked.arrived m M hM
  refine ⟨{
    space := h.stored.space
    nodup := h.stored.nodup
    place := fun q B => (h.stored.place q B).trans (and_congr_left fun _ => (hlive q).symm)
    placed := fun hfix q hq => h.stored.placed hfix q ((hlive q).mp hq)
    fixed := h.stored.fixed }, {
    owner := fun m' M₂ hM₂ => ?_
    events := h.tracked.events
    pending := fun e he => ?_
    arrived := fun m' M₂ hM₂ => ?_
    returned := fun m' hm' => ?_
    once := h.tracked.once
    received := fun r hr => ?_ }⟩
  · rcases update_some_eq hM₂ with ⟨rfl, rfl⟩ | ⟨_, hM₂⟩
    · exact ⟨hlt, hnodup, howner⟩
    · exact h.tracked.owner m' M₂ hM₂
  · obtain ⟨⟨M₂, hM₂, hmem, hout⟩, _, hdestination⟩ := h.tracked.pending e he
    by_cases hne : (s.packets e.1).message = m
    · rw [hne, hM] at hM₂
      obtain rfl := Option.some.inj hM₂
      have hself : Function.update s.message_table m (some M') (s.packets e.1).message = some M' := by
        rw [hne, Function.update_self]
      refine ⟨⟨M', hself, hmem, ?_⟩, List.not_mem_nil, fun hreceive => ⟨M', hself, ?_⟩⟩
      · rw [hM', List.mem_append, List.mem_singleton, not_or]
        exact ⟨hout, hidle e he⟩
      · obtain ⟨M₃, hM₃, hnode'⟩ := hdestination hreceive
        rw [hne, hM] at hM₃
        obtain rfl := Option.some.inj hM₃
        exact hnode'
    · unfold Underway AtDestination
      dsimp only
      rw [Function.update_of_ne hne]
      exact ⟨⟨M₂, hM₂, hmem, hout⟩, List.not_mem_nil, hdestination⟩
  · rcases update_some_eq hM₂ with ⟨rfl, rfl⟩ | ⟨_, hM₂⟩
    · refine ⟨?_, fun q hq => ?_⟩
      · refine List.Nodup.append hreceived (List.nodup_singleton p) ?_
        rw [List.disjoint_singleton]
        exact hnot
      · rcases List.mem_append.mp hq with hq | hq
        · exact harrived q hq
        · rw [List.mem_singleton] at hq
          subst hq
          exact ⟨hp, hnode⟩
    · exact h.tracked.arrived m' M₂ hM₂
  · have hne : m' ≠ m := by
      rintro rfl
      exact h.tracked.not_returned hM hp hnot hm'
    obtain ⟨M₂, hM₂, hall⟩ := h.tracked.returned m' hm'
    exact ⟨M₂, by dsimp only; rw [Function.update_of_ne hne, hM₂], hall⟩
  · obtain ⟨hr₁, hnone, hnodes⟩ := h.tracked.received r hr
    refine ⟨hr₁, ?_, hnodes⟩
    have hne : r.message ≠ m := by
      intro hsame
      rw [hsame, hM] at hnone
      cases hnone
    dsimp only
    rw [Function.update_of_ne hne, hnone]

lemma Conserving.receiveEvent (h : Conserving w [] s) {M : Message}
    (hM : s.message_table (s.packets p).message = some M) (hp : p ∈ M.packets)
    (hnot : p ∉ M.received_packets) (hidle : Idle s p)
    (hnode : (s.packets p).node = some M.destination_node) :
    Yields (Conserving w []) (s.EventTypeReceiveHandler w p M) := by
  have hassembled := h.assemble hM hp hnot hidle hnode
  have hself := Function.update_self (s.packets p).message
    (some { M with received_packets := M.received_packets ++ [p] }) s.message_table
  have hreturned := h.tracked.not_returned hM hp hnot
  unfold EventTypeReceiveHandler
  rw [hnode]
  refine .ite (fun _ => rfl) fun _ => ?_
  rw [Assemble, if_neg (not_not.mpr hp), if_neg hnot]
  refine .ite (fun hcomplete => ?_) fun _ => hassembled
  rw [decide_eq_true_eq] at hcomplete
  refine .ite (fun _ => ?_) fun _ => ?_
  · exact hassembled.receive hself hcomplete hreturned _
  · refine ⟨⟨hassembled.stored.space, hassembled.stored.nodup, hassembled.stored.place,
      hassembled.stored.placed, hassembled.stored.fixed⟩, {
      owner := hassembled.tracked.owner
      events := hassembled.tracked.events
      pending := hassembled.tracked.pending
      arrived := hassembled.tracked.arrived
      returned := fun m' hm' => ?_
      once := hassembled.tracked.once
      received := hassembled.tracked.received }⟩
    rcases List.mem_append.mp hm' with hm' | hm'
    · exact hassembled.tracked.returned m' hm'
    · rw [List.mem_singleton] at hm'
      subst hm'
      exact ⟨_, hself, hcomplete⟩

/-- A packet that goes around the network of constant latency. -/
lemma Conserving.teleport (h : Conserving w (p :: out) s) (hfix : w.fix_latency ≠ 0)
    (hunderway : Underway s p) (node : Option ℕ) :
    Conserving w out (s.setPacket p { s.packets p with node }) := by
  have hother : ∀ q, q ≠ p → (s.setPacket p { s.packets p with node }).packets q = s.packets q :=
    fun q hq => Function.update_of_ne hq _ s.packets
  have hself : (s.setPacket p { s.packets p with node }).packets p = { s.packets p with node } :=
    Function.update_self p _ s.packets
  have hmessage : ∀ q, ((s.setPacket p { s.packets p with node }).packets q).message =
      (s.packets q).message := by
    intro q
    by_cases hq : q = p
    · rw [hq, hself]
    · rw [hother q hq]
  have hsize : ∀ q, ((s.setPacket p { s.packets p with node }).packets q).size =
      (s.packets q).size := by
    intro q
    by_cases hq : q = p
    · rw [hq, hself]
    · rw [hother q hq]
  have hbuffer : ∀ q, ((s.setPacket p { s.packets p with node }).packets q).buffer = none := by
    intro q
    by_cases hq : q = p
    · rw [hq, hself]
      exact h.stored.fixed hfix p
    · rw [hother q hq]
      exact h.stored.fixed hfix q
  refine ⟨{
    space := fun B => ?_
    nodup := h.stored.nodup
    place := fun q B => ?_
    placed := fun hzero => absurd hzero hfix
    fixed := fun _ => hbuffer }, ?_⟩
  · have hsizes := funext hsize
    rw [hsizes]
    exact h.stored.space B
  · rw [hbuffer]
    constructor
    · intro hin
      have hin' := ((h.stored.place q B).mp hin).2.2
      rw [h.stored.fixed hfix] at hin'
      cases hin'
    · rintro ⟨_, _, hnone⟩
      cases hnone
  · refine h.tracked.congr rfl rfl rfl rfl rfl rfl hmessage (fun q => ?_)
      fun q hq => List.mem_cons_of_mem p hq
    by_cases hq : q = p
    · subst hq
      exact .inr ⟨hunderway, List.mem_cons_self⟩
    · rw [hother q hq]
      exact .inl rfl

/-- The packets of a message are put into the output buffer, which has space for all of them. -/
lemma Conserving.sendPackets {ps : List ℕ} {M : Message} (h : Conserving w ps s)
    (hnodup : ps.Nodup)
    (hps : ∀ q ∈ ps, s.message_table (s.packets q).message = some M ∧ q ∈ M.packets ∧
      q ∉ M.received_packets)
    (hroom : w.fix_latency = 0 → ∀ B, w.buffer M.source_node M.destination_node = some B →
      (s.buffers B).count + (ps.map fun q => (s.packets q).size).sum ≤ w.size B) :
    Yields (Conserving w []) (sendPackets w M ps s) := by
  induction ps generalizing s with
  | nil => exact h
  | cons p ps ih =>
    obtain ⟨hM, hp, hnot⟩ := hps p List.mem_cons_self
    obtain ⟨hout, hnodup⟩ := List.nodup_cons.mp hnodup
    have hunderway : Underway s p := ⟨M, hM, hp, hnot⟩
    have hidle : Idle s p := by
      rintro e he rfl
      exact (h.tracked.pending e he).2.1 List.mem_cons_self
    rw [Delivery.sendPackets]
    suffices hstep : Yields (fun s' => Conserving w ps s' ∧ s'.message_table = s.message_table ∧
        (∀ q, (s'.packets q).message = (s.packets q).message) ∧
        (w.fix_latency = 0 → ∀ B, w.buffer M.source_node M.destination_node = some B →
          (s'.buffers B).count + (ps.map fun q => (s'.packets q).size).sum ≤ w.size B))
        (s.EventTypeSendHandler w p M) by
      refine hstep.bind fun s' hs' => ?_
      obtain ⟨h', htable, hmessage, hroom'⟩ := hs'
      refine ih h' hnodup (fun q hq => ?_) hroom'
      rw [htable, hmessage]
      exact hps q (List.mem_cons_of_mem p hq)
    unfold EventTypeSendHandler
    refine .ite (fun hfix => ?_) fun hfix => ?_
    · have hself : (s.setPacket p { s.packets p with
          node := some M.destination_node }).packets p = { s.packets p with
          node := some M.destination_node } := Function.update_self p _ s.packets
      have hmessage : ∀ q, ((s.setPacket p { s.packets p with
          node := some M.destination_node }).packets q).message = (s.packets q).message := by
        intro q
        by_cases hq : q = p
        · rw [hq, hself]
        · exact congrArg MessagePacket.message (Function.update_of_ne hq _ s.packets)
      refine ⟨?_, rfl, hmessage, fun hzero => absurd hzero hfix⟩
      refine (h.teleport hfix hunderway (some M.destination_node)).schedule ?_ hout hidle
        fun _ => ⟨M, ?_, ?_⟩
      · rw [Underway, hmessage]
        exact hunderway
      · rw [hmessage]
        exact hM
      · rw [hself]
    · rw [not_not] at hfix
      cases hB : w.buffer M.source_node M.destination_node with
      | none => exact rfl
      | some B =>
        have hspace := hroom hfix B hB
        rw [List.map_cons, List.sum_cons] at hspace
        refine .ite (fun _ => rfl) fun _ => .ite (fun hfull => by omega) fun hfits => ?_
        refine (h.put hfix hunderway hout (not_lt.mp hfits) _).map fun s' hs' => ?_
        obtain ⟨h', hunderway', hevents, htable, hmessage, hsize, hcount⟩ := hs'
        have hidle' : Idle s' p := by
          unfold Idle
          rw [hevents]
          exact hidle
        refine ⟨h'.schedule hunderway' hout hidle' nofun, htable, hmessage, fun _ B' hB' => ?_⟩
        obtain rfl := Option.some.inj hB'
        have hsizes : (fun q => (s'.packets q).size) = fun q => (s.packets q).size := funext hsize
        change (s'.buffers B).count + (ps.map fun q => (s'.packets q).size).sum ≤ w.size B
        rw [hsizes, hcount]
        omega

/-- The packets of a new message are out of the buffers. -/
lemma Conserving.newMessage (h : Conserving w [] s) (source destination size : ℕ)
    (automatic_receive : Bool) :
    Conserving w (List.range' s.num_packets (packetCount w size))
      (s.newMessage w source destination size automatic_receive).2 := by
  set M := (s.newMessage w source destination size automatic_receive).1 with hM
  set s' := (s.newMessage w source destination size automatic_receive).2 with hs'
  have hpackets : List.range' s.num_packets (packetCount w size) = M.packets := rfl
  rw [hpackets]
  have hfresh : ∀ q ∈ M.packets, s.num_packets ≤ q ∧ q < s.num_packets + packetCount w size := by
    intro q hq
    rw [← hpackets, List.mem_range'_1] at hq
    exact hq
  have hnew : ∀ q ∈ M.packets, s'.packets q = {
      size := packetSize w size
      message := s.num_messages
      node := none
      buffer := none } := fun q hq => if_pos hq
  have hold : ∀ q, q ∉ M.packets → s'.packets q = s.packets q := fun q hq => if_neg hq
  have htable : ∀ m, s'.message_table m =
      if m = s.num_messages then some M else s.message_table m :=
    fun m => Function.update_apply s.message_table _ _ _
  have hnone : s.message_table s.num_messages = none := by
    cases hsome : s.message_table s.num_messages with
    | none => rfl
    | some M' => exact absurd (h.tracked.owner _ M' hsome).1 (lt_irrefl _)
  have holdpacket : ∀ q, Live s q → q ∉ M.packets := by
    rintro q ⟨M', hM', hq⟩ hin
    exact absurd ((h.tracked.owner _ M' hM').2.2 q hq).1 (not_lt.mpr (hfresh q hin).1)
  have hkeep : ∀ m M', s.message_table m = some M' → s'.message_table m = some M' := by
    intro m M' hM'
    rw [htable, if_neg, hM']
    rintro rfl
    rw [hnone] at hM'
    cases hM'
  have hlive : ∀ q, q ∉ M.packets → (Live s' q ↔ Live s q) := by
    intro q hq
    unfold Live
    rw [hold q hq, htable]
    split_ifs with hm
    · rw [hm, hnone]
      constructor
      · rintro ⟨M', hM', hin⟩
        obtain rfl := Option.some.inj hM'
        exact absurd hin hq
      · rintro ⟨_, hM', _⟩
        cases hM'
    · rfl
  have hstored : ∀ B, ∀ q ∈ (s.buffers B).packets, q ∉ M.packets := fun B q hq =>
    holdpacket q ((h.stored.place q B).mp hq).1
  refine ⟨{
    space := fun B => ?_
    nodup := h.stored.nodup
    place := fun q B => ?_
    placed := fun hfix q hq hout => ?_
    fixed := fun hfix q => ?_ }, {
    owner := fun m M' hM' => ?_
    events := h.tracked.events
    pending := fun e he => ?_
    arrived := fun m M' hM' => ?_
    returned := fun m hm => ?_
    once := h.tracked.once
    received := fun r hr => ?_ }⟩
  · obtain ⟨hcount, hle⟩ := h.stored.space B
    refine ⟨hcount.trans (congrArg List.sum (List.map_congr_left fun q hq => ?_)), hle⟩
    rw [hold q (hstored B q hq)]
  · change q ∈ (s.buffers B).packets ↔ _
    by_cases hq : q ∈ M.packets
    · exact ⟨fun hin => absurd hq (hstored B q hin), fun hin => absurd hq hin.2.1⟩
    · rw [h.stored.place q B, hlive q hq, hold q hq, and_iff_right List.not_mem_nil,
        and_iff_right hq]
  · rw [hold q hout]
    exact h.stored.placed hfix q ((hlive q hout).mp hq) List.not_mem_nil
  · by_cases hq : q ∈ M.packets
    · rw [hnew q hq]
    · rw [hold q hq]
      exact h.stored.fixed hfix q
  · rw [htable] at hM'
    split_ifs at hM' with hm
    · obtain rfl := Option.some.inj hM'
      refine ⟨hm.trans_lt (Nat.lt_succ_self _), List.nodup_range', fun q hq => ?_⟩
      rw [hnew q hq]
      exact ⟨(hfresh q hq).2, hm.symm⟩
    · obtain ⟨hlt, hnodup, howner⟩ := h.tracked.owner m M' hM'
      refine ⟨Nat.lt_succ_of_lt hlt, hnodup, fun q hq => ?_⟩
      obtain ⟨hlt', hmessage⟩ := howner q hq
      rw [hold q (holdpacket q ⟨M', by rwa [hmessage], hq⟩)]
      exact ⟨Nat.lt_add_right _ hlt', hmessage⟩
  · obtain ⟨hunderway, _, hdestination⟩ := h.tracked.pending e he
    have hout := holdpacket e.1 hunderway.live
    obtain ⟨M', hM', hin, hnot⟩ := hunderway
    refine ⟨⟨M', ?_, hin, hnot⟩, hout, fun hreceive => ?_⟩
    · rw [hold _ hout]
      exact hkeep _ M' hM'
    · obtain ⟨M₂, hM₂, hnode⟩ := hdestination hreceive
      refine ⟨M₂, ?_, ?_⟩
      · rw [hold _ hout]
        exact hkeep _ M₂ hM₂
      · rw [hold _ hout]
        exact hnode
  · rw [htable] at hM'
    split_ifs at hM' with hm
    · obtain rfl := Option.some.inj hM'
      exact ⟨List.nodup_nil, fun q hq => absurd hq List.not_mem_nil⟩
    · obtain ⟨hnodup, harrived⟩ := h.tracked.arrived m M' hM'
      refine ⟨hnodup, fun q hq => ?_⟩
      obtain ⟨hin, hnode⟩ := harrived q hq
      have hmessage := ((h.tracked.owner m M' hM').2.2 q hin).2
      rw [hold q (holdpacket q ⟨M', by rwa [hmessage], hin⟩)]
      exact ⟨hin, hnode⟩
  · obtain ⟨M', hM', hall⟩ := h.tracked.returned m hm
    exact ⟨M', hkeep m M' hM', hall⟩
  · obtain ⟨hlt, hr', hnodes⟩ := h.tracked.received r hr
    refine ⟨Nat.lt_succ_of_lt hlt, ?_, hnodes⟩
    rw [htable, if_neg hlt.ne, hr']

lemma space_of_canSend {source destination size : ℕ} (hsize : 0 < size)
    (hcan : s.CanSend w source destination size false = .ok true)
    (hB : w.buffer source destination = some B) :
    (s.buffers B).count + packetCount w size * packetSize w size ≤ w.size B := by
  rw [CanSend, hB] at hcan
  dsimp only at hcan
  rw [if_neg Bool.false_ne_true] at hcan
  have hrequired : packetCount w size * packetSize w size = if w.packet_size ≠ 0 then
      ((size - 1) / w.packet_size + 1) * w.packet_size else size := by
    unfold packetCount packetSize
    by_cases hzero : w.packet_size = 0
    · rw [if_pos hzero, if_neg (not_not.mpr hzero), Nat.div_eq_of_lt (Nat.sub_lt hsize one_pos),
        zero_add, one_mul]
    · rw [if_neg hzero, if_pos hzero]
  rw [hrequired]
  by_cases hlarge : (if w.packet_size ≠ 0 then
      ((size - 1) / w.packet_size + 1) * w.packet_size else size) > w.size B
  · rw [if_pos hlarge] at hcan
    cases hcan
  · rw [if_neg hlarge] at hcan
    exact of_decide_eq_true (Except.ok.inj hcan)

lemma Conserving.send (h : Conserving w [] s) {source destination size : ℕ} (hsize : 0 < size)
    (hcan : s.CanSend w source destination size false = .ok true) (automatic_receive : Bool) :
    Yields (Conserving w []) (s.Send w source destination size automatic_receive) := by
  set M := (s.newMessage w source destination size automatic_receive).1
  set s' := (s.newMessage w source destination size automatic_receive).2
  have hpacket : ∀ q ∈ M.packets, s'.packets q = {
      size := packetSize w size
      message := s.num_messages
      node := none
      buffer := none } := fun q hq => if_pos hq
  refine (h.newMessage source destination size automatic_receive).sendPackets (M := M)
    List.nodup_range' (fun q hq => ?_) fun _ B hB => ?_
  · refine ⟨?_, hq, List.not_mem_nil⟩
    change s'.message_table (s'.packets q).message = some M
    rw [hpacket q hq]
    exact Function.update_self _ _ s.message_table
  · have hspace := space_of_canSend hsize hcan hB
    have hsum : (M.packets.map fun q => (s'.packets q).size).sum =
        packetCount w size * packetSize w size := by
      have hconst : (M.packets.map fun q => (s'.packets q).size) =
          M.packets.map fun _ => packetSize w size :=
        List.map_congr_left fun q hq => by rw [hpacket q hq]
      rw [hconst, List.map_const', List.sum_replicate, smul_eq_mul]
      exact congrArg (· * packetSize w size) List.length_range'
    exact (congrArg ((s.buffers B).count + ·) hsum).trans_le hspace

lemma Conserving.handle (h : Conserving w [] s) {stage : Stage} (hevent : (p, stage) ∈ s.events)
    (blocked : Bool) : Yields (Conserving w []) (s.handle w p stage blocked) := by
  obtain ⟨hunderway, _, hdestination⟩ := h.tracked.pending _ hevent
  obtain ⟨M, hM, hp, hnot⟩ := id hunderway
  have hsublist : (s.events.erase (p, stage)).Sublist s.events := List.erase_sublist
  have h₁ : Conserving w [] { s with events := s.events.erase (p, stage) } := {
    stored := ⟨h.stored.space, h.stored.nodup, h.stored.place, h.stored.placed, h.stored.fixed⟩
    tracked := {
      owner := h.tracked.owner
      events := h.tracked.events.sublist (hsublist.map Prod.fst)
      pending := fun e he => h.tracked.pending e (hsublist.subset he)
      arrived := h.tracked.arrived
      returned := h.tracked.returned
      once := h.tracked.once
      received := h.tracked.received } }
  -- the packet had one event, which is taken
  have hidle : Idle { s with events := s.events.erase (p, stage) } p := by
    intro e he hsame
    have hnodup := h.tracked.events.of_map
    obtain ⟨hne, hmem⟩ := hnodup.mem_erase_iff.mp he
    exact hne (List.inj_on_of_nodup_map h.tracked.events hmem hevent hsame)
  unfold Delivery.handle
  rw [hM]
  cases stage with
  | output => exact h₁.outputBuffer hunderway hidle M blocked
  | input => exact h₁.inputBuffer hunderway hidle hM blocked
  | receive =>
    obtain ⟨M', hM', hnode⟩ := hdestination rfl
    rw [hM] at hM'
    obtain rfl := Option.some.inj hM'
    exact h₁.receiveEvent hM hp hnot hidle hnode

lemma Conserving.trySend (h : Conserving w [] s) {source destination size : ℕ} (hsize : 0 < size)
    (automatic_receive busy : Bool) :
    Yields (Conserving w []) (s.TrySend w source destination size automatic_receive busy) := by
  unfold TrySend
  cases hbuffer : w.buffer source destination with
  | none => exact rfl
  | some B =>
    have hcan : Yields (fun can => can = true →
        s.CanSend w source destination size false = .ok true)
        (s.CanSend w source destination size busy) := by
      cases busy with
      | true =>
        have hbusy : s.CanSend w source destination size true = .ok false := by
          rw [CanSend, hbuffer]
          exact if_pos rfl
        rw [hbusy]
        exact fun hfalse => absurd hfalse Bool.false_ne_true
      | false =>
        cases hfree : s.CanSend w source destination size false with
        | ok can =>
          intro htrue
          rw [htrue]
        | error e =>
          rw [CanSend, hbuffer] at hfree
          dsimp only at hfree
          rw [if_neg Bool.false_ne_true] at hfree
          by_cases hlarge : (if w.packet_size ≠ 0 then
              ((size - 1) / w.packet_size + 1) * w.packet_size else size) > w.size B
          · rw [if_pos hlarge] at hfree
            exact (Except.error.inj hfree).symm
          · rw [if_neg hlarge] at hfree
            cases hfree
    refine hcan.bind fun can hcan => .ite (fun htrue => ?_) fun _ => h
    exact h.send hsize (hcan htrue) automatic_receive

/-- A message is sent without a check only if it could be sent. -/
def Checked (w : Topology) : DeliveryOp → Delivery → Prop
  | .send source destination size _, s =>
    s.CanSend w source destination size false = .ok true
  | _, _ => True

lemma outcome_conserving (op : DeliveryOp) (h : Conserving w [] s) (hchecked : Checked w op s)
    {outcome : Except Panic Delivery} (hop : op.outcome w s = some outcome) :
    Yields (Conserving w []) outcome := by
  cases op with
  | send source destination size automatic =>
    rw [DeliveryOp.outcome] at hop
    split_ifs at hop with hsize
    obtain rfl := Option.some.inj hop
    exact h.send hsize hchecked automatic
  | trySend source destination size automatic busy =>
    rw [DeliveryOp.outcome] at hop
    split_ifs at hop with hsize
    obtain rfl := Option.some.inj hop
    exact h.trySend hsize automatic busy
  | handle p stage blocked =>
    rw [DeliveryOp.outcome] at hop
    split_ifs at hop with hevent
    obtain rfl := Option.some.inj hop
    exact h.handle hevent blocked
  | receive node m =>
    rw [DeliveryOp.outcome] at hop
    split_ifs at hop with hm
    obtain rfl := Option.some.inj hop
    obtain ⟨M, hM, hall⟩ := h.tracked.returned m hm
    have h₁ : Conserving w [] { s with returned := s.returned.filter (· ≠ m) } := {
      stored := ⟨h.stored.space, h.stored.nodup, h.stored.place, h.stored.placed, h.stored.fixed⟩
      tracked := {
        owner := h.tracked.owner
        events := h.tracked.events
        pending := h.tracked.pending
        arrived := h.tracked.arrived
        returned := fun m' hm' => h.tracked.returned m' (List.mem_of_mem_filter hm')
        once := h.tracked.once
        received := h.tracked.received } }
    refine h₁.receive hM hall (fun hin => ?_) node
    exact absurd rfl (of_decide_eq_true (List.mem_filter.mp hin).2)

/-- What a run keeps: packets sit in one buffer, the space taken is the space of the packets, and
messages are received once, with all packets at the destination. -/
structure Conserved (w : Topology) (r : DeliveryRun) : Prop where
  sits : w.fix_latency = 0 → ∀ m M, r.network.message_table m = some M → ∀ p ∈ M.packets,
    ∃ B, (r.network.packets p).buffer = some B ∧
      ∀ B', (r.network.buffers B').packets.count p = if B' = B then 1 else 0
  space : ∀ B, (r.network.buffers B).count =
    ((r.network.buffers B).packets.map fun p => (r.network.packets p).size).sum ∧
      (r.network.buffers B).count ≤ w.size B
  arrived : ∀ reception ∈ r.network.received, ∀ node ∈ reception.nodes,
    node = some reception.destination
  once : (r.network.received.map Reception.message).Nodup
  panic : r.panic = none ∨ r.panic = some .other

lemma Conserving.sits (h : Conserving w [] s) (hfix : w.fix_latency = 0) {m : ℕ} {M : Message}
    (hM : s.message_table m = some M) (hp : p ∈ M.packets) :
    ∃ B, (s.packets p).buffer = some B ∧
      ∀ B', (s.buffers B').packets.count p = if B' = B then 1 else 0 := by
  have hlive : Live s p := ⟨M, by rw [((h.tracked.owner m M hM).2.2 p hp).2, hM], hp⟩
  obtain ⟨B, hB⟩ := Option.ne_none_iff_exists'.mp
    (h.stored.placed hfix p hlive List.not_mem_nil)
  refine ⟨B, hB, fun B' => ?_⟩
  split_ifs with hsame
  · refine List.count_eq_one_of_mem (h.stored.nodup B') ?_
    exact (h.stored.place p B').mpr ⟨hlive, List.not_mem_nil, by rw [hsame, hB]⟩
  · refine List.count_eq_zero_of_not_mem fun hin => hsame ?_
    have hB' := ((h.stored.place p B').mp hin).2.2
    rw [hB] at hB'
    exact (Option.some.inj hB').symm

lemma conserving_new (w : Topology) : Conserving w [] .new where
  stored := {
    space := fun _ => ⟨rfl, Nat.zero_le _⟩
    nodup := fun _ => List.nodup_nil
    place := fun p B => ⟨fun hin => absurd hin List.not_mem_nil, fun ⟨⟨_, hM, _⟩, _⟩ => by cases hM⟩
    placed := fun _ p ⟨_, hM, _⟩ => by cases hM
    fixed := fun _ _ => rfl }
  tracked := {
    owner := fun m M hM => by cases hM
    events := List.nodup_nil
    pending := fun e he => absurd he List.not_mem_nil
    arrived := fun m M hM => by cases hM
    returned := fun m hm => absurd hm List.not_mem_nil
    once := List.nodup_nil
    received := fun r hr => absurd hr List.not_mem_nil }

structure Sane (w : Topology) (r : DeliveryRun) : Prop where
  conserving : Conserving w [] r.network
  panic : r.panic = none ∨ r.panic = some .other

lemma perform_sane (op : DeliveryOp) (r r' : DeliveryRun) (h : Sane w r)
    (hchecked : Checked w op r.network) (hstep : op.perform w r = some r') : Sane w r' := by
  rw [DeliveryOp.perform] at hstep
  split_ifs at hstep with hpanic
  obtain ⟨outcome, hop, hr'⟩ := Option.map_eq_some_iff.mp hstep
  have hyields := outcome_conserving op h.conserving hchecked hop
  cases outcome with
  | ok s =>
    subst hr'
    exact ⟨hyields, h.panic⟩
  | error e =>
    subst hr'
    exact ⟨h.conserving, .inr (congrArg some hyields)⟩

/-- In every run in which messages are sent only where they can be sent, packets are conserved. -/
theorem packets_conserved (w : Topology) {ops : List DeliveryOp} {r : DeliveryRun}
    (hrun : run (DeliveryOp.perform w) ops .new = some r)
    (hchecked : Along (DeliveryOp.perform w) (fun op r => Checked w op r.network) ops .new) :
    Conserved w r := by
  have hsane : Sane w r := run_invariant perform_sane ⟨conserving_new w, .inl rfl⟩ hchecked hrun
  exact {
    sits := fun hfix _ _ hM _ hp => hsane.conserving.sits hfix hM hp
    space := hsane.conserving.stored.space
    arrived := fun reception hreception =>
      (hsane.conserving.tracked.received reception hreception).2.2
    once := hsane.conserving.tracked.once
    panic := hsane.panic }

instance Checked.decidable (w : Topology) :
    (op : DeliveryOp) → (s : Delivery) → Decidable (Checked w op s)
  | .send source destination size _, s =>
    match h : s.CanSend w source destination size false with
    | .ok true => isTrue h
    | .ok false => isFalse fun hcan => by
        rw [Checked, h] at hcan
        cases hcan
    | .error _ => isFalse fun hcan => by
        rw [Checked, h] at hcan
        cases hcan
  | .trySend .., _ | .handle .., _ | .receive .., _ => isTrue trivial

/-- A link between two end nodes, with packets of 4 bytes and buffers of 8 -/
def oneLink (fix_latency : ℕ) : Topology where
  connection _ := .link 0
  isSource B := B = 0
  node B := B
  size _ := 8
  link_bandwidth _ := 1
  link_sources l := if l = 0 then [0] else []
  link_destinations _ := [1]
  bus_lanes _ := []
  bus_sources _ := []
  bus_destinations _ := []
  next_node _ destination := some destination
  link_valid l B hB := by
    split_ifs at hB with hl
    · rw [List.mem_singleton] at hB
      exact ⟨by rw [hl], decide_eq_true hB⟩
    · cases hB
  bus_valid b B hB := by cases hB
  buffer _ _ := some 0
  is_switch _ := false
  is_end _ := true
  packet_size := 4
  fix_latency

/-- A message of two packets is sent, transferred and received, while another one waits. -/
theorem packets_conserved_oneLink : ∃ r : DeliveryRun,
    r.network.received.map Reception.message = [0] ∧ Conserved (oneLink 0) r := by
  let ops : List DeliveryOp := [.trySend 0 1 8 true false, .trySend 0 1 8 true false,
    .handle 1 .output false, .handle 0 .output false, .handle 1 .output true,
    .handle 1 .output false, .send 0 1 5 false, .handle 0 .input false, .handle 1 .input false,
    .handle 1 .receive false, .handle 0 .receive false, .handle 2 .output false]
  have hrun := (Option.some_get (by decide +kernel :
    (run (DeliveryOp.perform (oneLink 0)) ops .new).isSome = true)).symm
  refine ⟨_, ?_, packets_conserved (oneLink 0) hrun (by decide +kernel)⟩
  decide +kernel

/-- `Send` without a check panics when the output buffer is full, and in a network of constant
latency the packets of a message are in no buffer. -/
theorem send_panics_and_packets_in_no_buffer :
    (∃ r : DeliveryRun, run (DeliveryOp.perform (oneLink 0))
      [.send 0 1 8 true, .send 0 1 8 true] .new = some r ∧ r.panic = some .outputBufferFull) ∧
    ∃ r : DeliveryRun, run (DeliveryOp.perform (oneLink 5)) [.trySend 0 1 4 true false] .new =
      some r ∧ (∃ M, r.network.message_table 0 = some M ∧ 0 ∈ M.packets) ∧
        ∀ B, 0 ∉ (r.network.buffers B).packets := by
  have hsend := (Option.some_get (by decide +kernel : (run (DeliveryOp.perform (oneLink 0))
    [.send 0 1 8 true, .send 0 1 8 true] .new).isSome = true)).symm
  have hfixed := (Option.some_get (by decide +kernel : (run (DeliveryOp.perform (oneLink 5))
    [.trySend 0 1 4 true false] .new).isSome = true)).symm
  refine ⟨⟨_, hsend, by decide +kernel⟩, _, hfixed, ⟨_, rfl, by decide +kernel⟩, fun B => ?_⟩
  exact List.not_mem_nil

end OISA.Net
