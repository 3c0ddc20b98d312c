import OISA.Net.Delivery
import OISA.Proofs.PacketConservation

/-!
# Where packets are on their routes

A packet with an output-buffer event is in the output buffer of its route, and one with a later
event, or one that is assembled, is in the buffer to which an output buffer of its route leads.
-/

namespace OISA.Net

open OISA.Lib Delivery

variable {layout : Layout} {w : Topology} {s s' : Delivery} {out : List ℕ} {p B : ℕ}

def Returns {α : Type} (Q : α → Prop) (x : Except Panic α) : Prop := ∀ a, x = .ok a → Q a

lemma Returns.ok {α : Type} {Q : α → Prop} {a : α} (h : Q a) : Returns Q (.ok a) := by
  intro a' ha'
  obtain rfl := Except.ok.inj ha'
  exact h

lemma Returns.error {α : Type} {Q : α → Prop} (e : Panic) : Returns Q (.error e : Except Panic α) := by
  intro a ha
  cases ha

lemma Returns.bind {α β : Type} {Q : α → Prop} {R : β → Prop} {x : Except Panic α}
    {f : α → Except Panic β} (hx : Returns Q x) (hf : ∀ a, Q a → Returns R (f a)) :
    Returns R (x.bind f) := by
  cases x with
  | ok a => exact hf a (hx a rfl)
  | error e => exact .error e

lemma Returns.map {α β : Type} {Q : α → Prop} {R : β → Prop} {x : Except Panic α} {f : α → β}
    (hx : Returns Q x) (hf : ∀ a, Q a → R (f a)) : Returns R (x.map f) := by
  cases x with
  | ok a => exact .ok (hf a (hx a rfl))
  | error e => exact .error e

lemma Returns.ite {α : Type} {Q : α → Prop} {x y : Except Panic α} {c : Prop} [Decidable c]
    (hx : c → Returns Q x) (hy : ¬c → Returns Q y) : Returns Q (if c then x else y) := by
  by_cases hc : c
  · rw [if_pos hc]
    exact hx hc
  · rw [if_neg hc]
    exact hy hc

def Station (w : Topology) (packet : MessagePacket) (destination : ℕ) : Stage → Prop
  | .output => ∃ o, packet.buffer = some o ∧ w.buffer (w.node o) destination = some o
  | .input => ∃ o D, packet.buffer = some D ∧ packet.node = some (w.node D) ∧
      w.buffer (w.node o) destination = some o ∧ w.target o destination = some D
  | .receive => w.fix_latency ≠ 0 ∨ ∃ o D, packet.buffer = some D ∧
      packet.node = some (w.node D) ∧ w.buffer (w.node o) destination = some o ∧
        w.target o destination = some D

structure Located (w : Topology) (out : List ℕ) (s : Delivery) : Prop where
  covered : ∀ m M, s.message_table m = some M → ∀ p ∈ M.packets, p ∉ out →
    p ∈ M.received_packets ∨ ∃ stage, (p, stage) ∈ s.events
  stationed : ∀ e ∈ s.events, e.1 ∉ out ∧ ∀ M, s.message_table (s.packets e.1).message = some M →
    Station w (s.packets e.1) M.destination_node e.2
  parked : ∀ m M, s.message_table m = some M → ∀ p ∈ M.received_packets, p ∉ out ∧
    Station w (s.packets p) M.destination_node .receive
  fits : ∀ m M, s.message_table m = some M → ∀ p ∈ M.packets, ∀ B,
    (s.packets p).size ≤ w.size B
  ends : ∀ m M, s.message_table m = some M → w.is_switch M.destination_node = false

def Notified (s : Delivery) : Prop :=
  ∀ m M, s.message_table m = some M → M.received_packets.length = M.packets.length →
    m ∈ s.returned

structure Advanced (s s' : Delivery) (p : ℕ) (stage : Stage) : Prop where
  table : s'.message_table = s.message_table
  returned : s'.returned = s.returned
  events : s'.events = s.events ++ [(p, stage)]
  others : ∀ q, q ≠ p → s'.packets q = s.packets q
  message : (s'.packets p).message = (s.packets p).message
  size : (s'.packets p).size = (s.packets p).size

lemma Located.advance {stage : Stage} (h : Located w (p :: out) s) (hadv : Advanced s s' p stage)
    (hout : p ∉ out) (hstation : ∀ M, s.message_table (s.packets p).message = some M →
      Station w (s'.packets p) M.destination_node stage) : Located w out s' where
  covered m M hM q hq hnot := by
    rw [hadv.table] at hM
    rw [hadv.events]
    by_cases hqp : q = p
    · subst hqp
      exact .inr ⟨stage, List.mem_append_right _ List.mem_cons_self⟩
    · rcases h.covered m M hM q hq (fun hin => (List.mem_cons.mp hin).elim hqp hnot) with
        hreceived | ⟨stage', he⟩
      · exact .inl hreceived
      · exact .inr ⟨stage', List.mem_append_left _ he⟩
  stationed e he := by
    rw [hadv.events] at he
    rw [hadv.table]
    rcases List.mem_append.mp he with he | he
    · obtain ⟨hnot, hstationed⟩ := h.stationed e he
      rw [List.mem_cons, not_or] at hnot
      rw [hadv.others e.1 hnot.1]
      exact ⟨hnot.2, hstationed⟩
    · rw [List.mem_singleton] at he
      subst he
      dsimp only
      rw [hadv.message]
      exact ⟨hout, hstation⟩
  parked m M hM q hq := by
    rw [hadv.table] at hM
    obtain ⟨hnot, hstationed⟩ := h.parked m M hM q hq
    rw [List.mem_cons, not_or] at hnot
    rw [hadv.others q hnot.1]
    exact ⟨hnot.2, hstationed⟩
  fits m M hM q hq B := by
    rw [hadv.table] at hM
    by_cases hqp : q = p
    · rw [hqp, hadv.size]
      exact h.fits m M hM p (hqp ▸ hq) B
    · rw [hadv.others q hqp]
      exact h.fits m M hM q hq B
  ends m M hM := by
    rw [hadv.table] at hM
    exact h.ends m M hM

lemma advanced_schedule (s : Delivery) (p : ℕ) (stage : Stage) :
    Advanced s (s.schedule p stage) p stage :=
  ⟨rfl, rfl, rfl, fun _ _ => rfl, rfl, rfl⟩

lemma put_returns (s : Delivery) (B p : ℕ) (node : Option ℕ) :
    Returns (fun s' => s'.message_table = s.message_table ∧ s'.returned = s.returned ∧
      s'.events = s.events ∧ (∀ q, q ≠ p → s'.packets q = s.packets q) ∧
        s'.packets p = { s.packets p with
          node
          buffer := some B }) (s.put w B p node) := by
  unfold Delivery.put InsertPacket
  refine .map (Q := fun s₁ => s₁ = s.setContents B {
    packets := (s.buffers B).packets ++ [p]
    count := (s.buffers B).count + (s.packets p).size }) (.ite (fun _ => .error _) fun _ => .ok rfl)
    ?_
  rintro s₁ rfl
  exact ⟨rfl, rfl, rfl, fun q hq => Function.update_of_ne hq _ s.packets,
    Function.update_self p _ s.packets⟩

lemma move_returns (s : Delivery) (B D p : ℕ) (node : Option ℕ) (stage : Stage) :
    Returns (fun s' => Advanced s s' p stage ∧ s'.packets p = { s.packets p with
      node
      buffer := some D }) (s.move w B D p node stage) := by
  have hextract : Returns (fun s₁ => s₁.message_table = s.message_table ∧
      s₁.returned = s.returned ∧ s₁.events = s.events ∧ s₁.packets = s.packets)
      (s.ExtractPacket B) := by
    unfold ExtractPacket
    cases (s.buffers B).packets with
    | nil => exact .error _
    | cons q qs => exact .ok ⟨rfl, rfl, rfl, rfl⟩
  refine hextract.bind fun s₁ h₁ => (put_returns s₁ D p node).map fun s₂ h₂ => ?_
  obtain ⟨htable, hreturned, hevents, hpackets⟩ := h₁
  obtain ⟨htable', hreturned', hevents', hothers, hself⟩ := h₂
  rw [hpackets] at hothers hself
  refine ⟨⟨htable'.trans htable, hreturned'.trans hreturned, ?_, hothers, ?_, ?_⟩, hself⟩
  · change s₂.events ++ [(p, stage)] = s.events ++ [(p, stage)]
    rw [hevents', hevents]
  · change (s₂.packets p).message = (s.packets p).message
    rw [hself]
  · change (s₂.packets p).size = (s.packets p).size
    rw [hself]

/-- The event of the packet has been taken: what its handler gives. -/
abbrev Handled (w : Topology) (s s' : Delivery) : Prop :=
  Located w [] s' ∧ s'.message_table = s.message_table ∧ s'.returned = s.returned

lemma Located.retry {stage : Stage} {M : Message} (h : Located w [p] s)
    (hM : s.message_table (s.packets p).message = some M)
    (hstation : Station w (s.packets p) M.destination_node stage) :
    Handled w s (s.schedule p stage) := by
  refine ⟨h.advance (advanced_schedule s p stage) List.not_mem_nil fun M' hM' => ?_, rfl, rfl⟩
  rw [hM] at hM'
  obtain rfl := Option.some.inj hM'
  exact hstation

lemma Located.move {stage : Stage} {M : Message} {D : ℕ} {node : Option ℕ} (h : Located w [p] s)
    (hM : s.message_table (s.packets p).message = some M)
    (hstation : Station w { s.packets p with
      node
      buffer := some D } M.destination_node stage) :
    Returns (Handled w s) (s.move w B D p node stage) := by
  intro s' hs'
  obtain ⟨hadv, hself⟩ := move_returns s B D p node stage s' hs'
  refine ⟨h.advance hadv List.not_mem_nil fun M' hM' => ?_, hadv.table, hadv.returned⟩
  rw [hM] at hM'
  obtain rfl := Option.some.inj hM'
  rw [hself]
  exact hstation

lemma Located.outputBuffer {M : Message} (h : Located w [p] s)
    (hM : s.message_table (s.packets p).message = some M)
    (hstation : Station w (s.packets p) M.destination_node .output) (blocked : Bool) :
    Returns (Handled w s) (s.EventTypeOutputBufferHandler w p M blocked) := by
  have hretry : Handled w s (s.schedule p .output) := h.retry hM hstation
  obtain ⟨o, hbuffer, hroute⟩ := hstation
  have hmove : ∀ D, w.target o M.destination_node = some D →
      Returns (Handled w s) (s.move w o D p (some (w.node D)) .input) := fun D hD =>
    h.move hM ⟨o, D, rfl, rfl, hroute, hD⟩
  unfold EventTypeOutputBufferHandler
  rw [hbuffer]
  dsimp only
  unfold Topology.target at hmove
  cases hconnection : w.connection o with
  | link l =>
    rw [hconnection] at hmove
    unfold Delivery.linkTransferPacket
    refine .ite (fun _ => .error _) fun _ => .ite (fun _ => .ok hretry) fun _ => ?_
    cases hD : (w.link_destinations l)[(w.link_sources l).idxOf o]? with
    | none => exact .error _
    | some D => exact .ite (fun _ => .ok hretry) fun _ => hmove D hD
  | bus b =>
    rw [hconnection] at hmove
    unfold Delivery.busTransferPacket
    refine .ite (fun _ => .error _) fun _ => .ite (fun _ => .ok hretry) fun _ => ?_
    cases hD : (w.next_node (w.node o) M.destination_node).bind fun node =>
        (w.bus_destinations b).find? fun D => w.node D = node with
    | none => exact .error _
    | some D =>
      refine .ite (fun _ => .ok hretry) fun _ => .ite (fun _ => .error _) fun _ => ?_
      exact .ite (fun _ => .ok hretry) fun _ => hmove D hD

lemma Located.inputBuffer (hrouted : WellRouted layout w) {M : Message} (h : Located w [p] s)
    (hM : s.message_table (s.packets p).message = some M)
    (hstation : Station w (s.packets p) M.destination_node .input) (blocked : Bool) :
    Returns (Handled w s) (s.EventTypeInputBufferHandler w p M blocked) := by
  have hretry : Handled w s (s.schedule p .input) := h.retry hM hstation
  have hreceive : Handled w s (s.schedule p .receive) := h.retry hM (.inr hstation)
  unfold EventTypeInputBufferHandler
  cases (s.packets p).node with
  | none => exact .error _
  | some node => cases (s.packets p).buffer with
    | none => exact .error _
    | some B =>
      refine .ite (fun _ => .ok hreceive) fun _ => .ite (fun _ => .ok hretry) fun _ => ?_
      refine .ite (fun _ => .error _) fun _ => ?_
      unfold Forward
      refine .ite (fun _ => .error _) fun _ => ?_
      cases hD : w.buffer node M.destination_node with
      | none => exact .error _
      | some D =>
        refine .ite (fun _ => .ok hretry) fun _ => .ite (fun _ => .error _) fun _ => ?_
        refine .ite (fun _ => .ok hretry) fun _ => h.move hM ⟨D, rfl, ?_⟩
        rw [(hrouted.known hD).2.2.2.2]
        exact hD

lemma removePackets_returns (ps : List ℕ) (s : Delivery) :
    Returns (fun s' => s' = { s with buffers := s'.buffers }) (removePackets ps s) := by
  induction ps generalizing s with
  | nil => exact .ok rfl
  | cons p ps ih =>
    rw [Delivery.removePackets]
    cases (s.packets p).buffer with
    | none => exact .error _
    | some B =>
      have hremove : Returns (fun s₁ => s₁ = { s with buffers := s₁.buffers })
          (s.RemovePacket B p) := .ite (fun _ => .error _) fun _ => .ok rfl
      refine hremove.bind fun s₁ h₁ s' hs' => ?_
      have h' := ih s₁ s' hs'
      rw [h', h₁]

lemma receive_returns (s : Delivery) (node m : ℕ) :
    Returns (fun s' => s'.message_table = Function.update s.message_table m none ∧
      s'.packets = s.packets ∧ s'.events = s.events ∧ s'.returned = s.returned)
      (s.Receive w node m) := by
  unfold Delivery.Receive
  cases s.message_table m with
  | none => exact .error _
  | some M =>
    refine .ite (fun _ => .error _) fun _ => ?_
    have hremove : Returns (fun s' => s' = { s with buffers := s'.buffers })
        (if w.fix_latency = 0 then removePackets M.packets s else .ok s) :=
      .ite (fun _ => removePackets_returns M.packets s) fun _ => .ok rfl
    refine hremove.map fun s₁ h₁ => ?_
    have htable : s₁.message_table = s.message_table := by rw [h₁]
    have hpackets : s₁.packets = s.packets := by rw [h₁]
    have hevents : s₁.events = s.events := by rw [h₁]
    have hreturned : s₁.returned = s.returned := by rw [h₁]
    exact ⟨by rw [← htable], hpackets, hevents, hreturned⟩

lemma Located.delete (h : Located w [] s) {m : ℕ}
    (htable : s'.message_table = Function.update s.message_table m none)
    (hpackets : s'.packets = s.packets) (hevents : s'.events = s.events) : Located w [] s' where
  covered m' M hM := by
    rw [htable] at hM
    rw [hevents]
    exact h.covered m' M (update_none_eq hM).2
  stationed e he := by
    rw [hevents] at he
    rw [htable, hpackets]
    obtain ⟨hnot, hstation⟩ := h.stationed e he
    exact ⟨hnot, fun M hM => hstation M (update_none_eq hM).2⟩
  parked m' M hM := by
    rw [htable] at hM
    rw [hpackets]
    exact h.parked m' M (update_none_eq hM).2
  fits m' M hM := by
    rw [htable] at hM
    rw [hpackets]
    exact h.fits m' M (update_none_eq hM).2
  ends m' M hM := by
    rw [htable] at hM
    exact h.ends m' M (update_none_eq hM).2

lemma Notified.delete (h : ∀ m' M, m' ≠ p → s.message_table m' = some M →
      M.received_packets.length = M.packets.length → m' ∈ s'.returned)
    (htable : s'.message_table = Function.update s.message_table p none) : Notified s' := by
  intro m' M hM hall
  rw [htable] at hM
  obtain ⟨hne, hM⟩ := update_none_eq hM
  exact h m' M hne hM hall

lemma Located.assemble {M : Message} (h : Located w [p] s) (ht : Tracked out s)
    (hM : s.message_table (s.packets p).message = some M)
    (hstation : Station w (s.packets p) M.destination_node .receive) :
    Located w [] { s with
      message_table := Function.update s.message_table (s.packets p).message (some { M with
        received_packets := M.received_packets ++ [p] }) } := by
  set m := (s.packets p).message with hm
  set M' : Message := { M with received_packets := M.received_packets ++ [p] } with hM'
  refine ⟨fun m' M₂ hM₂ q hq _ => ?_, fun e he => ⟨List.not_mem_nil, fun M₂ hM₂ => ?_⟩,
    fun m' M₂ hM₂ q hq => ⟨List.not_mem_nil, ?_⟩, fun m' M₂ hM₂ q hq => ?_,
    fun m' M₂ hM₂ => ?_⟩
  · rcases update_some_eq hM₂ with ⟨rfl, rfl⟩ | ⟨hne, hold⟩
    · by_cases hqp : q = p
      · subst hqp
        exact .inl (List.mem_append_right _ List.mem_cons_self)
      · refine (h.covered m M hM q hq fun hin => hqp (List.mem_singleton.mp hin)).imp_left ?_
        exact fun hin => List.mem_append_left _ hin
    · refine h.covered m' M₂ hold q hq fun hin => hne ?_
      rw [← ((ht.owner m' M₂ hold).2.2 q hq).2, List.mem_singleton.mp hin]
  · rcases update_some_eq hM₂ with ⟨hsame, rfl⟩ | ⟨_, hold⟩
    · exact (h.stationed e he).2 M (by rw [hsame, hM])
    · exact (h.stationed e he).2 M₂ hold
  · rcases update_some_eq hM₂ with ⟨rfl, rfl⟩ | ⟨_, hold⟩
    · rcases List.mem_append.mp hq with hq | hq
      · exact (h.parked m M hM q hq).2
      · rw [List.mem_singleton] at hq
        subst hq
        exact hstation
    · exact (h.parked m' M₂ hold q hq).2
  · rcases update_some_eq hM₂ with ⟨rfl, rfl⟩ | ⟨_, hold⟩
    · exact h.fits m M hM q hq
    · exact h.fits m' M₂ hold q hq
  · rcases update_some_eq hM₂ with ⟨rfl, rfl⟩ | ⟨_, hold⟩
    · exact h.ends m M hM
    · exact h.ends m' M₂ hold

lemma Located.receiveEvent {M : Message} (h : Located w [p] s) (ht : Tracked out s)
    (hnotified : Notified s) (hM : s.message_table (s.packets p).message = some M)
    (hstation : Station w (s.packets p) M.destination_node .receive) :
    Returns (fun s' => Located w [] s' ∧ Notified s') (s.EventTypeReceiveHandler w p M) := by
  have hassembled := h.assemble ht hM hstation
  set m := (s.packets p).message with hm
  set M' : Message := { M with received_packets := M.received_packets ++ [p] } with hM'
  set s₁ : Delivery := { s with message_table := Function.update s.message_table m (some M') }
    with hs₁
  have hother : ∀ m' M₂, m' ≠ m → s₁.message_table m' = some M₂ →
      M₂.received_packets.length = M₂.packets.length → m' ∈ s.returned := by
    intro m' M₂ hne hM₂ hall
    rw [hs₁] at hM₂
    dsimp only at hM₂
    rw [Function.update_of_ne hne] at hM₂
    exact hnotified m' M₂ hM₂ hall
  unfold EventTypeReceiveHandler
  cases (s.packets p).node with
  | none => exact .error _
  | some node =>
    refine .ite (fun _ => .error _) fun _ => ?_
    have hassemble : Returns (fun a => a = (s₁, decide (M'.received_packets.length =
        M'.packets.length))) (s.Assemble m p M) :=
      .ite (fun _ => .error _) fun _ => .ite (fun _ => .error _) fun _ => .ok rfl
    refine hassemble.bind ?_
    rintro _ rfl
    refine .ite (fun hcomplete => ?_) fun hnot => .ok ⟨hassembled, fun m' M₂ hM₂ hall => ?_⟩
    · refine .ite (fun _ => ?_) fun _ => .ok ⟨⟨hassembled.covered, hassembled.stationed,
        hassembled.parked, hassembled.fits, hassembled.ends⟩, fun m' M₂ hM₂ hall => ?_⟩
      · intro s' hs'
        obtain ⟨htable, hpackets, hevents, hreturned⟩ := receive_returns s₁ node m s' hs'
        refine ⟨hassembled.delete htable hpackets hevents, Notified.delete ?_ htable⟩
        rw [hreturned]
        exact hother
      · by_cases hne : m' = m
        · rw [hne]
          exact List.mem_append_right _ List.mem_cons_self
        · exact List.mem_append_left _ (hother m' M₂ hne hM₂ hall)
    · by_cases hne : m' = m
      · rw [hne] at hM₂
        rw [hs₁] at hM₂
        dsimp only at hM₂
        rw [Function.update_self] at hM₂
        obtain rfl := Option.some.inj hM₂
        exact absurd (decide_eq_true hall) hnot
      · exact hother m' M₂ hne hM₂ hall

lemma Located.sendPackets (hrouted : WellRouted layout w) {ps : List ℕ}
    {M : Message} (h : Located w ps s) (hnodup : ps.Nodup)
    (hps : ∀ q ∈ ps, s.message_table (s.packets q).message = some M) :
    Returns (fun s' => Located w [] s' ∧ s'.message_table = s.message_table ∧
      s'.returned = s.returned) (sendPackets w M ps s) := by
  induction ps generalizing s with
  | nil => exact .ok ⟨h, rfl, rfl⟩
  | cons p ps ih =>
    obtain ⟨hout, hnodup⟩ := List.nodup_cons.mp hnodup
    rw [Delivery.sendPackets]
    suffices hsent : Returns (fun s' => ∃ stage, Advanced s s' p stage ∧
        Station w (s'.packets p) M.destination_node stage) (s.EventTypeSendHandler w p M) by
      refine hsent.bind fun s₁ h₁ => ?_
      obtain ⟨stage, hadv, hstation⟩ := h₁
      have hlocated := h.advance hadv hout fun M' hM' => by
        rw [hps p List.mem_cons_self] at hM'
        obtain rfl := Option.some.inj hM'
        exact hstation
      intro s' hs'
      obtain ⟨h', htable, hreturned⟩ := ih hlocated hnodup (fun q hq => by
        have hne : q ≠ p := by
          rintro rfl
          exact hout hq
        rw [hadv.table, hadv.others q hne]
        exact hps q (List.mem_cons_of_mem p hq)) s' hs'
      exact ⟨h', htable.trans hadv.table, hreturned.trans hadv.returned⟩
    unfold EventTypeSendHandler
    refine .ite (fun hfix => .ok ⟨.receive, ⟨rfl, rfl, rfl, fun q hq => ?_, ?_, ?_⟩, .inl hfix⟩)
      fun _ => ?_
    · exact Function.update_of_ne hq _ s.packets
    · simp only [Delivery.schedule, setPacket, Function.update_self]
    · simp only [Delivery.schedule, setPacket, Function.update_self]
    cases hB : w.buffer M.source_node M.destination_node with
    | none => exact .error _
    | some B =>
      refine .ite (fun _ => .error _) fun _ => .ite (fun _ => .error _) fun _ => ?_
      refine (put_returns s B p _).map fun s₁ h₁ => ?_
      obtain ⟨htable, hreturned, hevents, hothers, hself⟩ := h₁
      refine ⟨.output, ⟨htable, hreturned, ?_, hothers, ?_, ?_⟩, B, ?_, ?_⟩
      · change s₁.events ++ [(p, .output)] = s.events ++ [(p, .output)]
        rw [hevents]
      · change (s₁.packets p).message = (s.packets p).message
        rw [hself]
      · change (s₁.packets p).size = (s.packets p).size
        rw [hself]
      · change (s₁.packets p).buffer = some B
        rw [hself]
      · rw [(hrouted.known hB).2.2.2.2]
        exact hB

/-- The packets of a new message have no event yet. -/
lemma Located.newMessage (h : Located w [] s) (ht : Tracked [] s) (source destination size : ℕ)
    (automatic_receive : Bool) (hfits : ∀ B, packetSize w size ≤ w.size B)
    (hends : w.is_switch destination = false) :
    Located w (List.range' s.num_packets (packetCount w size))
      (s.newMessage w source destination size automatic_receive).2 := by
  set M := (s.newMessage w source destination size automatic_receive).1 with hM
  set s' := (s.newMessage w source destination size automatic_receive).2 with hs'
  have hpackets : List.range' s.num_packets (packetCount w size) = M.packets := rfl
  rw [hpackets]
  have hnew : ∀ q ∈ M.packets, s'.packets q = {
      size := packetSize w size
      message := s.num_messages
      node := none
      buffer := none } := fun q hq => if_pos hq
  have hold : ∀ q, q < s.num_packets → q ∉ M.packets ∧ s'.packets q = s.packets q := by
    intro q hq
    have hnot : q ∉ M.packets := by
      rw [← hpackets, List.mem_range'_1]
      omega
    exact ⟨hnot, if_neg hnot⟩
  have hcases : ∀ m M₂, s'.message_table m = some M₂ →
      M₂ = M ∨ m ≠ s.num_messages ∧ s.message_table m = some M₂ := by
    intro m M₂ hM₂
    have htable : s'.message_table m = if m = s.num_messages then some M else s.message_table m :=
      Function.update_apply s.message_table _ _ _
    rw [htable] at hM₂
    split_ifs at hM₂ with hm
    · exact .inl (Option.some.inj hM₂).symm
    · exact .inr ⟨hm, hM₂⟩
  refine ⟨fun m M₂ hM₂ q hq hnot => ?_, fun e he => ?_, fun m M₂ hM₂ q hq => ?_,
    fun m M₂ hM₂ q hq B => ?_, fun m M₂ hM₂ => ?_⟩
  · rcases hcases m M₂ hM₂ with rfl | ⟨_, hM₂⟩
    · exact absurd hq hnot
    · exact h.covered m M₂ hM₂ q hq List.not_mem_nil
  · obtain ⟨⟨M', hM', hin, _⟩, _⟩ := ht.pending e he
    obtain ⟨hnot, hsame⟩ := hold e.1 ((ht.owner _ M' hM').2.2 e.1 hin).1
    refine ⟨hnot, fun M₂ hM₂ => ?_⟩
    rw [hsame] at hM₂ ⊢
    refine (h.stationed e he).2 M₂ ?_
    have hne : (s.packets e.1).message ≠ s.num_messages := (ht.owner _ M' hM').1.ne
    rwa [show s'.message_table (s.packets e.1).message = s.message_table (s.packets e.1).message
      from Function.update_of_ne hne _ _] at hM₂
  · rcases hcases m M₂ hM₂ with rfl | ⟨_, hM₂⟩
    · exact absurd hq List.not_mem_nil
    · have hin := ((ht.arrived m M₂ hM₂).2 q hq).1
      obtain ⟨hnot, hsame⟩ := hold q ((ht.owner m M₂ hM₂).2.2 q hin).1
      rw [hsame]
      exact ⟨hnot, (h.parked m M₂ hM₂ q hq).2⟩
  · rcases hcases m M₂ hM₂ with rfl | ⟨_, hM₂⟩
    · rw [hnew q hq]
      exact hfits B
    · rw [(hold q ((ht.owner m M₂ hM₂).2.2 q hq).1).2]
      exact h.fits m M₂ hM₂ q hq B
  · rcases hcases m M₂ hM₂ with rfl | ⟨_, hM₂⟩
    · exact hends
    · exact h.ends m M₂ hM₂

lemma Located.send (hrouted : WellRouted layout w) (h : Located w [] s)
    (ht : Tracked [] s) (hnotified : Notified s) (source destination size : ℕ)
    (automatic_receive : Bool) (hfits : ∀ B, packetSize w size ≤ w.size B)
    (hends : w.is_switch destination = false) :
    Returns (fun s' => Located w [] s' ∧ Notified s')
      (s.Send w source destination size automatic_receive) := by
  have hnew := h.newMessage ht source destination size automatic_receive hfits hends
  intro s' hs'
  obtain ⟨h', htable, hreturned⟩ := hnew.sendPackets hrouted
    (M := (s.newMessage w source destination size automatic_receive).1) List.nodup_range'
    (fun q hq => by
      have hpacket : (s.newMessage w source destination size automatic_receive).2.packets q = {
          size := packetSize w size
          message := s.num_messages
          node := none
          buffer := none } := if_pos hq
      rw [hpacket]
      exact Function.update_self _ _ s.message_table) s' hs'
  refine ⟨h', fun m M hM hall => ?_⟩
  rw [htable] at hM
  rw [hreturned]
  change Function.update s.message_table s.num_messages _ m = some M at hM
  rw [Function.update_apply] at hM
  split_ifs at hM
  · obtain rfl := Option.some.inj hM
    have hlength : (List.range' s.num_packets (packetCount w size)).length = 0 := hall.symm
    rw [List.length_range'] at hlength
    exact absurd hlength (Nat.succ_ne_zero _)
  · exact hnotified m M hM hall

lemma Located.take (h : Located w [] s) (ht : Tracked [] s) {stage : Stage}
    (hevent : (p, stage) ∈ s.events) :
    Located w [p] { s with events := s.events.erase (p, stage) } where
  covered m M hM q hq hnot := by
    rcases h.covered m M hM q hq List.not_mem_nil with hreceived | ⟨stage', he⟩
    · exact .inl hreceived
    · refine .inr ⟨stage', (List.mem_erase_of_ne ?_).mpr he⟩
      intro hsame
      rw [List.mem_singleton] at hnot
      exact hnot (Prod.mk.inj hsame).1
  stationed e he := by
    obtain ⟨hne, hmem⟩ := ht.events.of_map.mem_erase_iff.mp he
    refine ⟨fun hin => hne ?_, (h.stationed e hmem).2⟩
    exact List.inj_on_of_nodup_map ht.events hmem hevent (List.mem_singleton.mp hin)
  parked m M hM q hq := by
    refine ⟨fun hin => ?_, (h.parked m M hM q hq).2⟩
    obtain rfl := List.mem_singleton.mp hin
    obtain ⟨⟨M', hM', _, hnot⟩, _⟩ := ht.pending _ hevent
    have hmessage := ((ht.owner m M hM).2.2 q ((ht.arrived m M hM).2 q hq).1).2
    dsimp only at hM'
    rw [hmessage, hM] at hM'
    obtain rfl := Option.some.inj hM'
    exact hnot hq
  fits := h.fits
  ends := h.ends

lemma Located.handle (hrouted : WellRouted layout w) (h : Located w [] s) (ht : Tracked [] s)
    (hnotified : Notified s) {stage : Stage} (hevent : (p, stage) ∈ s.events) (blocked : Bool) :
    Returns (fun s' => Located w [] s' ∧ Notified s') (s.handle w p stage blocked) := by
  have htaken := h.take ht hevent
  have hstation := (h.stationed _ hevent).2
  obtain ⟨⟨M, hM, _⟩, _⟩ := ht.pending _ hevent
  unfold Delivery.handle
  rw [hM]
  have hhandled : ∀ s', Handled w { s with events := s.events.erase (p, stage) } s' →
      Located w [] s' ∧ Notified s' := by
    rintro s' ⟨h', htable, hreturned⟩
    refine ⟨h', ?_⟩
    unfold Notified
    rw [htable, hreturned]
    exact hnotified
  cases stage with
  | output =>
    intro s' hs'
    exact hhandled s' (htaken.outputBuffer hM (hstation M hM) blocked s' hs')
  | input =>
    intro s' hs'
    exact hhandled s' (htaken.inputBuffer hrouted hM (hstation M hM) blocked s' hs')
  | receive =>
    have ht' : Tracked [] { s with events := s.events.erase (p, .receive) } := {
      owner := ht.owner
      events := ht.events.sublist (List.erase_sublist.map Prod.fst)
      pending := fun e he => ht.pending e (List.mem_of_mem_erase he)
      arrived := ht.arrived
      returned := ht.returned
      once := ht.once
      received := ht.received }
    exact htaken.receiveEvent ht' hnotified hM (hstation M hM)

/-- Messages are sent only where they can be sent, to end nodes, and have at most `largest` bytes. -/
def Fitting (w : Topology) (largest : ℕ) (op : DeliveryOp) (s : Delivery) : Prop :=
  Checked w op s ∧ match op with
    | .send _ destination size _ | .trySend _ destination size _ _ =>
      size ≤ largest ∧ w.is_switch destination = false
    | _ => True

/-- Every buffer fits a message. -/
def FitsMessage (w : Topology) (largest : ℕ) : Prop :=
  ∀ B, packetCount w largest * packetSize w largest ≤ w.size B

lemma FitsMessage.packet {largest size : ℕ} (h : FitsMessage w largest) (hsize : size ≤ largest)
    (B : ℕ) : packetSize w size ≤ w.size B := by
  have hmono : packetSize w size ≤ packetSize w largest := by
    unfold packetSize
    split_ifs
    · exact hsize
    · exact le_rfl
  exact hmono.trans ((Nat.le_mul_of_pos_left _ (Nat.succ_pos _)).trans (h B))

structure OnRoute (w : Topology) (r : DeliveryRun) : Prop where
  sane : Sane w r
  located : Located w [] r.network
  notified : Notified r.network

lemma onRoute_new (w : Topology) : OnRoute w .new where
  sane := ⟨conserving_new w, .inl rfl⟩
  located := {
    covered := fun m M hM => by cases hM
    stationed := fun e he => absurd he List.not_mem_nil
    parked := fun m M hM => by cases hM
    fits := fun m M hM => by cases hM
    ends := fun m M hM => by cases hM }
  notified := fun m M hM => by cases hM

lemma outcome_located (hrouted : WellRouted layout w) {largest : ℕ}
    (hfits : FitsMessage w largest) (op : DeliveryOp) (h : Located w [] s) (ht : Tracked [] s)
    (hnotified : Notified s) (hfitting : Fitting w largest op s)
    {outcome : Except Panic Delivery} (hop : op.outcome w s = some outcome) :
    Returns (fun s' => Located w [] s' ∧ Notified s') outcome := by
  cases op with
  | send source destination size automatic =>
    rw [DeliveryOp.outcome] at hop
    split_ifs at hop
    obtain rfl := Option.some.inj hop
    exact h.send hrouted ht hnotified _ _ _ _ (hfits.packet hfitting.2.1) hfitting.2.2
  | trySend source destination size automatic busy =>
    rw [DeliveryOp.outcome] at hop
    split_ifs at hop
    obtain rfl := Option.some.inj hop
    unfold TrySend
    cases w.buffer source destination with
    | none => exact .error _
    | some B =>
      have hany : Returns (fun _ => True) (s.CanSend w source destination size busy) :=
        fun _ _ => trivial
      refine hany.bind fun can _ => .ite (fun _ => ?_) fun _ => .ok ⟨h, hnotified⟩
      exact h.send hrouted ht hnotified _ _ _ _ (hfits.packet hfitting.2.1) hfitting.2.2
  | handle p stage blocked =>
    rw [DeliveryOp.outcome] at hop
    split_ifs at hop with hevent
    obtain rfl := Option.some.inj hop
    exact h.handle hrouted ht hnotified hevent blocked
  | receive node m =>
    rw [DeliveryOp.outcome] at hop
    split_ifs at hop
    obtain rfl := Option.some.inj hop
    intro s' hs'
    obtain ⟨htable, hpackets, hevents, hreturned⟩ := receive_returns _ node m s' hs'
    refine ⟨h.delete htable hpackets hevents, Notified.delete ?_ htable⟩
    intro m' M hne hM hall
    rw [hreturned]
    exact List.mem_filter.mpr ⟨hnotified m' M hM hall, decide_eq_true hne⟩

lemma perform_onRoute (hrouted : WellRouted layout w) {largest : ℕ}
    (hfits : FitsMessage w largest) (op : DeliveryOp) (r r' : DeliveryRun) (h : OnRoute w r)
    (hfitting : Fitting w largest op r.network) (hstep : op.perform w r = some r') :
    OnRoute w r' := by
  have hsane := perform_sane op r r' h.sane hfitting.1 hstep
  rw [DeliveryOp.perform] at hstep
  split_ifs at hstep
  obtain ⟨outcome, hop, hr'⟩ := Option.map_eq_some_iff.mp hstep
  have hreturns := outcome_located hrouted hfits op h.located h.sane.conserving.tracked
    h.notified hfitting hop
  cases outcome with
  | ok s =>
    subst hr'
    exact ⟨hsane, (hreturns s rfl).1, (hreturns s rfl).2⟩
  | error e =>
    subst hr'
    exact ⟨hsane, h.located, h.notified⟩

end OISA.Net
