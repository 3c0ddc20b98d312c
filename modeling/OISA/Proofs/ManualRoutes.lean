import OISA.Net.ManualRoutes

/-!
# Routes set by hand

An update looks for a connection to the next node in the order of the output buffers.
-/

namespace OISA.Proofs.ManualRoutes

open OISA.Net.ManualRoutes

variable {n : ℕ} (net : Network n)

/-- The connection of an output buffer reaches the next node with the virtual channel. -/
def Reaches (next : Fin n) (virtual_channel B : ℕ) : Prop :=
  match net.connection B with
  | .link destination_node num_virtual_channels _ =>
    destination_node = next ∧ virtual_channel < num_virtual_channels
  | .bus destination_buffers => virtual_channel = 0 ∧ ∃ D ∈ destination_buffers, net.node D = next

def Refuses (next : Fin n) (virtual_channel B : ℕ) : Prop :=
  match net.connection B with
  | .link destination_node num_virtual_channels _ =>
    destination_node = next ∧ num_virtual_channels ≤ virtual_channel
  | .bus _ => virtual_channel ≠ 0

/-- The source buffer of the virtual channel, if the connection is a link -/
def ChannelBuffer (virtual_channel B buffer : ℕ) : Prop :=
  ∀ destination_node num_virtual_channels source_buffers,
    net.connection B = .link destination_node num_virtual_channels source_buffers →
      source_buffers[virtual_channel]? = some buffer

def Decides (next : Fin n) (virtual_channel : ℕ) (buffers : List ℕ) (B : ℕ) : Prop :=
  ∃ before after, buffers = before ++ B :: after ∧ Reaches net next virtual_channel B ∧
    ∀ B' ∈ before, ¬ Refuses net next virtual_channel B'

variable {net} {source next : Fin n} {virtual_channel : ℕ}

lemma channel_mem {B : ℕ} (hB : B ∈ net.output_buffers source) {destination_node : Fin n}
    {num_virtual_channels : ℕ} {source_buffers : List ℕ}
    (hlink : net.connection B = .link destination_node num_virtual_channels source_buffers)
    (hchannel : virtual_channel < num_virtual_channels) :
    ∃ buffer, source_buffers[virtual_channel]? = some buffer ∧
      buffer ∈ net.output_buffers source := by
  have hat := net.connection_at source B hB
  rw [hlink] at hat
  obtain ⟨hlength, hmem⟩ := hat
  rw [← hlength] at hchannel
  exact ⟨_, List.getElem?_eq_getElem hchannel, hmem _ (List.getElem_mem hchannel)⟩

lemma findBuffer_cons {B : ℕ} (hB : B ∈ net.output_buffers source) (buffers : List ℕ) :
    (Refuses net next virtual_channel B ∧ ¬ Reaches net next virtual_channel B ∧
      ∃ e, findBuffer net source next virtual_channel (B :: buffers) = .error (.error e)) ∨
    (¬ Refuses net next virtual_channel B ∧ Reaches net next virtual_channel B ∧
      ∃ buffer, findBuffer net source next virtual_channel (B :: buffers) = .ok buffer ∧
        ChannelBuffer net virtual_channel B buffer) ∨
    (¬ Refuses net next virtual_channel B ∧ ¬ Reaches net next virtual_channel B ∧
      findBuffer net source next virtual_channel (B :: buffers) =
        findBuffer net source next virtual_channel buffers) := by
  unfold Refuses Reaches ChannelBuffer
  rw [findBuffer]
  cases hconnection : net.connection B with
  | link destination_node num_virtual_channels source_buffers =>
    dsimp only
    by_cases hnext : destination_node = next
    · rw [if_pos hnext]
      by_cases hchannel : virtual_channel < num_virtual_channels
      · obtain ⟨buffer, hbuffer, hmem⟩ := channel_mem hB hconnection hchannel
        refine Or.inr (Or.inl ⟨by omega, ⟨hnext, hchannel⟩, buffer, ?_, ?_⟩)
        · rw [if_neg (by omega), hbuffer]
          exact if_pos (net.node_output source buffer hmem)
        · intro _ _ _ h
          cases h
          exact hbuffer
      · refine Or.inl ⟨⟨hnext, by omega⟩, by omega, .wrongVirtualChannel, ?_⟩
        exact if_pos (by omega)
    · rw [if_neg hnext]
      exact Or.inr (Or.inr ⟨fun h => hnext h.1, fun h => hnext h.1, rfl⟩)
  | bus destination_buffers =>
    dsimp only
    by_cases hchannel : virtual_channel = 0
    · rw [if_neg (not_not.mpr hchannel)]
      cases hfind : destination_buffers.find? fun D => net.node D = next with
      | some D =>
        have hD := List.find?_some hfind
        rw [decide_eq_true_eq] at hD
        refine Or.inr (Or.inl ⟨not_not.mpr hchannel,
          ⟨hchannel, D, List.mem_of_find?_eq_some hfind, hD⟩, D, rfl, fun _ _ _ h => ?_⟩)
        cases h
      | none =>
        refine Or.inr (Or.inr ⟨not_not.mpr hchannel, ?_, rfl⟩)
        rintro ⟨-, D, hmem, hD⟩
        exact List.find?_eq_none.mp hfind D hmem (decide_eq_true hD)
    · refine Or.inl ⟨hchannel, fun h => hchannel h.1, .noVirtualChannel, ?_⟩
      exact if_pos hchannel

lemma decides_nil {B : ℕ} : ¬ Decides net next virtual_channel [] B := by
  rintro ⟨before, after, h, -, -⟩
  exact List.append_ne_nil_of_right_ne_nil before (List.cons_ne_nil B after) h.symm

lemma decides_cons {B B₁ : ℕ} {buffers : List ℕ} :
    Decides net next virtual_channel (B :: buffers) B₁ ↔
      (B₁ = B ∧ Reaches net next virtual_channel B) ∨
        (¬ Refuses net next virtual_channel B ∧ Decides net next virtual_channel buffers B₁) := by
  constructor
  · rintro ⟨before, after, hsplit, hreaches, hbefore⟩
    cases before with
    | nil =>
      obtain ⟨rfl, -⟩ := List.cons.inj hsplit
      exact Or.inl ⟨rfl, hreaches⟩
    | cons first before =>
      obtain ⟨rfl, rfl⟩ := List.cons.inj hsplit
      exact Or.inr ⟨hbefore B List.mem_cons_self, before, after, rfl, hreaches,
        fun B' hB' => hbefore B' (List.mem_cons_of_mem B hB')⟩
  · rintro (⟨rfl, hreaches⟩ | ⟨hrefuses, before, after, rfl, hreaches, hbefore⟩)
    · exact ⟨[], buffers, rfl, hreaches, fun B' hB' => absurd hB' List.not_mem_nil⟩
    · refine ⟨B :: before, after, rfl, hreaches, fun B' hB' => ?_⟩
      rcases List.mem_cons.mp hB' with rfl | hB'
      · exact hrefuses
      · exact hbefore B' hB'

lemma findBuffer_spec {buffers : List ℕ} (hbuffers : ∀ B ∈ buffers, B ∈ net.output_buffers source) :
    (∃ B, Decides net next virtual_channel buffers B ∧
      ∃ buffer, findBuffer net source next virtual_channel buffers = .ok buffer ∧
        ChannelBuffer net virtual_channel B buffer) ∨
    ((∀ B, ¬ Decides net next virtual_channel buffers B) ∧
      ∃ e, findBuffer net source next virtual_channel buffers = .error (.error e)) := by
  induction buffers with
  | nil => exact Or.inr ⟨fun B => decides_nil, .missingConnection, rfl⟩
  | cons B buffers ih =>
    simp only [decides_cons]
    rcases findBuffer_cons (hbuffers B List.mem_cons_self) buffers with
      ⟨hrefuses, hreaches, herror⟩ | ⟨-, hreaches, hfound⟩ | ⟨hrefuses, hreaches, hrest⟩
    · refine Or.inr ⟨fun B₁ h => ?_, herror⟩
      rcases h with h | h
      · exact hreaches h.2
      · exact h.1 hrefuses
    · exact Or.inl ⟨B, Or.inl ⟨rfl, hreaches⟩, hfound⟩
    · rw [hrest]
      rcases ih fun B' hB' => hbuffers B' (List.mem_cons_of_mem B hB') with
        ⟨B₁, hdecides, hfound⟩ | ⟨hnone, herror⟩
      · exact Or.inl ⟨B₁, Or.inr ⟨hrefuses, hdecides⟩, hfound⟩
      · refine Or.inr ⟨fun B₁ h => ?_, herror⟩
        rcases h with h | h
        · exact hreaches h.2
        · exact hnone B₁ h.2

section Update

variable (net) (t : Table n) (source destination next : Fin n) (virtual_channel : ℕ)

/-- What an update does to the table, and when it raises an error -/
structure Updates (failure : Option Failure) (t' : Table n) : Prop where
  /-- the other entries stay -/
  others : ∀ s d, (s, d) ≠ (source, destination) → t'.entries s d = t.entries s d
  /-- an update that succeeds has a connection of the source node to the next node -/
  success : failure = none → (t'.entries source destination).next_node = some next ∧
    ∃ B ∈ net.output_buffers source, Reaches net next virtual_channel B ∧
      ∀ destination_node num_virtual_channels source_buffers,
        net.connection B = .link destination_node num_virtual_channels source_buffers →
          ∃ buffer ∈ net.output_buffers source, source_buffers[virtual_channel]? = some buffer ∧
            (t'.entries source destination).buffer = some buffer
  /-- an error changes no buffer -/
  error : failure ≠ none →
    (t'.entries source destination).buffer = (t.entries source destination).buffer
  raises : failure ≠ none ↔ source = destination ∨
    ∀ B, ¬ Decides net next virtual_channel (net.output_buffers source) B
  no_assertion : failure ≠ some .assertion

variable {net t source destination next virtual_channel}

lemma entries_put (h : source ≠ destination) (cost : ℕ) (buffer : Option ℕ) (s d : Fin n) :
    (t.put h cost next buffer).entries s d =
      if s = source ∧ d = destination then { cost, next_node := some next, buffer }
      else t.entries s d := rfl

lemma Decides.mem {buffers : List ℕ} {B : ℕ} (h : Decides net next virtual_channel buffers B) :
    B ∈ buffers ∧ Reaches net next virtual_channel B := by
  obtain ⟨before, after, rfl, hreaches, -⟩ := h
  exact ⟨List.mem_append_right before List.mem_cons_self, hreaches⟩

lemma ChannelBuffer.mem {B buffer : ℕ} (hB : B ∈ net.output_buffers source)
    (hreaches : Reaches net next virtual_channel B) {destination_node : Fin n}
    {num_virtual_channels : ℕ} {source_buffers : List ℕ}
    (hlink : net.connection B = .link destination_node num_virtual_channels source_buffers)
    (hbuffer : source_buffers[virtual_channel]? = some buffer) :
    buffer ∈ net.output_buffers source := by
  unfold Reaches at hreaches
  rw [hlink] at hreaches
  obtain ⟨buffer', hbuffer', hmem⟩ := channel_mem hB hlink hreaches.2
  rw [hbuffer] at hbuffer'
  cases hbuffer'
  exact hmem

variable (net t source destination next virtual_channel)

end Update

section Mixed

/-- Node 0 has a bus to node 1 and a link with two virtual channels to it, and node 1 has a link to
node 2. -/
def mixedOutputs : Fin 3 → List ℕ := ![[10, 11, 12], [13], []]

def mixedConnection (B : ℕ) : Connection 3 :=
  if B = 10 then .bus [20]
  else if B = 13 then .link (Fin.last 2) 1 [13]
  else .link 1 2 [11, 12]

def mixedNode (B : ℕ) : Fin 3 := if B < 13 then 0 else 1

lemma mixedNode_output : ∀ v, ∀ B ∈ mixedOutputs v, mixedNode B = v := by decide

lemma mixedConnection_at :
    ∀ v, ∀ B ∈ mixedOutputs v, (mixedConnection B).At (mixedOutputs v) := by decide

def mixedNetwork : Network 3 where
  output_buffers := mixedOutputs
  connection := mixedConnection
  node := mixedNode
  node_output := mixedNode_output
  connection_at := mixedConnection_at

end Mixed

end OISA.Proofs.ManualRoutes
