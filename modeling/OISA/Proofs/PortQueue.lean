import OISA.Memory.Ports
import OISA.Proofs.EngineQueues

/-!
# No lost wake-up on module ports

The counter, the ports and the field `port` of the frames describe the same thing, frames wait
only while all ports are locked, and each frame that waited is granted a port once: a down-up
request before all others, the others in the order in which they came.
-/

namespace OISA.Memory.Ports

open OISA.Esim OISA.Lib

variable {down_up : FrameId → Bool} {m m' : Ports} {op : Op}

/-- The frames that wait for a port, from the head of the queue. -/
def queue (m : Ports) : List FrameId := m.world.queues port_queue

/-- A frame that holds a port of the module does not ask for another one. -/
def Disciplined (op : Op) (m : Ports) : Prop :=
  match op with
  | .lockPort frame _ => m.port frame = none
  | _ => True

instance : Decidable (Disciplined op m) := by
  unfold Disciplined
  split <;> infer_instance

structure PortInv (down_up : FrameId → Bool) (m : Ports) : Prop where
  locked : m.num_locked_ports = m.ports.countP (·.isSome)
  holds : ∀ p f, m.ports[p]? = some (some f) ↔ m.port f = some p
  full : m.queue ≠ [] → m.num_locked_ports = m.num_ports
  waiting : ∀ f ∈ m.queue, m.port f = none
  priority : m.queue = m.queue.filter down_up ++ m.queue.filter (!down_up ·)
  fifo : m.waits.filter (!down_up ·) =
    m.grants.filter (!down_up ·) ++ m.queue.filter (!down_up ·)
  once : m.waits.Perm (m.grants ++ m.queue)
  suspended : QueueInv m.world

lemma portInv_new (n : ℕ) : PortInv down_up (new n) where
  locked := by
    rw [new, List.countP_replicate]
    rfl
  holds p f := by simp [new, List.getElem?_replicate]
  full h := absurd rfl h
  waiting f hf := by cases hf
  priority := rfl
  fifo := rfl
  once := .refl _
  suspended := queueInv_empty

section Queue

lemma queue_of_esim {op : Esim.Op} {w w' : World} (hop : onPortQueue op = false)
    (hstep : World.step op w = some w') : w'.queues port_queue = w.queues port_queue := by
  by_cases hqueue : op.isQueue = false
  · rw [(step_of_not_isQueue hqueue hstep).1]
  · cases op with
    | wait q event priority =>
      obtain ⟨f, ev, -, -, -, -, -, hqueues⟩ := wait_cases hstep
      have hne : port_queue ≠ q := by
        rintro rfl
        simp [onPortQueue] at hop
      rw [hqueues, Function.update_of_ne hne]
    | wakeupOne q =>
      obtain ⟨f, rest, event, -, -, -, hqueues⟩ := wakeupOne_cases hstep
      have hne : port_queue ≠ q := by
        rintro rfl
        simp [onPortQueue] at hop
      rw [hqueues, Function.update_of_ne hne]
    | _ => exact absurd rfl hqueue

end Queue

section Array

variable {p : ℕ} {f : FrameId}

lemma lock_port_self : (m.lock p f).port f = some p := by
  apply Function.update_self

lemma lock_port_of_ne {g : FrameId} (hg : g ≠ f) : (m.lock p f).port g = m.port g := by
  apply Function.update_of_ne hg

lemma unlock_port_self : (m.unlock p f).port f = none := by
  apply Function.update_self

lemma unlock_port_of_ne {g : FrameId} (hg : g ≠ f) : (m.unlock p f).port g = m.port g := by
  apply Function.update_of_ne hg

lemma lock_ports : (m.lock p f).ports = m.ports.set p (some f) := rfl

lemma unlock_ports : (m.unlock p f).ports = m.ports.set p none := rfl

lemma lock_locked (h : m.num_locked_ports = m.ports.countP (·.isSome))
    (hp : m.ports[p]? = some none) :
    (m.lock p f).num_locked_ports = (m.lock p f).ports.countP (·.isSome) := by
  obtain ⟨hlt, hget⟩ := List.getElem?_eq_some_iff.mp hp
  have hcount := List.countP_set (p := fun o : Option FrameId => o.isSome) (a := some f) hlt
  rw [hget] at hcount
  rw [lock_ports, hcount, ← h]
  rfl

lemma unlock_locked (h : m.num_locked_ports = m.ports.countP (·.isSome))
    (hp : m.ports[p]? = some (some f)) :
    (m.unlock p f).num_locked_ports = (m.unlock p f).ports.countP (·.isSome) := by
  obtain ⟨hlt, hget⟩ := List.getElem?_eq_some_iff.mp hp
  have hcount := List.countP_set (p := fun o : Option FrameId => o.isSome) (a := none) hlt
  rw [hget] at hcount
  rw [unlock_ports, hcount, ← h]
  rfl

lemma lock_holds (h : ∀ p f, m.ports[p]? = some (some f) ↔ m.port f = some p)
    (hp : m.ports[p]? = some none) (hf : m.port f = none) (q : ℕ) (g : FrameId) :
    (m.lock p f).ports[q]? = some (some g) ↔ (m.lock p f).port g = some q := by
  obtain ⟨hlt, -⟩ := List.getElem?_eq_some_iff.mp hp
  rw [lock_ports]
  by_cases hq : q = p
  · rw [hq, List.getElem?_set_self hlt]
    by_cases hg : g = f
    · rw [hg, lock_port_self]
      simp
    · rw [lock_port_of_ne hg, ← h, hp]
      simp [Ne.symm hg]
  · rw [List.getElem?_set_ne (Ne.symm hq)]
    by_cases hg : g = f
    · rw [hg, lock_port_self, h, hf]
      simp [Ne.symm hq]
    · rw [lock_port_of_ne hg, h]

lemma unlock_holds (h : ∀ p f, m.ports[p]? = some (some f) ↔ m.port f = some p)
    (hp : m.ports[p]? = some (some f)) (q : ℕ) (g : FrameId) :
    (m.unlock p f).ports[q]? = some (some g) ↔ (m.unlock p f).port g = some q := by
  obtain ⟨hlt, -⟩ := List.getElem?_eq_some_iff.mp hp
  have hf := (h p f).mp hp
  rw [unlock_ports]
  by_cases hq : q = p
  · rw [hq, List.getElem?_set_self hlt]
    by_cases hg : g = f
    · rw [hg, unlock_port_self]
      simp
    · rw [unlock_port_of_ne hg, ← h, hp]
      simp [Ne.symm hg]
  · rw [List.getElem?_set_ne (Ne.symm hq)]
    by_cases hg : g = f
    · rw [hg, unlock_port_self, h, hf]
      simp [Ne.symm hq]
    · rw [unlock_port_of_ne hg, h]

lemma findIdx?_isNone (h : m.ports.findIdx? (·.isNone) = some p) : m.ports[p]? = some none := by
  obtain ⟨hlt, hnone, -⟩ := List.findIdx?_eq_some_iff_getElem.mp h
  rw [List.getElem?_eq_getElem hlt, Option.isNone_iff_eq_none.mp hnone]

end Array

section Order

lemma filter_order_tail {d : FrameId → Bool} {g : FrameId} {rest : List FrameId}
    (h : g :: rest = (g :: rest).filter d ++ (g :: rest).filter (!d ·)) :
    rest = rest.filter d ++ rest.filter (!d ·) := by
  by_cases hg : d g
  · simpa [hg] using h
  · cases hrest : rest.filter d with
    | nil => simpa [hg, hrest] using h
    | cons a l =>
      -- a down-up frame behind `g` would stand before it
      have hhead : g = a := by
        rw [List.filter_cons_of_neg hg, hrest, List.cons_append, List.cons.injEq] at h
        exact h.1
      have hmem : a ∈ rest.filter d := by
        rw [hrest]
        exact List.mem_cons_self
      rw [← hhead] at hmem
      exact absurd (List.mem_filter.mp hmem).2 hg

end Order

section Steps

lemma lockPort_wait {f : FrameId} {event : Option EventId}
    (hfull : m.num_ports ≤ m.num_locked_ports) (hcurrent : m.world.engine.current_frame = some f)
    (hstep : m.LockPort down_up f event = some m') :
    ∃ world, World.step (.wait port_queue event (down_up f)) m.world = some world ∧
      m' = { m with world := world, waits := m.waits ++ [f] } ∧
      m'.queue = if down_up f then f :: m.queue else m.queue ++ [f] := by
  rw [LockPort, if_pos hfull] at hstep
  obtain ⟨world, hworld, rfl⟩ := Option.map_eq_some_iff.mp hstep
  obtain ⟨g, ev, hg, -, -, -, -, hqueues⟩ := wait_cases hworld
  obtain rfl : f = g := Option.some.inj (hcurrent.symm.trans hg)
  have hqueue : world.queues port_queue =
      if down_up f then f :: m.queue else m.queue ++ [f] := by
    rw [hqueues, Function.update_self]
    rfl
  exact ⟨world, hworld, rfl, hqueue⟩

lemma lockPort_free {f : FrameId} {event : Option EventId}
    (hfree : m.num_locked_ports < m.num_ports) (hstep : m.LockPort down_up f event = some m') :
    ∃ p world, m.ports[p]? = some none ∧ World.step (.next event 0 0) m.world = some world ∧
      m' = { m.lock p f with world := world } := by
  rw [LockPort, if_neg (Nat.not_le.mpr hfree)] at hstep
  split at hstep
  case h_1 => cases hstep
  case h_2 p hp =>
    obtain ⟨world, hworld, rfl⟩ := Option.map_eq_some_iff.mp hstep
    exact ⟨p, world, findIdx?_isNone hp, hworld, rfl⟩

lemma unlockPort_cases {p : ℕ} {f : FrameId} (hstep : m.UnlockPort p f = some m') :
    0 < m.num_locked_ports ∧ m.port f = some p ∧ m.ports[p]? = some (some f) ∧
      ((m.queue = [] ∧ m' = m.unlock p f) ∨
        ∃ g rest world, m.queue = g :: rest ∧
          World.step (.wakeupOne port_queue) m.world = some world ∧
          world.queues port_queue = rest ∧
          m' = { (m.unlock p f).lock p g with world := world, grants := m.grants ++ [g] }) := by
  unfold UnlockPort at hstep
  split_ifs at hstep with hzero hport
  refine ⟨Nat.pos_of_ne_zero hzero, hport.1, hport.2, ?_⟩
  simp only [] at hstep
  split at hstep
  case h_1 hhead =>
    obtain rfl := Option.some.inj hstep
    exact .inl ⟨List.head?_eq_none_iff.mp hhead, rfl⟩
  case h_2 g hhead =>
    obtain ⟨world, hworld, rfl⟩ := Option.map_eq_some_iff.mp hstep
    have hwake : World.step (.wakeupOne port_queue) m.world = some world := hworld
    obtain ⟨g', rest, event, hqueue, -, -, hqueues⟩ := wakeupOne_cases hwake
    have hg : m.world.queues port_queue = g :: rest := by
      have : (m.world.queues port_queue).head? = some g := hhead
      rw [hqueue, List.head?_cons, Option.some.injEq] at this
      rw [hqueue, this]
    have hrest : world.queues port_queue = rest := by
      rw [hqueues, Function.update_self]
    exact .inr ⟨g, rest, world, hg, hwake, hrest, rfl⟩

lemma PortInv.esim (h : PortInv down_up m) {world : World}
    (hqueue : world.queues port_queue = m.queue) (hworld : QueueInv world) :
    PortInv down_up { m with world := world } := by
  have hq : queue { m with world := world } = m.queue := hqueue
  constructor
  case locked => exact h.locked
  case holds => exact h.holds
  case full =>
    rw [hq]
    exact h.full
  case waiting =>
    rw [hq]
    exact h.waiting
  case priority =>
    rw [hq]
    exact h.priority
  case fifo =>
    rw [hq]
    exact h.fifo
  case once =>
    rw [hq]
    exact h.once
  case suspended => exact hworld

/-- A frame starts to wait. -/
lemma PortInv.wait (h : PortInv down_up m) {f : FrameId} {world : World}
    (hfull : m.num_ports ≤ m.num_locked_ports) (hf : m.port f = none)
    (hqueue : world.queues port_queue = if down_up f then f :: m.queue else m.queue ++ [f])
    (hworld : QueueInv world) :
    PortInv down_up { m with world := world, waits := m.waits ++ [f] } := by
  have hq : queue { m with world := world, waits := m.waits ++ [f] } =
      if down_up f then f :: m.queue else m.queue ++ [f] := hqueue
  have hmem : ∀ x ∈ (if down_up f then f :: m.queue else m.queue ++ [f]),
      x = f ∨ x ∈ m.queue := by
    intro x hx
    split_ifs at hx
    · exact List.mem_cons.mp hx
    · exact (List.mem_append.mp hx).symm.imp List.mem_singleton.mp id
  constructor
  case locked => exact h.locked
  case holds => exact h.holds
  case full =>
    intro _
    have hle : m.num_locked_ports ≤ m.num_ports := by
      rw [h.locked]
      exact List.countP_le_length
    exact le_antisymm hle hfull
  case waiting =>
    rw [hq]
    intro x hx
    cases hmem x hx with
    | inl heq =>
      rw [heq]
      exact hf
    | inr hx => exact h.waiting x hx
  case priority =>
    rw [hq]
    by_cases hd : down_up f
    · simp only [hd, if_true, List.filter_cons, Bool.not_true, Bool.false_eq_true, if_false,
        List.cons_append]
      rw [← h.priority]
    · simp only [hd, Bool.false_eq_true, if_false, List.filter_append, List.filter_singleton,
        Bool.not_false, cond_true, cond_false, List.append_nil]
      rw [← List.append_assoc, ← h.priority]
  case fifo =>
    rw [hq]
    change (m.waits ++ [f]).filter (!down_up ·) = _
    rw [List.filter_append, h.fifo]
    by_cases hd : down_up f <;> simp [hd]
  case once =>
    rw [hq]
    have hwaits : (m.waits ++ [f]).Perm (m.grants ++ m.queue ++ [f]) := h.once.append_right [f]
    rw [List.append_assoc] at hwaits
    split_ifs
    · exact hwaits.trans ((List.perm_append_singleton f m.queue).append_left m.grants)
    · exact hwaits
  case suspended => exact hworld

lemma PortInv.lock (h : PortInv down_up m) {p : ℕ} {f : FrameId} {world : World}
    (hfree : m.num_locked_ports < m.num_ports) (hp : m.ports[p]? = some none)
    (hf : m.port f = none) (hqueue : world.queues port_queue = m.queue) (hworld : QueueInv world) :
    PortInv down_up { m.lock p f with world := world } := by
  have hempty : m.queue = [] := by
    by_contra hne
    exact absurd (h.full hne) hfree.ne
  have hq : queue { m.lock p f with world := world } = m.queue := hqueue
  constructor
  case locked => exact lock_locked h.locked hp
  case holds => exact lock_holds h.holds hp hf
  case full =>
    rw [hq]
    exact fun hne => absurd hempty hne
  case waiting =>
    rw [hq, hempty]
    intro x hx
    cases hx
  case priority =>
    rw [hq]
    exact h.priority
  case fifo =>
    rw [hq]
    exact h.fifo
  case once =>
    rw [hq]
    exact h.once
  case suspended => exact hworld

lemma PortInv.unlock (h : PortInv down_up m) {p : ℕ} {f : FrameId}
    (hp : m.ports[p]? = some (some f)) (hempty : m.queue = []) :
    PortInv down_up (m.unlock p f) := by
  have hq : (m.unlock p f).queue = m.queue := rfl
  constructor
  case locked => exact unlock_locked h.locked hp
  case holds => exact unlock_holds h.holds hp
  case full =>
    rw [hq]
    exact fun hne => absurd hempty hne
  case waiting =>
    rw [hq, hempty]
    intro x hx
    cases hx
  case priority => exact h.priority
  case fifo => exact h.fifo
  case once => exact h.once
  case suspended => exact h.suspended

/-- A port goes from a frame to the head of the queue. -/
lemma PortInv.grant (h : PortInv down_up m) {p : ℕ} {f g : FrameId} {rest : List FrameId}
    {world : World} (hpos : 0 < m.num_locked_ports) (hf : m.port f = some p)
    (hp : m.ports[p]? = some (some f)) (hhead : m.queue = g :: rest)
    (hqueue : world.queues port_queue = rest) (hworld : QueueInv world) :
    PortInv down_up
      { (m.unlock p f).lock p g with world := world, grants := m.grants ++ [g] } := by
  have hq : queue { (m.unlock p f).lock p g with world := world, grants := m.grants ++ [g] } =
      rest := hqueue
  have hpriority := h.priority
  have hfifo := h.fifo
  have honce := h.once
  have hwaiting : ∀ x ∈ m.queue, x ≠ f ∧ m.port x = none := by
    intro x hx
    have hnone := h.waiting x hx
    refine ⟨?_, hnone⟩
    rintro rfl
    rw [hf] at hnone
    cases hnone
  rw [hhead] at hpriority hfifo honce hwaiting
  have hnodup : g ∉ rest := by
    have := h.suspended.nodup port_queue
    rw [show m.world.queues port_queue = g :: rest from hhead, List.nodup_cons] at this
    exact this.1
  have hfree : (m.unlock p f).ports[p]? = some none := by
    rw [unlock_ports, List.getElem?_set_self (List.getElem?_eq_some_iff.mp hp).1]
  have hg : (m.unlock p f).port g = none := by
    rw [unlock_port_of_ne (hwaiting g List.mem_cons_self).1]
    exact (hwaiting g List.mem_cons_self).2
  constructor
  case locked => exact lock_locked (unlock_locked h.locked hp) hfree
  case holds => exact lock_holds (unlock_holds h.holds hp) hfree hg
  case full =>
    intro _
    have hlocked : m.num_locked_ports - 1 + 1 = m.num_ports := by
      rw [Nat.sub_add_cancel hpos]
      apply h.full
      rw [hhead]
      exact List.cons_ne_nil g rest
    have hports : num_ports ((m.unlock p f).lock p g) = m.num_ports := by
      rw [num_ports, num_ports, lock_ports, unlock_ports, List.length_set, List.length_set]
    exact hlocked.trans hports.symm
  case waiting =>
    rw [hq]
    intro x hx
    have hxg : x ≠ g := by
      rintro rfl
      exact hnodup hx
    have hxf := hwaiting x (List.mem_cons_of_mem g hx)
    change ((m.unlock p f).lock p g).port x = none
    rw [lock_port_of_ne hxg, unlock_port_of_ne hxf.1]
    exact hxf.2
  case priority =>
    rw [hq]
    exact filter_order_tail hpriority
  case fifo =>
    rw [hq]
    change m.waits.filter (!down_up ·) = (m.grants ++ [g]).filter (!down_up ·) ++ _
    rw [hfifo, ← List.filter_append, ← List.filter_append, List.append_assoc]
    rfl
  case once =>
    rw [hq]
    change m.waits.Perm (m.grants ++ [g] ++ rest)
    rw [List.append_assoc]
    exact honce
  case suspended => exact hworld

lemma PortInv.step (h : PortInv down_up m) (hdisc : Disciplined op m)
    (hstep : step down_up op m = some m') : PortInv down_up m' := by
  cases op with
  | esim op =>
    rw [Ports.step] at hstep
    split_ifs at hstep with hop
    obtain ⟨world, hworld, rfl⟩ := Option.map_eq_some_iff.mp hstep
    apply h.esim
    · exact queue_of_esim (by simpa using hop) hworld
    · exact h.suspended.step hworld
  | lockPort f event =>
    rw [Ports.step] at hstep
    split_ifs at hstep with hcurrent
    by_cases hfull : m.num_ports ≤ m.num_locked_ports
    · obtain ⟨world, hworld, rfl, hqueue⟩ := lockPort_wait hfull hcurrent hstep
      exact h.wait hfull hdisc hqueue (h.suspended.step hworld)
    · obtain ⟨p, world, hp, hworld, rfl⟩ := lockPort_free (Nat.lt_of_not_le hfull) hstep
      exact h.lock (Nat.lt_of_not_le hfull) hp hdisc (queue_of_esim rfl hworld)
        (h.suspended.step hworld)
  | unlockPort p f =>
    rw [Ports.step] at hstep
    split_ifs at hstep with hcallable
    obtain ⟨hpos, hf, hp, hqueue⟩ := unlockPort_cases hstep
    cases hqueue with
    | inl hempty =>
      obtain ⟨hempty, rfl⟩ := hempty
      exact h.unlock hp hempty
    | inr hgrant =>
      obtain ⟨g, rest, world, hhead, hworld, hrest, rfl⟩ := hgrant
      exact h.grant hpos hf hp hhead hrest (h.suspended.step hworld)

end Steps

/-- Along a run in which no frame that holds a port asks for another one the ports hold distinct
frames, frames wait only while all ports are locked, and each of them is granted a port once. -/
theorem run_ports {n : ℕ} {ops : List Op} (hdisc : Along (step down_up) Disciplined ops (new n))
    (hrun : run (step down_up) ops (new n) = some m) :
    m.num_locked_ports = m.ports.countP (·.isSome) ∧ m.num_locked_ports ≤ m.num_ports ∧
      (∀ (p q : ℕ) (f : FrameId),
        m.ports[p]? = some (some f) → m.ports[q]? = some (some f) → p = q) ∧
      (m.queue ≠ [] → m.num_locked_ports = m.num_ports) ∧
      m.waits.Perm (m.grants ++ m.queue) ∧ m.queue.Nodup ∧
      m.waits.filter (!down_up ·) =
        m.grants.filter (!down_up ·) ++ m.queue.filter (!down_up ·) ∧
      m.queue = m.queue.filter down_up ++ m.queue.filter (!down_up ·) ∧
      (∀ f event m', step down_up (.lockPort f event) m = some m' →
        m.num_locked_ports = m.num_ports →
        m'.queue = if down_up f then f :: m.queue else m.queue ++ [f]) ∧
      (∀ (p : ℕ) f m', step down_up (.unlockPort p f) m = some m' →
        ∀ g rest, m.queue = g :: rest →
          m'.ports[p]? = some (some g) ∧ m'.queue = rest ∧ m'.grants = m.grants ++ [g]) := by
  have hinv : PortInv down_up m :=
    run_invariant (fun _ _ _ h hop hstep => h.step hop hstep) (portInv_new n) hdisc hrun
  refine ⟨hinv.locked, ?_, ?_, hinv.full, hinv.once, hinv.suspended.nodup port_queue, hinv.fifo,
    hinv.priority, ?_, ?_⟩
  · rw [hinv.locked]
    exact List.countP_le_length
  · intro p q f hp hq
    have hpq := ((hinv.holds p f).mp hp).symm.trans ((hinv.holds q f).mp hq)
    exact Option.some.inj hpq
  · intro f event m' hstep hfull
    rw [step] at hstep
    split_ifs at hstep with hcurrent
    obtain ⟨world, -, -, hqueue⟩ := lockPort_wait hfull.ge hcurrent hstep
    exact hqueue
  · intro p f m' hstep g rest hhead
    rw [step] at hstep
    split_ifs at hstep with hcallable
    obtain ⟨-, -, hp, hqueue⟩ := unlockPort_cases hstep
    cases hqueue with
    | inl hempty =>
      rw [hempty.1] at hhead
      cases hhead
    | inr hgrant =>
      obtain ⟨g', rest', world, hhead', -, hrest, rfl⟩ := hgrant
      rw [hhead] at hhead'
      obtain ⟨rfl, rfl⟩ := List.cons.inj hhead'
      refine ⟨?_, hrest, rfl⟩
      change ((m.ports.set p none).set p (some g))[p]? = _
      rw [List.getElem?_set_self]
      rw [List.length_set]
      exact (List.getElem?_eq_some_iff.mp hp).1

section Examples

/-- Frame `f` runs a handler that asks for a port. -/
def ask (f : FrameId) : List Op :=
  [.esim .processEvent, .lockPort f (some 1), .esim .handlerEnd]

/-- Frames 0 to 3 are due, the odd ones with down-up requests. -/
def start : List Op :=
  [.esim (.registerFrequencyDomain 1000), .esim (.registerEvent (some 0)),
    .esim (.schedule (some 1) 0 0 0), .esim (.schedule (some 1) 2 0 0),
    .esim (.schedule (some 1) 1 0 0), .esim .startProcess]

/-- Frame 0 holds the port, frames 2 and 1 wait in this order of arrival, and frame 0 unlocks. -/
def overtaking : List Op :=
  start ++ ask 0 ++ ask 2 ++ ask 1 ++ [.esim .processEvent, .unlockPort 0 0]

theorem run_ports_overtaking :
    Along (step fun f => f % 2 = 1) Disciplined overtaking (new 1) ∧
      ∃ m, run (step fun f => f % 2 = 1) overtaking (new 1) = some m ∧
        m.num_locked_ports = m.ports.countP (·.isSome) ∧ m.waits.Perm (m.grants ++ m.queue) := by
  have hdisc : Along (step fun f => f % 2 = 1) Disciplined overtaking (new 1) := by
    decide +kernel
  have hsome : (run (step fun f => f % 2 = 1) overtaking (new 1)).isSome := by
    decide +kernel
  obtain ⟨m, hm⟩ := Option.isSome_iff_exists.mp hsome
  obtain ⟨hlocked, -, -, -, honce, -⟩ := run_ports hdisc hm
  exact ⟨hdisc, m, hm, hlocked, honce⟩

/-- A down-up request is granted before an older request, and a frame that asks twice holds two
ports. -/
theorem not_fifo :
    (∃ m, run (step fun f => f % 2 = 1) overtaking (new 1) = some m ∧
      m.waits = [2, 1] ∧ m.grants = [1] ∧ m.queue = [2]) ∧
    (∃ m, run (step fun _ => false) (start ++ ask 0 ++ [.esim .processEvent, .esim .handlerEnd] ++
      [.esim .processEvent, .esim .handlerEnd] ++ ask 0) (new 2) = some m ∧
      m.ports = [some 0, some 0]) := by
  constructor
  · have h : (run (step fun f => f % 2 = 1) overtaking (new 1)).map
        (fun m => (m.waits, m.grants, m.queue)) = some ([2, 1], [1], [2]) := by
      decide +kernel
    obtain ⟨m, hm, hm'⟩ := Option.map_eq_some_iff.mp h
    simp only [Prod.mk.injEq] at hm'
    exact ⟨m, hm, hm'.1, hm'.2.1, hm'.2.2⟩
  · have h : (run (step fun _ => false) (start ++ ask 0 ++
        [.esim .processEvent, .esim .handlerEnd] ++ [.esim .processEvent, .esim .handlerEnd] ++
        ask 0) (new 2)).map Ports.ports = some [some 0, some 0] := by
      decide +kernel
    obtain ⟨m, hm, hm'⟩ := Option.map_eq_some_iff.mp h
    exact ⟨m, hm, hm'⟩

end Examples

end OISA.Memory.Ports
