import OISA.Dram.Channel
import OISA.Lib.Runs

/-!
# The row-buffer protocol of a bank

The row buffer holds no row or one row.
-/

namespace OISA.Dram

open OISA.Lib

/-- A command on the row buffer: activate only when precharged, precharge, read and write only
on an open row, an access only to the row of its own request. -/
def rowStep (command : Command) (row : Option ℕ) : Option (Option ℕ) :=
  match command.type, row with
  | .CommandActivate, none => some (some command.request.address.row)
  | .CommandPrecharge, some _ => some none
  | .CommandRead, some r | .CommandWrite, some r =>
    if r = command.request.address.row then some (some r) else none
  | _, _ => none

/-- How `future_active_row` writes a row buffer. -/
def rowCode : Option ℕ → ℤ
  | none => -1
  | some r => r

def Command.isAccess (command : Command) : Bool :=
  command.type == .CommandRead || command.type == .CommandWrite

/-- The reads and writes of a list of commands, with their requests. -/
def accesses (commands : List Command) : List (Option CommandType × Request) :=
  (commands.filter Command.isAccess).map fun c => (some c.type, c.request)

inductive BankOp
  | process (cycle : ℤ) (request : Request)
  | runFront (cycle : ℤ)

structure BankRun where
  ran : List Command
  bank : Bank

def BankOp.perform (policy : PagePolicy) : BankOp → BankRun → Option BankRun
  | .process cycle request, s => do
    let bank ← s.bank.ProcessRequest policy cycle request
    return { s with bank }
  | .runFront cycle, s => do
    let (command, bank) ← s.bank.RunFrontCommand cycle
    return { ran := s.ran ++ [command], bank }

/-- The requests of a run, in order. -/
def processed : List BankOp → List Request
  | [] => []
  | .process _ request :: ops => request :: processed ops
  | .runFront _ :: ops => processed ops

def BankRun.commands (s : BankRun) : List Command := s.ran ++ s.bank.command_queue

/-- The commands are legal and leave the future active row; the accesses are those of the
requests. -/
structure Protocol (requests : List Request) (s : BankRun) : Prop where
  rows : ∃ row, run rowStep s.commands none = some row ∧ s.bank.future_active_row = rowCode row
  accesses : accesses s.commands = requests.map fun r => (Bank.accessType r.type, r)

lemma accesses_append (cs ds : List Command) :
    accesses (cs ++ ds) = accesses cs ++ accesses ds := by
  rw [accesses, accesses, accesses, List.filter_append, List.map_append]

lemma rowCode_eq_neg_one {row : Option ℕ} : rowCode row = -1 ↔ row = none := by
  cases row with
  | none => exact ⟨fun _ => rfl, fun _ => rfl⟩
  | some r =>
    simp only [rowCode, reduceCtorEq]

lemma rowCode_eq_natCast {row : Option ℕ} {r : ℕ} : rowCode row = r ↔ row = some r := by
  cases row with
  | none =>
    simp only [rowCode, reduceCtorEq]
  | some r' => simp only [rowCode, Nat.cast_inj, Option.some.injEq]

lemma Bank.openRow_spec (cycle : ℤ) (request : Request) {b : Bank} {row : Option ℕ}
    (h : b.future_active_row = rowCode row) :
    ∃ cs, (b.openRow cycle request).command_queue = b.command_queue ++ cs ∧
      run rowStep cs row = some (some request.address.row) ∧ accesses cs = [] ∧
      (b.openRow cycle request).future_active_row = request.address.row := by
  unfold Bank.openRow Bank.isPrechargedFuture
  by_cases hnone : b.future_active_row = -1
  · obtain rfl := rowCode_eq_neg_one.mp (h ▸ hnone)
    rw [if_pos (beq_iff_eq.mpr hnone)]
    exact ⟨[_], rfl, rfl, rfl, rfl⟩
  · rw [if_neg fun heq => hnone (beq_iff_eq.mp heq)]
    by_cases hrow : b.future_active_row = request.address.row
    · obtain rfl := rowCode_eq_natCast.mp (h ▸ hrow)
      rw [if_neg (not_not.mpr hrow)]
      exact ⟨[], (List.append_nil _).symm, rfl, rfl, hrow⟩
    · cases row with
      | none => exact absurd h hnone
      | some r =>
        rw [if_pos hrow]
        exact ⟨[_, _], List.append_assoc _ _ _, rfl, rfl, rfl⟩

lemma rowStep_access {request : Request} {type : CommandType}
    (h : Bank.accessType request.type = some type) (cycle : ℤ) :
    rowStep ⟨request, type, cycle⟩ (some request.address.row) = some (some request.address.row) ∧
      Command.isAccess ⟨request, type, cycle⟩ = true := by
  cases hreq : request.type with
  | RequestInvalid =>
    rw [hreq] at h
    exact absurd h nofun
  | RequestRead =>
    rw [hreq] at h
    obtain rfl := Option.some.inj h
    exact ⟨if_pos rfl, rfl⟩
  | RequestWrite =>
    rw [hreq] at h
    obtain rfl := Option.some.inj h
    exact ⟨if_pos rfl, rfl⟩

lemma Bank.ProcessRequest_spec (policy : PagePolicy) (cycle : ℤ) {request : Request} {b : Bank}
    {row : Option ℕ} (h : b.future_active_row = rowCode row) {type : CommandType}
    (htype : Bank.accessType request.type = some type) :
    ∃ b' cs row', b.ProcessRequest policy cycle request = some b' ∧
      b'.command_queue = b.command_queue ++ cs ∧ run rowStep cs row = some row' ∧
      b'.future_active_row = rowCode row' ∧ accesses cs = [(some type, request)] := by
  obtain ⟨cs, hqueue, hrun, haccess, hfuture⟩ := b.openRow_spec cycle request h
  obtain ⟨hstep, hisAccess⟩ := rowStep_access htype cycle
  unfold Bank.ProcessRequest
  simp only [hfuture, ne_eq, not_true_eq_false, if_false, htype, Option.bind_eq_bind,
    Option.bind_some]
  have hone : accesses [⟨request, type, cycle⟩] = [(some type, request)] := by
    rw [accesses, List.filter_cons_of_pos hisAccess]
    rfl
  cases policy with
  | PagePolicyOpen =>
    refine ⟨_, cs ++ [⟨request, type, cycle⟩], some request.address.row, rfl, ?_, ?_, hfuture, ?_⟩
    · rw [Bank.push, hqueue, List.append_assoc]
    · rw [run_append, hrun, Option.bind_some, run_cons, hstep]
      rfl
    · rw [accesses_append, haccess, hone, List.nil_append]
  | PagePolicyClosed =>
    refine ⟨_, cs ++ [⟨request, type, cycle⟩, ⟨request, .CommandPrecharge, cycle⟩], none, rfl,
      ?_, ?_, rfl, ?_⟩
    · simp only [Bank.setFutureRow, Bank.push, hqueue, List.append_assoc, List.cons_append,
        List.nil_append]
    · rw [run_append, hrun, Option.bind_some, run_cons, hstep]
      rfl
    · have hprecharge : accesses [⟨request, .CommandPrecharge, cycle⟩] = [] := rfl
      rw [← List.singleton_append, accesses_append, accesses_append, haccess, hone, hprecharge]
      rfl

lemma Protocol.process {policy : PagePolicy} {requests : List Request} {s s' : BankRun}
    (h : Protocol requests s) {cycle : ℤ} {request : Request}
    (hrun : BankOp.perform policy (.process cycle request) s = some s') :
    Protocol (requests ++ [request]) s' := by
  obtain ⟨row, hrow, hfuture⟩ := h.rows
  simp only [BankOp.perform, Option.bind_eq_bind, Option.bind_eq_some_iff] at hrun
  obtain ⟨bank, hprocess, hs'⟩ := hrun
  obtain rfl := Option.some.inj hs'
  cases htype : Bank.accessType request.type with
  | none =>
    -- an invalid type is a panic
    unfold Bank.ProcessRequest at hprocess
    simp only [htype, Option.bind_eq_bind, Option.bind_none, ite_self] at hprocess
    exact absurd hprocess nofun
  | some type =>
    obtain ⟨b', cs, row', hb', hqueue, hcs, hfuture', haccess⟩ :=
      s.bank.ProcessRequest_spec policy cycle hfuture htype
    obtain rfl := Option.some.inj (hprocess.symm.trans hb')
    have hcommands : BankRun.commands ⟨s.ran, bank⟩ = s.commands ++ cs := by
      rw [BankRun.commands, hqueue, BankRun.commands, List.append_assoc]
    constructor
    · refine ⟨row', ?_, hfuture'⟩
      rw [hcommands, run_append, hrow, Option.bind_some]
      exact hcs
    · rw [hcommands, accesses_append, h.accesses, haccess, List.map_append, ← htype]
      rfl

lemma Protocol.runFront {policy : PagePolicy} {requests : List Request} {s s' : BankRun}
    (h : Protocol requests s) {cycle : ℤ}
    (hrun : BankOp.perform policy (.runFront cycle) s = some s') : Protocol requests s' := by
  simp only [BankOp.perform, Bank.RunFrontCommand, Option.bind_eq_bind,
    Option.bind_eq_some_iff] at hrun
  obtain ⟨⟨command, bank⟩, hfront, hs'⟩ := hrun
  cases hqueue : s.bank.command_queue with
  | nil =>
    rw [hqueue] at hfront
    exact absurd hfront nofun
  | cons c rest =>
    rw [hqueue] at hfront
    obtain ⟨rfl, rfl⟩ := Prod.mk.inj (Option.some.inj hfront)
    obtain rfl := Option.some.inj hs'
    -- the command moves from the queue to those that ran
    have hcommands : s.commands = BankRun.commands ⟨s.ran ++ [c],
        { s.bank.setLastScheduledCommand c.type cycle with command_queue := rest }⟩ := by
      rw [BankRun.commands, BankRun.commands, hqueue, List.append_assoc]
      rfl
    obtain ⟨row, hrow, hfuture⟩ := h.rows
    exact ⟨⟨row, hcommands ▸ hrow, hfuture⟩, hcommands ▸ h.accesses⟩

lemma Protocol.run {policy : PagePolicy} {requests : List Request} {s s' : BankRun}
    (h : Protocol requests s) {ops : List BankOp}
    (hrun : run (BankOp.perform policy) ops s = some s') :
    Protocol (requests ++ processed ops) s' := by
  induction ops generalizing requests s with
  | nil =>
    obtain rfl := Option.some.inj hrun
    rw [processed, List.append_nil]
    exact h
  | cons op ops ih =>
    rw [run_cons, Option.bind_eq_some_iff] at hrun
    obtain ⟨s₁, hstep, hrest⟩ := hrun
    cases op with
    | process cycle request =>
      have hfinal := ih (h.process hstep) hrest
      rwa [List.append_assoc] at hfinal
    | runFront cycle => exact ih (h.runFront hstep) hrest

lemma protocol_new : Protocol [] ⟨[], Bank.new⟩ := ⟨⟨none, rfl, rfl⟩, rfl⟩

/-- **Row-buffer protocol**: the commands of the bank in queue order are legal for its row buffer,
with one access for each request in request order, and no request of a valid type meets a panic. -/
theorem row_buffer_protocol (policy : PagePolicy) (ops : List BankOp) (s : BankRun)
    (h : run (BankOp.perform policy) ops ⟨[], Bank.new⟩ = some s) :
    (∃ row, run rowStep (s.ran ++ s.bank.command_queue) none = some row ∧
      s.bank.future_active_row = rowCode row) ∧
    accesses (s.ran ++ s.bank.command_queue) =
      (processed ops).map (fun r => (Bank.accessType r.type, r)) ∧
    ∀ cycle request, request.type ≠ .RequestInvalid →
      ∃ b', s.bank.ProcessRequest policy cycle request = some b' := by
  have hprotocol := protocol_new.run h
  rw [List.nil_append] at hprotocol
  refine ⟨hprotocol.rows, hprotocol.accesses, fun cycle request htype => ?_⟩
  obtain ⟨row, _, hfuture⟩ := hprotocol.rows
  have haccess : ∃ type, Bank.accessType request.type = some type := by
    cases hreq : request.type with
    | RequestInvalid => exact absurd hreq htype
    | RequestRead => exact ⟨_, rfl⟩
    | RequestWrite => exact ⟨_, rfl⟩
  obtain ⟨type, htype⟩ := haccess
  obtain ⟨b', _, _, hb', _⟩ := s.bank.ProcessRequest_spec policy cycle hfuture htype
  exact ⟨b', hb'⟩

def rowMiss : List BankOp :=
  let sizes : AddressSizes := ⟨0, 0, 1, 3, 10, 10⟩
  [.process 1 (Request.new sizes .RequestRead 5), .runFront 2,
    .process 3 (Request.new sizes .RequestWrite 1030)]

theorem row_buffer_protocol_rowMiss : ∃ s : BankRun,
    run (BankOp.perform .PagePolicyOpen) rowMiss ⟨[], Bank.new⟩ = some s ∧
    (∃ row, run rowStep (s.ran ++ s.bank.command_queue) none = some row ∧
      s.bank.future_active_row = rowCode row) ∧
    accesses (s.ran ++ s.bank.command_queue) =
      (processed rowMiss).map (fun r => (Bank.accessType r.type, r)) ∧
    ∀ cycle request, request.type ≠ .RequestInvalid →
      ∃ b', s.bank.ProcessRequest .PagePolicyOpen cycle request = some b' := by
  have hrun := (Option.some_get (by decide +kernel : (run (BankOp.perform .PagePolicyOpen)
    rowMiss ⟨[], Bank.new⟩).isSome = true)).symm
  exact ⟨_, hrun, row_buffer_protocol .PagePolicyOpen rowMiss _ hrun⟩

end OISA.Dram
