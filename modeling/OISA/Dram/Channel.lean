import OISA.Dram.System

/-!
# Banks and channels of a DRAM
-/

/-!
## DRAM banks

Model of `dram/Bank.cc`: a request is broken down into commands at the end of the bank's
queue, for the row that will be open when the queue has run; the scheduler runs the command at
the front.
-/

namespace OISA.Dram

inductive CommandType
  | CommandInvalid
  | CommandPrecharge
  | CommandActivate
  | CommandRead
  | CommandWrite
  deriving DecidableEq, Repr

inductive PagePolicy
  | PagePolicyOpen
  | PagePolicyClosed
  deriving DecidableEq, Repr

structure Command where
  request : Request
  type : CommandType
  cycle_created : ℤ
  deriving DecidableEq, Repr

/-- A bank; a future active row of -1 means that the bank will be precharged. -/
structure Bank where
  command_queue : List Command
  last_scheduled_commands : CommandType → ℤ
  future_active_row : ℤ

namespace Bank

def new : Bank where
  command_queue := []
  last_scheduled_commands _ := -100
  future_active_row := -1

def isPrechargedFuture (b : Bank) : Bool := b.future_active_row == -1

def push (b : Bank) (request : Request) (type : CommandType) (cycle : ℤ) : Bank :=
  { b with command_queue := b.command_queue ++ [{ request, type, cycle_created := cycle }] }

def setFutureRow (b : Bank) (row : ℤ) : Bank := { b with future_active_row := row }

def openRow (cycle : ℤ) (request : Request) (b : Bank) : Bank :=
  if b.isPrechargedFuture then
    (b.push request .CommandActivate cycle).setFutureRow request.address.row
  else if b.future_active_row ≠ request.address.row then
    ((b.push request .CommandPrecharge cycle).push request .CommandActivate cycle).setFutureRow
      request.address.row
  else b

/-- The access command of a request; an invalid type is a panic. -/
def accessType : RequestType → Option CommandType
  | .RequestRead => some .CommandRead
  | .RequestWrite => some .CommandWrite
  | .RequestInvalid => none

/-- `ProcessRequest`, with `none` for a panic. -/
def ProcessRequest (policy : PagePolicy) (cycle : ℤ) (request : Request) (b : Bank) :
    Option Bank := do
  let b := b.openRow cycle request
  if b.future_active_row ≠ request.address.row then none
  else
    let type ← accessType request.type
    let b := b.push request type cycle
    match policy with
    | .PagePolicyClosed => return (b.push request .CommandPrecharge cycle).setFutureRow (-1)
    | .PagePolicyOpen => return b

def setLastScheduledCommand (type : CommandType) (cycle : ℤ) (b : Bank) : Bank :=
  { b with last_scheduled_commands := Function.update b.last_scheduled_commands type cycle }

def RunFrontCommand (cycle : ℤ) (b : Bank) : Option (Command × Bank) :=
  match b.command_queue with
  | [] => none
  | command :: rest =>
    some (command, { b.setLastScheduledCommand command.type cycle with command_queue := rest })

end Bank

end OISA.Dram

/-!
## DRAM channels

Model of `dram/Channel.cc`, `dram/Scheduler.cc`, `dram/Rank.cc` and the timing matrix of
`dram/Controller.cc`: a channel remembers the last cycle of each command type in each bank and
rank, and its scheduler event runs the front command of one bank when the timing allows it.
-/

namespace OISA.Dram

structure TimingParameters where
  time_rc : ℤ
  time_rrd : ℤ
  time_rp : ℤ
  time_ccd : ℤ
  time_rtrs : ℤ
  time_cwd : ℤ
  time_wtr : ℤ
  time_cas : ℤ
  time_rcd : ℤ
  time_ost : ℤ
  time_ras : ℤ
  time_wr : ℤ
  time_rtp : ℤ
  time_burst : ℤ

inductive TimingCommand
  | TimingPrecharge
  | TimingActivate
  | TimingRead
  | TimingWrite
  deriving DecidableEq

inductive TimingLocation
  | TimingSame
  | TimingDifferent
  deriving DecidableEq

def TimingAny : TimingLocation := .TimingSame

section Timing

open TimingCommand TimingLocation

/-- The timing matrix of `ParseConfigurationTiming`. -/
def timings (p : TimingParameters) :
    TimingCommand → TimingCommand → TimingLocation → TimingLocation → ℤ
  | TimingActivate, TimingActivate, TimingSame, TimingSame => p.time_rc
  | TimingActivate, TimingActivate, TimingSame, TimingDifferent => p.time_rrd
  | TimingPrecharge, TimingActivate, TimingSame, TimingSame => p.time_rp
  | TimingActivate, TimingRead, TimingSame, TimingSame => p.time_rcd
  -- the entries from here on with any bank are stored under the same bank
  | TimingRead, TimingRead, TimingSame, TimingSame => max p.time_burst p.time_ccd
  | TimingRead, TimingRead, TimingDifferent, TimingSame => p.time_burst + p.time_rtrs
  | TimingWrite, TimingRead, TimingSame, TimingSame => p.time_cwd + p.time_burst + p.time_wtr
  | TimingWrite, TimingRead, TimingDifferent, TimingSame =>
    p.time_cwd + p.time_burst + p.time_rtrs - p.time_cas
  | TimingActivate, TimingWrite, TimingSame, TimingSame => p.time_rcd
  | TimingRead, TimingWrite, TimingSame, TimingSame =>
    p.time_cas + p.time_burst + p.time_rtrs - p.time_cwd
  | TimingWrite, TimingWrite, TimingSame, TimingSame => max p.time_burst p.time_ccd
  | TimingWrite, TimingWrite, TimingDifferent, TimingSame => p.time_burst + p.time_ost
  | TimingActivate, TimingPrecharge, TimingSame, TimingSame => p.time_ras
  | TimingRead, TimingPrecharge, TimingSame, TimingSame =>
    p.time_burst + p.time_rtp - p.time_ccd
  | TimingWrite, TimingPrecharge, TimingSame, TimingSame =>
    p.time_cwd + p.time_burst + p.time_wr
  | _, _, _, _ => 0

def getTiming (p : TimingParameters) (prev next : TimingCommand)
    (rank bank : TimingLocation) : ℤ := max (timings p prev next rank bank) 1

end Timing

/-- The two scheduling policies, the second with its position. -/
inductive Scheduler
  | OldestFirst
  | RankBankRoundRobin (current_rank current_bank : ℕ)

structure Channel where
  num_ranks : ℕ
  num_banks : ℕ
  banks : ℕ → ℕ → Bank
  /-- `last_scheduled_commands` of the ranks -/
  rankLast : ℕ → CommandType → ℤ
  scheduler : Scheduler
  next_scheduled_bank : Option (ℕ × ℕ)
  /-- the cycle of the scheduler event in flight -/
  scheduled : Option ℤ

namespace Channel

def new (num_ranks num_banks : ℕ) (scheduler : Scheduler) : Channel where
  num_ranks := num_ranks
  num_banks := num_banks
  banks _ _ := Bank.new
  rankLast _ _ := -100
  scheduler := scheduler
  next_scheduled_bank := none
  scheduled := none

def CallScheduler (cycle after : ℤ) (ch : Channel) : Channel :=
  if ch.scheduled.isSome then ch else { ch with scheduled := some (cycle + after) }

def setBank (rank bank : ℕ) (b : Bank) (ch : Channel) : Channel :=
  { ch with banks := fun r k => if r = rank ∧ k = bank then b else ch.banks r k }

def older (ch : Channel) (oldest : ℤ × Option (ℕ × ℕ)) (i : ℕ) : ℤ × Option (ℕ × ℕ) :=
  match (ch.banks (i / ch.num_banks) (i % ch.num_banks)).command_queue with
  | [] => oldest
  | command :: _ =>
    if command.cycle_created < oldest.1 then
      (command.cycle_created, some (i / ch.num_banks, i % ch.num_banks))
    else oldest

def oldestFirst (ch : Channel) : Option (ℕ × ℕ) :=
  ((List.range (ch.num_banks * ch.num_ranks)).foldl ch.older (2 ^ 63 - 1, none)).2

def nextPosition (ch : Channel) (current : ℕ × ℕ) : ℕ × ℕ :=
  let current := (current.1, current.2 + 1)
  let current := if current.2 = ch.num_banks then (current.1 + 1, 0) else current
  if current.1 = ch.num_ranks then (0, current.2) else current

def roundRobin (ch : Channel) : ℕ → ℕ × ℕ → (ℕ × ℕ) × Option (ℕ × ℕ)
  | 0, current => (current, none)
  | n + 1, current =>
    let current := ch.nextPosition current
    if (ch.banks current.1 current.2).command_queue.isEmpty then ch.roundRobin n current
    else (current, some current)

def FindNext (ch : Channel) : Scheduler × Option (ℕ × ℕ) :=
  match ch.scheduler with
  | .OldestFirst => (.OldestFirst, ch.oldestFirst)
  | .RankBankRoundRobin r b =>
    let (current, found) := ch.roundRobin (ch.num_banks * ch.num_ranks) (r, b)
    (.RankBankRoundRobin current.1 current.2, found)

section Ready

open TimingCommand TimingLocation CommandType

variable (p : TimingParameters) (ch : Channel)

/-- The cycles that `CalculateReadyCycle` takes the maximum with at one rank and bank, for a
command of a type in `cmd_rank` and `cmd_bank`. -/
def constraints (type : CommandType) (cmd_rank cmd_bank rank bank : ℕ) : List ℤ :=
  let bankLast := (ch.banks rank bank).last_scheduled_commands
  let rankLast := ch.rankLast rank
  match type with
  | CommandPrecharge =>
    if rank = cmd_rank ∧ bank = cmd_bank then
      [bankLast CommandActivate + getTiming p TimingActivate TimingPrecharge TimingSame TimingSame,
        bankLast CommandRead + getTiming p TimingRead TimingPrecharge TimingSame TimingSame,
        bankLast CommandWrite + getTiming p TimingWrite TimingPrecharge TimingSame TimingSame]
    else []
  | CommandActivate =>
    if rank = cmd_rank ∧ bank = cmd_bank then
      [bankLast CommandActivate + getTiming p TimingActivate TimingActivate TimingSame TimingSame,
        bankLast CommandPrecharge +
          getTiming p TimingPrecharge TimingActivate TimingSame TimingSame]
    else if rank = cmd_rank ∧ bank ≠ cmd_bank then
      [bankLast CommandActivate +
        getTiming p TimingActivate TimingActivate TimingSame TimingDifferent]
    else []
  | CommandRead =>
    (if rank = cmd_rank ∧ bank = cmd_bank then
      [bankLast CommandActivate + getTiming p TimingActivate TimingRead TimingSame TimingSame]
    else []) ++
    if rank = cmd_rank then
      [rankLast CommandRead + getTiming p TimingRead TimingRead TimingSame TimingAny,
        rankLast CommandWrite + getTiming p TimingWrite TimingRead TimingSame TimingAny]
    else
      -- both statements look up the read entry
      [rankLast CommandRead + getTiming p TimingRead TimingRead TimingDifferent TimingAny,
        rankLast CommandWrite + getTiming p TimingRead TimingRead TimingDifferent TimingAny]
  | CommandWrite =>
    (if rank = cmd_rank ∧ bank = cmd_bank then
      [rankLast CommandActivate + getTiming p TimingActivate TimingWrite TimingSame TimingSame]
    else []) ++
    (if rank = cmd_rank then
      [rankLast CommandWrite + getTiming p TimingWrite TimingWrite TimingSame TimingAny]
    else
      [rankLast CommandWrite + getTiming p TimingWrite TimingWrite TimingDifferent TimingAny]) ++
    [rankLast CommandRead + getTiming p TimingRead TimingWrite TimingAny TimingAny]
  | CommandInvalid => []

/-- `CalculateReadyCycle`: the maximum over all ranks and banks; an invalid command is a
panic. -/
def CalculateReadyCycle (cycle : ℤ) (type : CommandType) (cmd_rank cmd_bank : ℕ) : Option ℤ :=
  if type = CommandInvalid then none
  else some <| (List.range ch.num_ranks).foldl (fun ready rank =>
    (List.range ch.num_banks).foldl (fun ready bank =>
      (ch.constraints p type cmd_rank cmd_bank rank bank).foldl max ready) ready) cycle

end Ready

structure Issue where
  cycle : ℤ
  type : CommandType
  rank : ℕ
  bank : ℕ
  deriving DecidableEq, Repr

def RunFrontCommand (cycle : ℤ) (rank bank : ℕ) (ch : Channel) : Option (Issue × Channel) := do
  let (command, b) ← (ch.banks rank bank).RunFrontCommand cycle
  let ch := { ch.setBank rank bank b with
    rankLast := Function.update ch.rankLast rank
      (Function.update (ch.rankLast rank) command.type cycle) }
  return ({ cycle, type := command.type, rank, bank }, ch)

/-- `RunScheduler` with a bank selected: its front command runs, or is put off. -/
def runBank (p : TimingParameters) (cycle : ℤ) (rank bank : ℕ) (ch : Channel) :
    Option (List Issue × Channel) := do
  let command ← (ch.banks rank bank).command_queue.head?
  let ready ← ch.CalculateReadyCycle p cycle command.type rank bank
  if ready ≤ cycle then
    let (issue, ch) ← ch.RunFrontCommand cycle rank bank
    return ([issue], { ch with next_scheduled_bank := none }.CallScheduler cycle 1)
  else
    return ([], { ch with next_scheduled_bank := some (rank, bank) }.CallScheduler cycle
      (ready - cycle))

/-- `RunScheduler`: the bank put off before, or the next one of the policy. -/
def RunScheduler (p : TimingParameters) (cycle : ℤ) (ch : Channel) :
    Option (List Issue × Channel) :=
  match ch.next_scheduled_bank with
  | some (rank, bank) => ch.runBank p cycle rank bank
  | none =>
    let (scheduler, found) := ch.FindNext
    let ch := { ch with scheduler := scheduler }
    match found with
    | some (rank, bank) => ch.runBank p cycle rank bank
    | none => some ([], ch)

/-- `Bank::ProcessRequest` in a channel; the bank must exist. -/
def ProcessRequest (policy : PagePolicy) (cycle : ℤ) (rank bank : ℕ) (request : Request)
    (ch : Channel) : Option Channel := do
  if rank < ch.num_ranks ∧ bank < ch.num_banks then
    let b ← (ch.banks rank bank).ProcessRequest policy cycle request
    return (ch.setBank rank bank b).CallScheduler cycle 1
  else none

end Channel

/-- What happens to a channel: the cycle advances when no scheduler event is due, a request
arrives, or the scheduler event of the cycle is handled, no longer in flight. -/
inductive ChannelOp
  | advance
  | process (rank bank : ℕ) (request : Request)
  | schedule

structure ChannelRun where
  cycle : ℤ
  channel : Channel
  issued : List Channel.Issue

def ChannelOp.perform (p : TimingParameters) (policy : PagePolicy) :
    ChannelOp → ChannelRun → Option ChannelRun
  | .advance, s =>
    if s.channel.scheduled = some s.cycle then none else some { s with cycle := s.cycle + 1 }
  | .process rank bank request, s => do
    let channel ← s.channel.ProcessRequest policy s.cycle rank bank request
    return { s with channel }
  | .schedule, s =>
    if s.channel.scheduled = some s.cycle then do
      let (issues, channel) ← { s.channel with scheduled := none }.RunScheduler p s.cycle
      return { s with
        channel := channel
        issued := s.issued ++ issues }
    else none

end OISA.Dram
