import OISA.Dram.Channel
import OISA.Lib.Runs

/-!
# DRAM timing

A channel remembers for each bank and rank the last cycle of each command type, which bounds the
cycles of all its earlier commands of that type.
-/

namespace OISA.Dram

open OISA.Lib Channel TimingCommand TimingLocation CommandType

lemma le_foldl {α : Type} {f : ℤ → α → ℤ} (hinc : ∀ a i, a ≤ f a i) {x : ℤ} {i : α} {l : List α}
    (hi : i ∈ l) (hx : ∀ a, x ≤ f a i) (a : ℤ) : x ≤ l.foldl f a := by
  have hkeep : ∀ (l : List α) (a : ℤ), a ≤ l.foldl f a := by
    intro l
    induction l with
    | nil => exact fun a => le_refl a
    | cons j l ih => exact fun a => (hinc a j).trans (ih _)
  induction l generalizing a with
  | nil => exact absurd hi List.not_mem_nil
  | cons j l ih =>
    rcases List.mem_cons.mp hi with rfl | hi
    · exact (hx a).trans (hkeep l _)
    · exact ih hi _

lemma le_foldl_max (l : List ℤ) (a : ℤ) : a ≤ l.foldl max a := by
  induction l generalizing a with
  | nil => exact le_refl a
  | cons x l ih => exact (le_max_left a x).trans (ih _)

variable (p : TimingParameters)

lemma le_CalculateReadyCycle {ch : Channel} {cycle ready x : ℤ} {type : CommandType}
    {cmd_rank cmd_bank rank bank : ℕ} (hrank : rank < ch.num_ranks) (hbank : bank < ch.num_banks)
    (hx : x ∈ ch.constraints p type cmd_rank cmd_bank rank bank)
    (h : ch.CalculateReadyCycle p cycle type cmd_rank cmd_bank = some ready) : x ≤ ready := by
  unfold CalculateReadyCycle at h
  by_cases htype : type = CommandInvalid
  · rw [if_pos htype] at h
    exact absurd h nofun
  · rw [if_neg htype, Option.some.injEq] at h
    have hinner : ∀ r (l : List ℕ) (a : ℤ), a ≤ l.foldl (fun ready bank =>
        (ch.constraints p type cmd_rank cmd_bank r bank).foldl max ready) a := by
      intro r l
      induction l with
      | nil => exact fun a => le_refl a
      | cons k l ih => exact fun a => (le_foldl_max _ a).trans (ih _)
    rw [← h]
    refine le_foldl (fun a r => hinner r _ a) (List.mem_range.mpr hrank) (fun a => ?_) cycle
    refine le_foldl (fun a k => le_foldl_max _ a) (List.mem_range.mpr hbank) (fun a => ?_) a
    exact le_foldl (fun a y => le_max_left a y) hx (fun a => le_max_right a x) a

/-- The minimum separation of two commands in the timing matrix, as its entries are described:
for the same bank, another bank of the rank, the same rank, another rank, or any place. -/
def separation (prev next : Issue) : Option ℤ :=
  let sameBank := prev.rank = next.rank ∧ prev.bank = next.bank
  match prev.type, next.type with
  | CommandActivate, CommandActivate =>
    if sameBank then some (getTiming p TimingActivate TimingActivate TimingSame TimingSame)
    else if prev.rank = next.rank then
      some (getTiming p TimingActivate TimingActivate TimingSame TimingDifferent)
    else none
  | CommandPrecharge, CommandActivate =>
    if sameBank then some (getTiming p TimingPrecharge TimingActivate TimingSame TimingSame)
    else none
  | CommandActivate, CommandRead =>
    if sameBank then some (getTiming p TimingActivate TimingRead TimingSame TimingSame) else none
  | CommandRead, CommandRead =>
    if prev.rank = next.rank then some (getTiming p TimingRead TimingRead TimingSame TimingAny)
    else some (getTiming p TimingRead TimingRead TimingDifferent TimingAny)
  | CommandWrite, CommandRead =>
    if prev.rank = next.rank then some (getTiming p TimingWrite TimingRead TimingSame TimingAny)
    else some (getTiming p TimingWrite TimingRead TimingDifferent TimingAny)
  | CommandActivate, CommandWrite =>
    if sameBank then some (getTiming p TimingActivate TimingWrite TimingSame TimingSame)
    else none
  | CommandRead, CommandWrite => some (getTiming p TimingRead TimingWrite TimingAny TimingAny)
  | CommandWrite, CommandWrite =>
    if prev.rank = next.rank then some (getTiming p TimingWrite TimingWrite TimingSame TimingAny)
    else some (getTiming p TimingWrite TimingWrite TimingDifferent TimingAny)
  | CommandActivate, CommandPrecharge =>
    if sameBank then some (getTiming p TimingActivate TimingPrecharge TimingSame TimingSame)
    else none
  | CommandRead, CommandPrecharge =>
    if sameBank then some (getTiming p TimingRead TimingPrecharge TimingSame TimingSame)
    else none
  | CommandWrite, CommandPrecharge =>
    if sameBank then some (getTiming p TimingWrite TimingPrecharge TimingSame TimingSame)
    else none
  | _, _ => none

/-- The matrix entry that is not looked up, for a read after a write of another rank, is at
most the one looked up in its place, or there is one rank only. -/
def WriteReadFits (num_ranks : ℕ) : Prop :=
  num_ranks = 1 ∨ getTiming p TimingWrite TimingRead TimingDifferent TimingAny ≤
    getTiming p TimingRead TimingRead TimingDifferent TimingAny

/-- Two commands at different cycles, with their separation. -/
def Apart (prev next : Issue) : Prop :=
  prev.cycle < next.cycle ∧ ∀ T ∈ separation p prev next, prev.cycle + T ≤ next.cycle

instance (prev next : Issue) : Decidable (Apart p prev next) :=
  inferInstanceAs (Decidable (_ ∧ ∀ T ∈ separation p prev next, prev.cycle + T ≤ next.cycle))

/-- `CalculateReadyCycle` looks up every separation of the matrix, at the place of the earlier
command: a read after a write of another rank as far as its entry fits. -/
lemma separation_looked_up {ch : Channel} (hfits : WriteReadFits p ch.num_ranks) {prev next : Issue}
    (hprev : prev.rank < ch.num_ranks) (hnext : next.rank < ch.num_ranks)
    (hbank : prev.cycle ≤ (ch.banks prev.rank prev.bank).last_scheduled_commands prev.type)
    (hrank : prev.cycle ≤ ch.rankLast prev.rank prev.type) {T : ℤ}
    (hT : separation p prev next = some T) :
    ∃ x ∈ ch.constraints p next.type next.rank next.bank prev.rank prev.bank,
      prev.cycle + T ≤ x := by
  obtain ⟨c, type, r, k⟩ := prev
  obtain ⟨c', type', r', k'⟩ := next
  dsimp only at hprev hnext hbank hrank ⊢
  -- one case for each pair of types in the matrix, with its places
  cases type <;> cases type' <;> simp only [separation, reduceCtorEq] at hT
  case CommandPrecharge.CommandActivate =>
    split_ifs at hT with hsame
    obtain rfl := Option.some.inj hT
    refine ⟨_, ?_, add_le_add_left hbank _⟩
    simp [constraints, hsame]
  case CommandActivate.CommandActivate =>
    split_ifs at hT with hsame hsameRank
    · obtain rfl := Option.some.inj hT
      refine ⟨_, ?_, add_le_add_left hbank _⟩
      simp [constraints, hsame]
    · obtain rfl := Option.some.inj hT
      have hother : k ≠ k' := fun hk => hsame ⟨hsameRank, hk⟩
      refine ⟨_, ?_, add_le_add_left hbank _⟩
      simp [constraints, hsameRank, hother]
  case CommandActivate.CommandPrecharge =>
    split_ifs at hT with hsame
    obtain rfl := Option.some.inj hT
    refine ⟨_, ?_, add_le_add_left hbank _⟩
    simp [constraints, hsame]
  case CommandRead.CommandPrecharge =>
    split_ifs at hT with hsame
    obtain rfl := Option.some.inj hT
    refine ⟨_, ?_, add_le_add_left hbank _⟩
    simp [constraints, hsame]
  case CommandWrite.CommandPrecharge =>
    split_ifs at hT with hsame
    obtain rfl := Option.some.inj hT
    refine ⟨_, ?_, add_le_add_left hbank _⟩
    simp [constraints, hsame]
  case CommandActivate.CommandRead =>
    split_ifs at hT with hsame
    obtain rfl := Option.some.inj hT
    refine ⟨_, ?_, add_le_add_left hbank _⟩
    simp [constraints, hsame]
  case CommandActivate.CommandWrite =>
    split_ifs at hT with hsame
    obtain rfl := Option.some.inj hT
    refine ⟨_, ?_, add_le_add_left hrank _⟩
    simp [constraints, hsame]
  case CommandRead.CommandRead =>
    split_ifs at hT with hsame
    · obtain rfl := Option.some.inj hT
      refine ⟨_, ?_, add_le_add_left hrank _⟩
      simp [constraints, hsame]
    · obtain rfl := Option.some.inj hT
      refine ⟨_, ?_, add_le_add_left hrank _⟩
      simp [constraints, hsame]
  case CommandWrite.CommandWrite =>
    split_ifs at hT with hsame
    · obtain rfl := Option.some.inj hT
      refine ⟨_, ?_, add_le_add_left hrank _⟩
      simp [constraints, hsame]
    · obtain rfl := Option.some.inj hT
      refine ⟨_, ?_, add_le_add_left hrank _⟩
      simp [constraints, hsame]
  case CommandRead.CommandWrite =>
    obtain rfl := Option.some.inj hT
    refine ⟨_, ?_, add_le_add_left hrank _⟩
    simp [constraints]
  case CommandWrite.CommandRead =>
    split_ifs at hT with hsame
    · obtain rfl := Option.some.inj hT
      refine ⟨_, ?_, add_le_add_left hrank _⟩
      simp [constraints, hsame]
    · obtain rfl := Option.some.inj hT
      -- another rank, so the entry looked up in place of the right one is enough
      have hle : getTiming p TimingWrite TimingRead TimingDifferent TimingAny ≤
          getTiming p TimingRead TimingRead TimingDifferent TimingAny := by
        rcases hfits with hone | hle
        · omega
        · exact hle
      refine ⟨_, ?_, add_le_add hrank hle⟩
      simp [constraints, hsame]

def Channel.Has (ch : Channel) (place : ℕ × ℕ) : Prop :=
  place.1 < ch.num_ranks ∧ place.2 < ch.num_banks

/-- The position of the round robin is a bank. -/
def Channel.Positioned (ch : Channel) : Scheduler → Prop
  | .OldestFirst => True
  | .RankBankRoundRobin r b => ch.Has (r, b)

lemma older_has {ch : Channel} (hbanks : 0 < ch.num_banks) {oldest : ℤ × Option (ℕ × ℕ)} {i : ℕ}
    (hi : i < ch.num_banks * ch.num_ranks) (h : ∀ place, oldest.2 = some place → ch.Has place)
    (place : ℕ × ℕ) (hplace : (ch.older oldest i).2 = some place) : ch.Has place := by
  unfold older at hplace
  cases hqueue : (ch.banks (i / ch.num_banks) (i % ch.num_banks)).command_queue with
  | nil =>
    rw [hqueue] at hplace
    exact h place hplace
  | cons command rest =>
    rw [hqueue] at hplace
    dsimp only at hplace
    split_ifs at hplace with hlt
    · obtain rfl := Option.some.inj hplace
      exact ⟨Nat.div_lt_of_lt_mul hi, Nat.mod_lt _ hbanks⟩
    · exact h place hplace

lemma oldestFirst_has {ch : Channel} (hbanks : 0 < ch.num_banks) {place : ℕ × ℕ}
    (h : ch.oldestFirst = some place) : ch.Has place := by
  -- what the fold has found so far is a bank
  have hkeep : ∀ (l : List ℕ), (∀ i ∈ l, i < ch.num_banks * ch.num_ranks) →
      ∀ oldest : ℤ × Option (ℕ × ℕ), (∀ place, oldest.2 = some place → ch.Has place) →
      ∀ place, (l.foldl ch.older oldest).2 = some place → ch.Has place := by
    intro l
    induction l with
    | nil => exact fun _ oldest hold place hplace => hold place hplace
    | cons i l ih =>
      intro hmem oldest hold
      exact ih (fun j hj => hmem j (List.mem_cons_of_mem i hj)) _
        (older_has hbanks (hmem i List.mem_cons_self) hold)
  exact hkeep _ (fun i hi => List.mem_range.mp hi) _ (fun _ hnone => by cases hnone) place h

lemma nextPosition_has {ch : Channel} {current : ℕ × ℕ} (h : ch.Has current) :
    ch.Has (ch.nextPosition current) := by
  obtain ⟨hrank, hbank⟩ := h
  unfold nextPosition Channel.Has
  dsimp only
  split_ifs <;> dsimp only at * <;> omega

lemma roundRobin_has {ch : Channel} (n : ℕ) {current : ℕ × ℕ} (h : ch.Has current) :
    ch.Has (ch.roundRobin n current).1 ∧
      ∀ place, (ch.roundRobin n current).2 = some place → ch.Has place := by
  induction n generalizing current with
  | zero => exact ⟨h, fun _ hnone => absurd hnone nofun⟩
  | succ n ih =>
    have hnext := nextPosition_has h
    rw [roundRobin]
    split_ifs with hempty
    · exact ih hnext
    · refine ⟨hnext, fun place hplace => ?_⟩
      obtain rfl := Option.some.inj hplace
      exact hnext

lemma FindNext_has {ch : Channel} (hbanks : 0 < ch.num_banks)
    (hposition : ch.Positioned ch.scheduler) :
    ch.Positioned ch.FindNext.1 ∧ ∀ place, ch.FindNext.2 = some place → ch.Has place := by
  unfold FindNext
  cases hscheduler : ch.scheduler with
  | OldestFirst => exact ⟨trivial, fun place hplace => oldestFirst_has hbanks hplace⟩
  | RankBankRoundRobin r b =>
    rw [hscheduler] at hposition
    exact roundRobin_has _ hposition

structure Channel.Seen (ch : Channel) (i : Issue) : Prop where
  has : ch.Has (i.rank, i.bank)
  bank : i.cycle ≤ (ch.banks i.rank i.bank).last_scheduled_commands i.type
  rank : i.cycle ≤ ch.rankLast i.rank i.type

structure Timed (num_ranks num_banks : ℕ) (s : ChannelRun) : Prop where
  ranks : s.channel.num_ranks = num_ranks
  banks : s.channel.num_banks = num_banks
  past : ∀ i ∈ s.issued, i.cycle ≤ s.cycle
  /-- a command of the current cycle leaves the scheduler in flight for a later one -/
  busy : ∀ i ∈ s.issued, i.cycle = s.cycle → ∃ t, s.channel.scheduled = some t ∧ s.cycle < t
  seen : ∀ i ∈ s.issued, s.channel.Seen i
  selected : ∀ place, s.channel.next_scheduled_bank = some place → s.channel.Has place
  positioned : s.channel.Positioned s.channel.scheduler
  apart : s.issued.Pairwise (Apart p)

lemma scheduled_CallScheduler {cycle after t : ℤ} (ch : Channel)
    (h : ch.scheduled = some t) : ch.CallScheduler cycle after = ch := by
  unfold CallScheduler
  rw [h]
  rfl

lemma CallScheduler_of_none (cycle after : ℤ) (ch : Channel) (h : ch.scheduled = none) :
    ch.CallScheduler cycle after = { ch with scheduled := some (cycle + after) } := by
  unfold CallScheduler
  rw [h]
  rfl

lemma CallScheduler_eq (cycle after : ℤ) (ch : Channel) :
    ∃ scheduled, ch.CallScheduler cycle after = { ch with scheduled := scheduled } := by
  unfold CallScheduler
  by_cases h : ch.scheduled.isSome
  · exact ⟨ch.scheduled, by rw [if_pos h]⟩
  · exact ⟨some (cycle + after), by rw [if_neg h]⟩

variable {p}

lemma Channel.Seen.congr {ch ch' : Channel} {i : Issue} (h : ch.Seen i)
    (hranks : ch'.num_ranks = ch.num_ranks) (hbanks : ch'.num_banks = ch.num_banks)
    (hbank : (ch.banks i.rank i.bank).last_scheduled_commands i.type ≤
      (ch'.banks i.rank i.bank).last_scheduled_commands i.type)
    (hrank : ch.rankLast i.rank i.type ≤ ch'.rankLast i.rank i.type) : ch'.Seen i where
  has := ⟨hranks ▸ h.has.1, hbanks ▸ h.has.2⟩
  bank := h.bank.trans hbank
  rank := h.rank.trans hrank

lemma ProcessRequest_last {policy : PagePolicy} {cycle : ℤ} {request : Request} {b b' : Bank}
    (h : b.ProcessRequest policy cycle request = some b') :
    b'.last_scheduled_commands = b.last_scheduled_commands := by
  have hopen : (b.openRow cycle request).last_scheduled_commands = b.last_scheduled_commands := by
    unfold Bank.openRow
    split_ifs <;> rfl
  unfold Bank.ProcessRequest at h
  dsimp only at h
  split_ifs at h with hrow
  simp only [Option.bind_eq_bind, Option.bind_eq_some_iff] at h
  obtain ⟨type, _, h⟩ := h
  cases policy with
  | PagePolicyOpen =>
    obtain rfl := Option.some.inj h
    exact hopen
  | PagePolicyClosed =>
    obtain rfl := Option.some.inj h
    exact hopen

lemma Timed.process {num_ranks num_banks : ℕ} {policy : PagePolicy} {s s' : ChannelRun}
    (h : Timed p num_ranks num_banks s) {rank bank : ℕ} {request : Request}
    (hrun : ChannelOp.perform p policy (.process rank bank request) s = some s') :
    Timed p num_ranks num_banks s' := by
  simp only [ChannelOp.perform, ProcessRequest, Option.bind_eq_bind,
    Option.bind_eq_some_iff] at hrun
  obtain ⟨channel, hprocess, hs'⟩ := hrun
  obtain rfl := Option.some.inj hs'
  split_ifs at hprocess with hin
  obtain ⟨b, hb, hchannel⟩ := Option.bind_eq_some_iff.mp hprocess
  obtain rfl := Option.some.inj hchannel
  obtain ⟨scheduled, heq⟩ := CallScheduler_eq s.cycle 1 (s.channel.setBank rank bank b)
  have hlast : ∀ i : Issue, (s.channel.banks i.rank i.bank).last_scheduled_commands =
      ((s.channel.setBank rank bank b).banks i.rank i.bank).last_scheduled_commands := by
    intro i
    unfold setBank
    dsimp only
    split_ifs with hplace
    · rw [hplace.1, hplace.2, ProcessRequest_last hb]
    · rfl
  exact {
    ranks := by rw [heq]; exact h.ranks
    banks := by rw [heq]; exact h.banks
    past := h.past
    busy := fun i hi hcycle => by
      obtain ⟨t, ht, hlt⟩ := h.busy i hi hcycle
      rw [scheduled_CallScheduler (s.channel.setBank rank bank b) ht]
      exact ⟨t, ht, hlt⟩
    seen := fun i hi => by
      rw [heq]
      refine (h.seen i hi).congr rfl rfl (le_of_eq ?_) le_rfl
      exact congrFun (hlast i) i.type
    selected := fun place hplace => by
      rw [heq] at hplace ⊢
      exact h.selected place hplace
    positioned := by
      rw [heq]
      exact h.positioned
    apart := h.apart }

lemma Timed.advance {num_ranks num_banks : ℕ} {policy : PagePolicy} {s s' : ChannelRun}
    (h : Timed p num_ranks num_banks s)
    (hrun : ChannelOp.perform p policy .advance s = some s') : Timed p num_ranks num_banks s' := by
  simp only [ChannelOp.perform] at hrun
  split_ifs at hrun with hdue
  obtain rfl := Option.some.inj hrun
  exact {
    ranks := h.ranks
    banks := h.banks
    past := fun i hi => by
      have hle := h.past i hi
      dsimp only
      omega
    busy := fun i hi hcycle => by
      have hle := h.past i hi
      dsimp only at hcycle
      omega
    seen := h.seen
    selected := h.selected
    positioned := h.positioned
    apart := h.apart }

/-- What `RunScheduler` meets: no event in flight, and no command yet in this cycle. -/
structure Idle (p : TimingParameters) (num_ranks num_banks : ℕ) (cycle : ℤ) (issued : List Issue)
    (ch : Channel) : Prop where
  ranks : ch.num_ranks = num_ranks
  banks : ch.num_banks = num_banks
  past : ∀ i ∈ issued, i.cycle < cycle
  free : ch.scheduled = none
  seen : ∀ i ∈ issued, ch.Seen i
  positioned : ch.Positioned ch.scheduler
  apart : issued.Pairwise (Apart p)

/-- The channel after the front command of a bank ran. -/
def Channel.ran (ch : Channel) (cycle : ℤ) (rank bank : ℕ) (type : CommandType)
    (rest : List Command) : Channel :=
  { ch.setBank rank bank
      { (ch.banks rank bank).setLastScheduledCommand type cycle with command_queue := rest } with
    rankLast := Function.update ch.rankLast rank
      (Function.update (ch.rankLast rank) type cycle) }

lemma RunFrontCommand_eq {ch : Channel} {cycle : ℤ} {rank bank : ℕ} {command : Command}
    {rest : List Command} (h : (ch.banks rank bank).command_queue = command :: rest) :
    ch.RunFrontCommand cycle rank bank =
      some (⟨cycle, command.type, rank, bank⟩, ch.ran cycle rank bank command.type rest) := by
  unfold Channel.RunFrontCommand Bank.RunFrontCommand
  rw [h]
  rfl

lemma seen_ran_self {ch : Channel} {cycle : ℤ} {rank bank : ℕ} {type : CommandType}
    {rest : List Command} (hplace : ch.Has (rank, bank)) :
    (ch.ran cycle rank bank type rest).Seen ⟨cycle, type, rank, bank⟩ where
  has := hplace
  bank := by
    simp [Channel.ran, setBank, Bank.setLastScheduledCommand]
  rank := by
    simp [Channel.ran]

lemma seen_ran {ch : Channel} {cycle : ℤ} {rank bank : ℕ} {type : CommandType}
    {rest : List Command} {i : Issue} (h : ch.Seen i) (hi : i.cycle ≤ cycle) :
    (ch.ran cycle rank bank type rest).Seen i where
  has := h.has
  bank := by
    have hbank := h.bank
    simp only [Channel.ran, setBank, Bank.setLastScheduledCommand]
    split_ifs with hplace
    · obtain ⟨rfl, rfl⟩ := hplace
      dsimp only
      by_cases htype : i.type = type
      · rw [← htype, Function.update_self]
        exact hi
      · rw [Function.update_of_ne htype]
        exact hbank
    · exact hbank
  rank := by
    have hrank := h.rank
    simp only [Channel.ran]
    by_cases hr : i.rank = rank
    · rw [← hr, Function.update_self]
      by_cases htype : i.type = type
      · rw [← htype, Function.update_self]
        exact hi
      · rw [Function.update_of_ne htype]
        exact hrank
    · rw [Function.update_of_ne hr]
      exact hrank

/-- The bank that the scheduler selected runs its command, apart from all earlier ones, or is
put off. -/
lemma Idle.runBank {num_ranks num_banks : ℕ} {cycle : ℤ} {issued issues : List Issue}
    {ch ch' : Channel} (h : Idle p num_ranks num_banks cycle issued ch)
    (hfits : WriteReadFits p num_ranks) {rank bank : ℕ} (hplace : ch.Has (rank, bank))
    (hrun : ch.runBank p cycle rank bank = some (issues, ch')) :
    Timed p num_ranks num_banks ⟨cycle, ch', issued ++ issues⟩ := by
  simp only [Channel.runBank, Option.bind_eq_bind, Option.bind_eq_some_iff] at hrun
  obtain ⟨command, hhead, ready, hready, hrun⟩ := hrun
  obtain ⟨rest, hqueue⟩ := List.head?_eq_some_iff.mp hhead
  split_ifs at hrun with hnow
  · rw [RunFrontCommand_eq hqueue] at hrun
    obtain ⟨rfl, rfl⟩ := Prod.mk.inj (Option.some.inj hrun)
    have hcall := CallScheduler_of_none cycle 1
      { ch.ran cycle rank bank command.type rest with next_scheduled_bank := none } h.free
    have hapart : ∀ i ∈ issued, Apart p i ⟨cycle, command.type, rank, bank⟩ := by
      intro i hi
      refine ⟨h.past i hi, fun T hT => ?_⟩
      have hseen := h.seen i hi
      obtain ⟨x, hx, hle⟩ := separation_looked_up p (h.ranks ▸ hfits) hseen.has.1 hplace.1
        hseen.bank hseen.rank hT
      have hxready := le_CalculateReadyCycle p hseen.has.1 hseen.has.2 hx hready
      exact hle.trans (hxready.trans hnow)
    rw [hcall]
    exact {
      ranks := h.ranks
      banks := h.banks
      past := fun i hi => by
        rcases List.mem_append.mp hi with hi | hi
        · exact (h.past i hi).le
        · rw [List.mem_singleton.mp hi]
      busy := fun _ _ _ => ⟨cycle + 1, rfl, by dsimp only; omega⟩
      seen := fun i hi => by
        rcases List.mem_append.mp hi with hi | hi
        · exact (seen_ran (h.seen i hi) (h.past i hi).le).congr rfl rfl le_rfl le_rfl
        · rw [List.mem_singleton.mp hi]
          exact (seen_ran_self hplace).congr rfl rfl le_rfl le_rfl
      selected := fun place hnone => by cases hnone
      positioned := h.positioned
      apart := by
        rw [List.pairwise_append]
        refine ⟨h.apart, List.pairwise_singleton _ _, fun i hi j hj => ?_⟩
        rw [List.mem_singleton.mp hj]
        exact hapart i hi }
  · obtain ⟨rfl, rfl⟩ := Prod.mk.inj (Option.some.inj hrun)
    have hcall := CallScheduler_of_none cycle (ready - cycle)
      { ch with next_scheduled_bank := some (rank, bank) } h.free
    rw [hcall, List.append_nil]
    exact {
      ranks := h.ranks
      banks := h.banks
      past := fun i hi => (h.past i hi).le
      busy := fun i hi hcycle => by
        have hlt := h.past i hi
        dsimp only at hcycle
        omega
      seen := fun i hi => (h.seen i hi).congr rfl rfl le_rfl le_rfl
      selected := fun place hsome => by
        obtain rfl := Option.some.inj hsome
        exact hplace
      positioned := h.positioned
      apart := h.apart }

lemma RunScheduler_of_selected {ch : Channel} {cycle : ℤ} {place : ℕ × ℕ}
    (h : ch.next_scheduled_bank = some place) :
    ch.RunScheduler p cycle = ch.runBank p cycle place.1 place.2 := by
  unfold RunScheduler
  split
  · rename_i heq
    obtain rfl := Option.some.inj (h.symm.trans heq)
    rfl
  · rename_i heq
    exact absurd (h.symm.trans heq) nofun

lemma RunScheduler_of_none {ch : Channel} {cycle : ℤ} (h : ch.next_scheduled_bank = none) :
    ch.RunScheduler p cycle = match ch.FindNext.2 with
      | some (rank, bank) => { ch with scheduler := ch.FindNext.1 }.runBank p cycle rank bank
      | none => some ([], { ch with scheduler := ch.FindNext.1 }) := by
  unfold RunScheduler
  split
  · rename_i heq
    exact absurd (h.symm.trans heq) nofun
  · rfl

lemma Idle.RunScheduler {num_ranks num_banks : ℕ} {cycle : ℤ} {issued issues : List Issue}
    {ch ch' : Channel} (h : Idle p num_ranks num_banks cycle issued ch) (hbanks : 0 < num_banks)
    (hfits : WriteReadFits p num_ranks)
    (hselected : ∀ place, ch.next_scheduled_bank = some place → ch.Has place)
    (hrun : ch.RunScheduler p cycle = some (issues, ch')) :
    Timed p num_ranks num_banks ⟨cycle, ch', issued ++ issues⟩ := by
  cases hnext : ch.next_scheduled_bank with
  | some place =>
    rw [RunScheduler_of_selected hnext] at hrun
    exact h.runBank hfits (hselected place hnext) hrun
  | none =>
    rw [RunScheduler_of_none hnext] at hrun
    obtain ⟨hposition, hhas⟩ := FindNext_has (h.banks ▸ hbanks) h.positioned
    have hidle : Idle p num_ranks num_banks cycle issued
        { ch with scheduler := ch.FindNext.1 } := {
      ranks := h.ranks
      banks := h.banks
      past := h.past
      free := h.free
      seen := fun i hi => (h.seen i hi).congr rfl rfl le_rfl le_rfl
      positioned := hposition
      apart := h.apart }
    cases hfound : ch.FindNext.2 with
    | some place =>
      rw [hfound] at hrun
      exact hidle.runBank hfits (hhas place hfound) hrun
    | none =>
      rw [hfound] at hrun
      obtain ⟨rfl, rfl⟩ := Prod.mk.inj (Option.some.inj hrun)
      rw [List.append_nil]
      exact {
        ranks := h.ranks
        banks := h.banks
        past := fun i hi => (h.past i hi).le
        busy := fun i hi hcycle => absurd hcycle (h.past i hi).ne
        seen := hidle.seen
        selected := fun place hsome => absurd (hnext.symm.trans hsome) nofun
        positioned := hposition
        apart := h.apart }

lemma Timed.schedule {num_ranks num_banks : ℕ} {policy : PagePolicy} {s s' : ChannelRun}
    (hbanks : 0 < num_banks) (hfits : WriteReadFits p num_ranks)
    (h : Timed p num_ranks num_banks s)
    (hrun : ChannelOp.perform p policy .schedule s = some s') :
    Timed p num_ranks num_banks s' := by
  simp only [ChannelOp.perform] at hrun
  split_ifs at hrun with hdue
  simp only [Option.bind_eq_bind, Option.bind_eq_some_iff] at hrun
  obtain ⟨⟨issues, channel⟩, hscheduler, hs'⟩ := hrun
  obtain rfl := Option.some.inj hs'
  -- the event is due now, so no command ran in this cycle
  have hpast : ∀ i ∈ s.issued, i.cycle < s.cycle := by
    intro i hi
    refine lt_of_le_of_ne (h.past i hi) fun hcycle => ?_
    obtain ⟨t, ht, hlt⟩ := h.busy i hi hcycle
    rw [hdue, Option.some.injEq] at ht
    omega
  have hidle : Idle p num_ranks num_banks s.cycle s.issued
      { s.channel with scheduled := none } := {
    ranks := h.ranks
    banks := h.banks
    past := hpast
    free := rfl
    seen := fun i hi => (h.seen i hi).congr rfl rfl le_rfl le_rfl
    positioned := h.positioned
    apart := h.apart }
  exact hidle.RunScheduler hbanks hfits h.selected hscheduler

lemma timed_new {num_ranks num_banks : ℕ} {scheduler : Scheduler}
    (h : (Channel.new num_ranks num_banks scheduler).Positioned scheduler) (cycle : ℤ) :
    Timed p num_ranks num_banks ⟨cycle, Channel.new num_ranks num_banks scheduler, []⟩ where
  ranks := rfl
  banks := rfl
  past _ hi := absurd hi List.not_mem_nil
  busy _ hi := absurd hi List.not_mem_nil
  seen _ hi := absurd hi List.not_mem_nil
  selected _ hsome := by cases hsome
  positioned := h
  apart := List.Pairwise.nil

/-- The schedulers of a new channel. -/
def Scheduler.Initial : Scheduler → Prop
  | .OldestFirst => True
  | .RankBankRoundRobin r b => r = 0 ∧ b = 0

lemma positioned_initial {num_ranks num_banks : ℕ} (hranks : 0 < num_ranks)
    (hbanks : 0 < num_banks) {scheduler : Scheduler} (h : scheduler.Initial) :
    (Channel.new num_ranks num_banks scheduler).Positioned scheduler := by
  cases scheduler with
  | OldestFirst => trivial
  | RankBankRoundRobin r b =>
    obtain ⟨rfl, rfl⟩ := h
    exact ⟨hranks, hbanks⟩

/-- **DRAM timing**: if the write-to-read separation of different ranks is at most the entry looked
up in its place, the commands of a channel run at increasing cycles and keep every separation. -/
theorem timing_respected (p : TimingParameters) (policy : PagePolicy) (num_ranks num_banks : ℕ)
    (hranks : 0 < num_ranks) (hbanks : 0 < num_banks) (scheduler : Scheduler)
    (hscheduler : scheduler.Initial) (hfits : WriteReadFits p num_ranks) (ops : List ChannelOp)
    (s : ChannelRun)
    (hrun : run (ChannelOp.perform p policy) ops
      ⟨0, Channel.new num_ranks num_banks scheduler, []⟩ = some s) :
    s.issued.Pairwise (Apart p) := by
  have hstep : ∀ op s s', Timed p num_ranks num_banks s → True →
      ChannelOp.perform p policy op s = some s' → Timed p num_ranks num_banks s' := by
    intro op s s' h _ hop
    cases op with
    | advance => exact h.advance hop
    | process rank bank request => exact h.process hop
    | schedule => exact h.schedule hbanks hfits hop
  have hnew := timed_new (p := p) (positioned_initial hranks hbanks hscheduler) 0
  exact (run_invariant hstep hnew (along_of_forall (fun _ _ => trivial) ops _) hrun).apart

/-- The default timing parameters. -/
def defaultTimings : TimingParameters where
  time_rc := 49
  time_rrd := 5
  time_rp := 11
  time_ccd := 4
  time_rtrs := 1
  time_cwd := 5
  time_wtr := 6
  time_cas := 11
  time_rcd := 11
  time_ost := 1
  time_ras := 28
  time_wr := 12
  time_rtp := 6
  time_burst := 4

/-- A write to rank 0 and a read from rank 1, and the scheduler in the next cycles. -/
def writeThenRead : List ChannelOp :=
  let sizes : AddressSizes := ⟨0, 0, 1, 0, 10, 10⟩
  [.process 0 0 (Request.new sizes .RequestWrite 0),
    .process 1 0 (Request.new sizes .RequestRead (2 ^ 20)), .advance, .schedule, .advance,
    .schedule, .advance]

theorem timing_respected_default : ∃ s : ChannelRun,
    run (ChannelOp.perform defaultTimings .PagePolicyOpen) writeThenRead
      ⟨0, Channel.new 2 1 (.RankBankRoundRobin 0 0), []⟩ = some s ∧
    s.issued.Pairwise (Apart defaultTimings) := by
  have hrun := (Option.some_get (by decide +kernel : (run (ChannelOp.perform defaultTimings
    .PagePolicyOpen) writeThenRead
    ⟨0, Channel.new 2 1 (.RankBankRoundRobin 0 0), []⟩).isSome = true)).symm
  exact ⟨_, hrun, timing_respected defaultTimings .PagePolicyOpen 2 1 (by decide) (by decide)
    (.RankBankRoundRobin 0 0) ⟨rfl, rfl⟩ (.inr (by decide)) writeThenRead _ hrun⟩

/-- Timings with a column write delay longer than the column access. -/
def longWriteDelay : TimingParameters :=
  { defaultTimings with
    time_cwd := 20
    time_cas := 5
    time_rcd := 1 }

/-- With a long write delay a read of another rank runs before its separation from a write. -/
theorem read_too_early_after_write : ∃ s : ChannelRun,
    run (ChannelOp.perform longWriteDelay .PagePolicyOpen)
      (writeThenRead ++ [.schedule, .advance, .schedule, .advance, .advance, .advance, .schedule])
      ⟨0, Channel.new 2 1 .OldestFirst, []⟩ = some s ∧
    s.issued = [⟨1, .CommandActivate, 0, 0⟩, ⟨2, .CommandWrite, 0, 0⟩,
      ⟨3, .CommandActivate, 1, 0⟩, ⟨7, .CommandRead, 1, 0⟩] ∧
    separation longWriteDelay ⟨2, .CommandWrite, 0, 0⟩ ⟨7, .CommandRead, 1, 0⟩ = some 20 ∧
    ¬s.issued.Pairwise (Apart longWriteDelay) := by
  have hrun := (Option.some_get (by decide +kernel : (run (ChannelOp.perform longWriteDelay
    .PagePolicyOpen)
    (writeThenRead ++ [.schedule, .advance, .schedule, .advance, .advance, .advance, .schedule])
    ⟨0, Channel.new 2 1 .OldestFirst, []⟩).isSome = true)).symm
  exact ⟨_, hrun, by decide +kernel, by decide +kernel, by decide +kernel⟩

end OISA.Dram
