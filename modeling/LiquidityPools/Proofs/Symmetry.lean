import LiquidityPools.Proofs.Orders
import LiquidityPools.Proofs.Paired

/-!
Base and quote are alike. Orders that are turned round, given to the mirror of an exchange, fail or
answer as the mirror of what they come to on the exchange itself, and leave its mirror; payout runs
differ in the order of their markets alone.
-/

namespace LiquidityPools

variable {ρ : Type}

section Orders

def Value.flipPair : Value → Value
  | .list [base, quote] => .list [quote, base]
  | .tuple [base, quote] => .tuple [quote, base]
  | other => other

def Answer.flip : Answer → Answer
  | .pool p => .pool p.flip
  | .position p => .position p.flip
  | .quote q => .quote q.flip

def Ask.mirror : Ask → Ask
  | .create caller market base quote => .create caller market.flip quote base
  | .deposit caller market base quote => .deposit caller market.flip quote base
  | .withdraw caller market base quote => .withdraw caller market.flip quote base
  | .trade side caller market amount least => .trade side.flip caller market.flip amount least

/-- The order for the mirror: the assets and their amounts exchanged, a purchase for a sale. -/
def Order.mirror : Order → Order
  | .create caller base quote baseAmount quoteAmount =>
    .create caller quote base quoteAmount baseAmount
  | .deposit caller market baseAmount quoteAmount =>
    .deposit caller market.flipPair quoteAmount baseAmount
  | .withdraw caller market baseAmount quoteAmount =>
    .withdraw caller market.flipPair quoteAmount baseAmount
  | .trade side caller market amount least => .trade side.flip caller market.flipPair amount least

section Arguments

open Exchange

theorem marketOf_flip (base quote : Value) :
    (marketOf quote base).toOption = (marketOf base quote).toOption.map Market.flip := by
  refine Option.ext fun m => ?_
  simp only [Option.map_eq_some_iff, Except.toOption_eq_some_iff, marketOf_eq_ok_iff]
  constructor
  · rintro ⟨quoted, based, valid⟩
    exact ⟨m.flip, ⟨based, quoted, Market.valid_flip.2 valid⟩, m.flip_flip⟩
  · rintro ⟨n, ⟨based, quoted, valid⟩, rfl⟩
    exact ⟨quoted, based, Market.valid_flip.2 valid⟩

theorem marketOfPair_flip (pair : Value) :
    (marketOfPair pair.flipPair).toOption = (marketOfPair pair).toOption.map Market.flip := by
  unfold Value.flipPair
  split
  · exact marketOf_flip _ _
  · exact marketOf_flip _ _
  next notList notTuple =>
    unfold marketOfPair
    split
    · exact absurd rfl (notList _ _)
    · exact absurd rfl (notTuple _ _)
    · rfl

theorem amountOf_alike (c : Config) (name name' : String) (amount : Value) :
    (amountOf c name' amount).toOption = (amountOf c name amount).toOption.map id := by
  unfold amountOf
  split
  · split
    · rfl
    · rfl
  · rfl

variable (c : Config)

theorem Order.ask_mirror (order : Order) :
    (order.mirror.ask c).toOption = (order.ask c).toOption.map Ask.mirror := by
  cases order with
  | create caller base quote baseAmount quoteAmount =>
    refine Except.map_toOption_bind fun account => ?_
    refine Except.bind_alike (marketOf_flip base quote) fun market => ?_
    rw [Except.toOption_bind_comm]
    refine Except.bind_alike (amountOf_alike c _ _ baseAmount) fun b => ?_
    refine Except.bind_alike (amountOf_alike c _ _ quoteAmount) fun q => ?_
    simp only [id, or_comm]
    split
    · rfl
    · rfl
  | deposit caller market baseAmount quoteAmount | withdraw caller market baseAmount quoteAmount =>
    refine Except.map_toOption_bind fun account => ?_
    refine Except.bind_alike (marketOfPair_flip market) fun market => ?_
    rw [Except.toOption_bind_comm]
    refine Except.bind_alike (amountOf_alike c _ _ baseAmount) fun b => ?_
    exact Except.bind_alike (amountOf_alike c _ _ quoteAmount) fun q => rfl
  | trade side caller market amount least =>
    refine Except.map_toOption_bind fun account => ?_
    refine Except.bind_alike (marketOfPair_flip market) fun market => ?_
    refine Except.bind_alike (amountOf_alike c _ _ amount) fun n => ?_
    exact Except.map_toOption_bind fun l => rfl

end Arguments

variable (c : Config) (b : Books)

theorem Ask.verdict_mirror (ask : Ask) :
    ask.mirror.verdict c b.mirror = (ask.verdict c b).map (Prod.map Deal.mirror Answer.flip) := by
  cases ask with
  | create caller market base quote =>
    simp only [mirror, verdict, Books.opening_mirror]
    cases b.opening caller market base quote <;> rfl
  | deposit caller market base quote =>
    simp only [mirror, verdict, Books.adding_mirror]
    cases b.adding c caller market base quote <;> rfl
  | withdraw caller market base quote =>
    have same := b.store.withdrawal_mirror caller market base quote
    simp only [mirror, verdict, Books.mirror, same]
    cases (b.store.withdrawal caller market base quote).mapError Fault.kind <;> rfl
  | trade side caller market amount least =>
    simp only [mirror, verdict, Books.trading_mirror]
    cases b.trading c caller market side amount least <;> rfl

theorem Order.verdict_mirror (order : Order) :
    order.mirror.verdict c b.mirror =
      (order.verdict c b).map (Prod.map Deal.mirror Answer.flip) := by
  have asked := order.ask_mirror c
  rw [verdict, verdict]
  cases checked : order.ask c with
  | error fault =>
    rw [checked] at asked
    cases checked' : order.mirror.ask c with
    | error fault' =>
      have kind := (Order.failsOnly_ask fault checked).kind
      have kind' := (Order.failsOnly_ask fault' checked').kind
      exact congrArg Except.error (kind'.trans kind.symm)
    | ok ask' =>
      rw [checked'] at asked
      cases asked
  | ok ask =>
    rw [checked] at asked
    rw [Except.toOption_eq_some_iff.1 asked]
    exact ask.verdict_mirror c b

end Orders

section Tasks

inductive Task where
  | order (order : Order)
  | payout (most : Value)

inductive Task.Result where
  | order (outcome : Except Fault Answer) (events : List Event)
  | payout (outcome : Except Fault Payout.Report) (events : List Event)

/-- The second task ended as the mirror of the first does. Of a payout run, only the order of its
markets may be another. -/
def Task.Result.Mirrors : Result → Result → Prop
  | .order outcome events, .order outcome' events' =>
    outcome'.mapError Fault.kind = (outcome.mapError Fault.kind).map Answer.flip ∧
      events' = events.map Event.mirror
  | .payout (.ok report) events, .payout (.ok report') events' =>
    report.Mirrors report' ∧
      ∀ m, events'.filter (·.market = m.flip) = (events.filter (·.market = m)).map Event.mirror
  | .payout (.error fault) events, .payout (.error fault') events' =>
    fault'.kind = fault.kind ∧ events = [] ∧ events' = []
  | _, _ => False

namespace Task

open Exchange

def mirror : Task → Task
  | .order o => .order o.mirror
  | .payout most => .payout most

def run : Task → Exchange ρ → Result × Exchange ρ
  | .order o, x =>
    let ran := o.run x
    (.order ran.1 (x.since ran.2), ran.2)
  | .payout most, x =>
    let ran := distributeOf .direct none most x
    (.payout ran.1 (x.since ran.2), ran.2)

/-- A payout run may settle all pending markets. -/
def Full (x : Exchange ρ) : Task → Prop
  | .order _ => True
  | .payout most =>
    ∀ n, mostOf x.config most = .ok (some n) → (x.pendingMarkets none).length ≤ n

def runAll : List Task → Exchange ρ → List Result × Exchange ρ
  | [], x => ([], x)
  | task :: rest, x =>
    let (result, y) := task.run x
    let (results, z) := runAll rest y
    (result :: results, z)

def AllFull : List Task → Exchange ρ → Prop
  | [], _ => True
  | task :: rest, x => task.Full x ∧ AllFull rest (task.run x).2

variable {x y z : Exchange ρ} {most : Value} {limit : Option Nat} {report : Payout.Report}

theorem Full.whole (full : (payout most).Full x) (asked : mostOf x.config most = .ok limit) :
    batchOf (x.pendingMarkets none) limit = x.pendingMarkets none := by
  cases limit with
  | none => rfl
  | some n => exact List.take_of_length_le (full n asked)

theorem Full.mirror (full : (payout most).Full x) (paired : x.Paired z) : (payout most).Full z := by
  intro n asked
  rw [paired.config] at asked
  rw [paired.perm_pendingMarkets.length_eq, List.length_map]
  exact full n asked

theorem run_payout (asked : mostOf x.config most = .ok limit)
    (done : distribute .direct none limit x = (.ok report, y)) :
    (payout most).run x = (.payout (.ok report) (x.since y), y) := by
  have ran := (distributeOf_eq .direct none asked).trans done
  simp only [run, ran]

theorem run_mirror (paired : x.Paired z) (task : Task) (full : task.Full x) :
    (task.run x).1.Mirrors (task.mirror.run z).1 ∧ (task.run x).2.Paired (task.mirror.run z).2 := by
  cases task with
  | order o =>
    have comes := o.comes paired.solvent
    have comes' := o.mirror.comes paired.solvent'
    rw [paired.config, paired.books, Order.verdict_mirror] at comes'
    cases verdict : o.verdict x.config x.books with
    | error kind =>
      rw [verdict] at comes comes'
      obtain ⟨fault, host, failed, rfl⟩ := comes
      obtain ⟨fault', host', failed', told⟩ := comes'
      simp only [run, mirror, failed, failed']
      -- a failed order tells nothing, on either side
      have silent := ((Leads.refl paired.solvent.sound).withHost host).since
      have silent' := ((Leads.refl paired.sound).withHost host').since
      refine ⟨⟨congrArg Except.error told, ?_⟩, paired.withHost host host'⟩
      rw [silent, silent']
      rfl
    | ok dealt =>
      obtain ⟨deal, answer⟩ := dealt
      rw [verdict] at comes comes'
      obtain ⟨y, done, leads⟩ := comes
      obtain ⟨w, done', leads'⟩ := comes'
      simp only [run, mirror, done, done']
      refine ⟨⟨rfl, ?_⟩, paired.deal leads leads'⟩
      rw [leads.since, leads'.since, List.flatMap_singleton, List.flatMap_singleton]
      exact deal.events_mirror
  | payout most =>
    have full' := full.mirror paired
    cases asked : mostOf x.config most with
    | error fault =>
      have asked' : mostOf z.config most = .error fault := by rw [paired.config]; exact asked
      simp only [run, mirror, distributeOf, Action.bind_read, asked, asked']
      have silent := (Leads.refl paired.solvent.sound).since
      have silent' := (Leads.refl paired.sound).since
      exact ⟨⟨rfl, silent, silent'⟩, paired⟩
    | ok limit =>
      have asked' : mostOf z.config most = .ok limit := by rw [paired.config]; exact asked
      obtain ⟨report, y, done, paysOut⟩ := paired.solvent.paysOut paired.idle (full.whole asked)
      obtain ⟨report', w, done', paysOut'⟩ :=
        paired.solvent'.paysOut paired.idle' (full'.whole asked')
      rw [mirror, run_payout asked done, run_payout asked' done']
      exact ⟨⟨paired.report paysOut paysOut', paired.since_payout paysOut paysOut'⟩,
        paired.paidOut paysOut paysOut'⟩

theorem runAll_mirror (paired : x.Paired z) (tasks : List Task) (full : AllFull tasks x) :
    List.Forall₂ Result.Mirrors (runAll tasks x).1 (runAll (tasks.map mirror) z).1 ∧
      (runAll tasks x).2.Paired (runAll (tasks.map mirror) z).2 := by
  induction tasks generalizing x z with
  | nil => exact ⟨.nil, paired⟩
  | cons task rest ih =>
    obtain ⟨first, paired⟩ := run_mirror paired task full.1
    obtain ⟨others, last⟩ := ih paired full.2
    exact ⟨.cons first others, last⟩

theorem leads_run (solvent : x.Solvent) (task : Task) :
    ∃ deals, x.Leads deals (task.run x).2 := by
  cases task with
  | order o =>
    have comes := o.comes solvent
    cases verdict : o.verdict x.config x.books with
    | error kind =>
      rw [verdict] at comes
      obtain ⟨fault, host, failed, -⟩ := comes
      simp only [run, failed]
      exact ⟨[], (Leads.refl solvent.sound).withHost host⟩
    | ok dealt =>
      rw [verdict] at comes
      obtain ⟨y, done, leads⟩ := comes
      simp only [run, done]
      exact ⟨_, leads⟩
  | payout most =>
    simp only [run]
    rcases distributeOf_outcome Carrier.plain_direct solvent.sound none most with
      ⟨fault, refused⟩ | ⟨report, y, deals, done, leads, -⟩
    · rw [refused]
      exact ⟨[], .refl solvent.sound⟩
    · rw [done]
      exact ⟨deals, leads⟩

theorem leads_runAll (solvent : x.Solvent) (tasks : List Task) :
    ∃ deals, x.Leads deals (runAll tasks x).2 := by
  induction tasks generalizing x with
  | nil => exact ⟨[], .refl solvent.sound⟩
  | cons task rest ih =>
    obtain ⟨deals, leads⟩ := leads_run solvent task
    obtain ⟨more, onward⟩ := ih (.of_leads leads solvent)
    exact ⟨deals ++ more, leads.trans onward⟩

theorem allFull_of_unbounded (solvent : x.Solvent) (unbounded : x.config.batch = none)
    {tasks : List Task} (plain : ∀ most, payout most ∈ tasks → most = .null) : AllFull tasks x := by
  induction tasks generalizing x with
  | nil => trivial
  | cons task rest ih =>
    obtain ⟨deals, leads⟩ := leads_run solvent task
    have unbounded' : (task.run x).2.config.batch = none := by
      rw [leads.follows.config]
      exact unbounded
    refine ⟨?_, ih (.of_leads leads solvent) unbounded' fun most member =>
      plain most (List.mem_cons_of_mem _ member)⟩
    cases task with
    | order o => trivial
    | payout most =>
      obtain rfl := plain most List.mem_cons_self
      intro n asked
      rw [mostOf, unbounded] at asked
      cases asked

/-- Base and quote are alike: given the tasks the other way round, the mirror of an exchange that
pays from its own uncapped ledger answers them, or fails, as the mirror of what the exchange does,
and ends as the mirror of where the exchange ends. -/
theorem runAll_on_mirror {config : Config} (entrusted : Program.Entrusted config x)
    (tasks : List Task) (full : AllFull tasks x) :
    let ran := runAll tasks x
    let ran' := runAll (tasks.map mirror) x.mirror
    List.Forall₂ Result.Mirrors ran.1 ran'.1 ∧ ran'.2.books = ran.2.books.mirror ∧
      (x.openUnits = [] → ran'.2.store = ran.2.store.mirror ∧ ran'.2.ledger = ran.2.ledger) := by
  obtain ⟨solvent, -, idle⟩ := solvent_of_entrusted entrusted
  obtain ⟨results, paired⟩ := runAll_mirror (solvent.paired_mirror idle) tasks full
  obtain ⟨deals, leads⟩ := leads_runAll solvent tasks
  refine ⟨results, paired.books, fun top => paired.outermost ?_⟩
  rw [leads.follows.depth, depth_of_entrusted entrusted, top]
  rfl

def smallDay : List Task :=
  [.order (.create (.str "alice") (.int 0) (.int 1) (.int 10) (.int 10)),
    .order (.trade .buy (.str "alice") (.tuple [.int 0, .int 1]) (.int 10) (.int 0)), .payout .null]

theorem smallDay_on_mirror :
    List.Forall₂ Result.Mirrors (runAll smallDay narrowMorning).1
        (runAll (smallDay.map mirror) narrowMorning.mirror).1 ∧
      (runAll (smallDay.map mirror) narrowMorning.mirror).2.store.pool? ⟨1, 0⟩ =
        some ⟨15, 6, 0, 0⟩ := by
  have full : AllFull smallDay narrowMorning :=
    allFull_of_unbounded (solvent_of_entrusted entrusted_narrowMorning).1 rfl (by simp [smallDay])
  obtain ⟨results, -, outermost⟩ := runAll_on_mirror entrusted_narrowMorning smallDay full
  refine ⟨results, ?_⟩
  have pool : (runAll smallDay narrowMorning).2.store.pool? ⟨0, 1⟩ = some ⟨6, 15, 0, 0⟩ := by
    decide +kernel
  rw [(outermost rfl).1]
  exact (Store.mirrors_mirror _).pools ⟨0, 1⟩ |>.trans (by rw [pool]; rfl)

end Task

end Tasks

end LiquidityPools
