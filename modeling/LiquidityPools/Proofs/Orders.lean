import LiquidityPools.Proofs.Program
import LiquidityPools.Proofs.Verdict

/-!
Orders: operations with untyped arguments, over the exchange's own ledger, together with their
answers. The arguments and the books say what an order comes to: a kind of fault, which leaves the
exchange as it was, or one deal and an answer.
-/

namespace LiquidityPools

variable {ρ : Type}

inductive Answer where
  | pool (pool : Pool)
  | position (position : Position)
  | quote (quote : Quote)

inductive Ask where
  | create (caller : Account) (market : Market) (base quote : Nat)
  | deposit (caller : Account) (market : Market) (base quote : Nat)
  | withdraw (caller : Account) (market : Market) (base quote : Nat)
  | trade (side : Side) (caller : Account) (market : Market) (amount least : Nat)

inductive Order where
  | create (caller base quote baseAmount quoteAmount : Value)
  | deposit (caller market baseAmount quoteAmount : Value)
  | withdraw (caller market baseAmount quoteAmount : Value)
  | trade (side : Side) (caller market amount least : Value)

namespace Exchange

/-- The step fails with this kind of fault and changes nothing, or commits this deal and answers
this. -/
def Comes (m : Action (Exchange ρ) Answer) (x : Exchange ρ) :
    Except Fault.Kind (Deal × Answer) → Prop
  | .error kind => ∃ fault host, m x = (.error fault, { x with host }) ∧ fault.kind = kind
  | .ok (deal, answer) => ∃ y, m x = (.ok answer, y) ∧ x.Leads [deal] y

theorem Comes.of_eq {m m' : Action (Exchange ρ) Answer} {x : Exchange ρ} (same : m x = m' x)
    {spec : Except Fault.Kind (Deal × Answer)} (comes : Comes m' x spec) : Comes m x spec := by
  cases spec with
  | error kind =>
    obtain ⟨fault, host, failed, told⟩ := comes
    exact ⟨fault, host, same.trans failed, told⟩
  | ok dealt =>
    obtain ⟨y, done, leads⟩ := comes
    exact ⟨y, same.trans done, leads⟩

theorem comes_unit {α : Type} {body : Action (Exchange ρ) α} {x : Exchange ρ}
    (journaled : Journaled body)
    (sound : x.Sound) {spec : Except Fault.Kind α} (foreseen : Foreseen body x.opened spec)
    (wrap : α → Answer) {deal : α → Deal}
    (enters : ∀ a y, body x.opened = (.ok a, y) → x.opened.Enters (deal a) y) :
    Comes (wrap <$> unit body) x (spec.map fun a => (deal a, wrap a)) := by
  have ends : Ends (unit body) x (fun fault => spec = .error fault.kind) fun a _ => spec = .ok a :=
    .unit journaled sound foreseen
  rcases ends with ⟨fault, y, failed, rfl⟩ | ⟨a, y, done, rfl⟩
  · obtain ⟨host, rfl⟩ := (allOrNothing_unit journaled).whole x sound fault y failed
    exact ⟨fault, host, Action.bind_error failed _, rfl⟩
  · exact ⟨y, Action.bind_ok done _, leads_unit journaled sound (enters a) done⟩

end Exchange

open Exchange

namespace Ask

def run : Ask → Action (Exchange ρ) Answer
  | .create caller market base quote => .pool <$> Exchange.create .direct caller market base quote
  | .deposit caller market base quote =>
    .position <$> Exchange.deposit .direct caller market base quote
  | .withdraw caller market base quote =>
    .position <$> Exchange.withdraw .direct caller market base quote
  | .trade side caller market amount least =>
    .quote <$> Exchange.trade .direct side caller market amount least

def Proper (c : Config) : Ask → Prop
  | .create caller market base quote =>
    c.MayCall caller ∧ market.Valid ∧ (0 < base ∧ base ≤ c.cap) ∧ (0 < quote ∧ quote ≤ c.cap)
  | .deposit caller market _ _ | .withdraw caller market _ _ => c.MayCall caller ∧ market.Valid
  | .trade _ caller market amount _ => c.MayCall caller ∧ market.Valid ∧ amount ≤ c.cap

def verdict (c : Config) (b : Books) : Ask → Except Fault.Kind (Deal × Answer)
  | .create caller market base quote =>
    (b.opening caller market base quote).map fun pool =>
      (.opened caller market base quote, .pool pool)
  | .deposit caller market base quote =>
    (b.adding c caller market base quote).map fun position =>
      (.added caller market base quote, .position position)
  | .withdraw caller market base quote =>
    ((b.store.withdrawal caller market base quote).mapError Fault.kind).map fun position =>
      (.withdrawn caller market base quote, .position position)
  | .trade side caller market amount least =>
    (b.trading c caller market side amount least).map fun quote =>
      (.traded caller market amount quote, .quote quote)

theorem comes {x : Exchange ρ} (solvent : x.Solvent) {ask : Ask} (proper : ask.Proper x.config) :
    Comes ask.run x (ask.verdict x.config x.books) := by
  have sound := solvent.sound
  have journaled := Carrier.plain_direct (ρ := ρ).journaled
  cases ask with
  | create caller market base quote =>
    obtain ⟨may, valid, baseFits, quoteFits⟩ := proper
    refine comes_unit (journaled_openPool journaled _ _ _ _) sound
      (foreseen_openPool solvent.opened.roomy valid.2.2) .pool fun pool y body => ?_
    exact enters_openPool Carrier.plain_direct sound.opened may valid baseFits quoteFits body
  | deposit caller market base quote =>
    obtain ⟨may, valid⟩ := proper
    refine comes_unit (journaled_addLiquidity journaled _ _ _ _) sound
      (foreseen_addLiquidity solvent.opened.roomy valid.2.2) .position fun position y body => ?_
    exact enters_addLiquidity Carrier.plain_direct sound.opened may valid body
  | withdraw caller market base quote =>
    obtain ⟨may, valid⟩ := proper
    have foreseen : Foreseen (removeLiquidity .direct caller market base quote) x.opened
        ((x.store.withdrawal caller market base quote).mapError Fault.kind) :=
      (ends_removeLiquidity solvent.opened).weaken
        (fun fault failed => congrArg (Except.mapError Fault.kind) failed)
        fun position _ done => congrArg (Except.mapError Fault.kind) done
    refine comes_unit (journaled_removeLiquidity journaled _ _ _ _) sound foreseen .position
      fun position y body => ?_
    exact enters_removeLiquidity Carrier.plain_direct sound.opened may valid body
  | trade side caller market amount least =>
    obtain ⟨may, valid, fits⟩ := proper
    refine comes_unit (journaled_swap journaled _ _ _ _ _) sound
      (foreseen_swap solvent.opened) .quote
      fun quote y body => ?_
    exact enters_swap Carrier.plain_direct sound.opened may valid fits body

end Ask

namespace Order

def run : Order → Action (Exchange ρ) Answer
  | .create caller base quote baseAmount quoteAmount =>
    .pool <$> createOf .direct caller base quote baseAmount quoteAmount
  | .deposit caller market baseAmount quoteAmount =>
    .position <$> depositOf .direct caller market baseAmount quoteAmount
  | .withdraw caller market baseAmount quoteAmount =>
    .position <$> withdrawOf .direct caller market baseAmount quoteAmount
  | .trade side caller market amount least =>
    .quote <$> tradeOf .direct side caller market amount least

def ask (c : Config) : Order → Except Fault Ask
  | .create caller base quote baseAmount quoteAmount => do
    let caller ← callerOf c caller
    let market ← marketOf base quote
    let b ← amountOf c "base_amount" baseAmount
    let q ← amountOf c "quote_amount" quoteAmount
    if b = 0 ∨ q = 0 then .error (.argument (.zeroInitial b q))
      else pure (.create caller market b q)
  | .deposit caller market baseAmount quoteAmount => do
    let caller ← callerOf c caller
    let market ← marketOfPair market
    let b ← amountOf c "base_amount" baseAmount
    let q ← amountOf c "quote_amount" quoteAmount
    pure (.deposit caller market b q)
  | .withdraw caller market baseAmount quoteAmount => do
    let caller ← callerOf c caller
    let market ← marketOfPair market
    let b ← amountOf c "base_amount" baseAmount
    let q ← amountOf c "quote_amount" quoteAmount
    pure (.withdraw caller market b q)
  | .trade side caller market amount least => do
    let caller ← callerOf c caller
    let market ← marketOfPair market
    let amount ← amountOf c (spentName side) amount
    let least ← amountOf c "min_receive" least
    pure (.trade side caller market amount least)

variable {c : Config} {order : Order} {ask : Ask}

theorem failsOnly_ask : Except.FailsOnly (order.ask c) Fault.IsArgument := by
  cases order with
  | create caller base quote baseAmount quoteAmount =>
    refine failsOnly_callerOf.bind fun _ => failsOnly_marketOf.bind fun _ => ?_
    refine failsOnly_amountOf.bind fun _ => failsOnly_amountOf.bind fun _ => ?_
    split
    · exact .error ⟨_, rfl⟩
    · exact .ok _
  | deposit | withdraw | trade =>
    refine failsOnly_callerOf.bind fun _ => failsOnly_marketOfPair.bind fun _ => ?_
    exact failsOnly_amountOf.bind fun _ => failsOnly_amountOf.bind fun _ => .ok _

theorem proper_of_ask (checked : order.ask c = .ok ask) : ask.Proper c := by
  cases order with
  | create caller base quote baseAmount quoteAmount =>
    obtain ⟨account, called, checked⟩ := Except.bind_eq_ok checked
    obtain ⟨market, named, checked⟩ := Except.bind_eq_ok checked
    obtain ⟨b, baseGiven, checked⟩ := Except.bind_eq_ok checked
    obtain ⟨q, quoteGiven, checked⟩ := Except.bind_eq_ok checked
    split at checked
    next => cases checked
    next positive =>
      cases checked
      have baseFits := le_cap_of_amountOf baseGiven
      have quoteFits := le_cap_of_amountOf quoteGiven
      exact ⟨(callerOf_eq_ok_iff.1 called).2, valid_of_marketOf named, ⟨by omega, baseFits⟩,
        ⟨by omega, quoteFits⟩⟩
  | deposit caller market baseAmount quoteAmount | withdraw caller market baseAmount quoteAmount =>
    obtain ⟨account, called, checked⟩ := Except.bind_eq_ok checked
    obtain ⟨market, named, checked⟩ := Except.bind_eq_ok checked
    obtain ⟨b, baseGiven, checked⟩ := Except.bind_eq_ok checked
    obtain ⟨q, quoteGiven, checked⟩ := Except.bind_eq_ok checked
    cases checked
    exact ⟨(callerOf_eq_ok_iff.1 called).2, valid_of_marketOfPair named⟩
  | trade side caller market amount least =>
    obtain ⟨account, called, checked⟩ := Except.bind_eq_ok checked
    obtain ⟨market, named, checked⟩ := Except.bind_eq_ok checked
    obtain ⟨n, given, checked⟩ := Except.bind_eq_ok checked
    obtain ⟨l, leastGiven, checked⟩ := Except.bind_eq_ok checked
    cases checked
    exact ⟨(callerOf_eq_ok_iff.1 called).2, valid_of_marketOfPair named, le_cap_of_amountOf given⟩

section Checks

variable {α β : Type} {x : Exchange ρ} {wrap : α → Answer}

theorem run_read {f : Config → Action (Exchange ρ) α} {checked : Except Fault Ask}
    (alike : (wrap <$> f x.config) x = ((liftM checked : Action (Exchange ρ) Ask) >>= Ask.run) x) :
    (wrap <$> (Action.read (·.config) >>= f)) x =
      ((liftM checked : Action (Exchange ρ) Ask) >>= Ask.run) x := alike

/-- A check that goes first may go first of all. -/
theorem run_lift {check : Except Fault β} {f : β → Action (Exchange ρ) α}
    {later : β → Except Fault Ask}
    (alike : ∀ b, (wrap <$> f b) x = ((liftM (later b) : Action (Exchange ρ) Ask) >>= Ask.run) x) :
    (wrap <$> ((liftM check : Action (Exchange ρ) β) >>= f)) x =
      ((liftM (check >>= later) : Action (Exchange ρ) Ask) >>= Ask.run) x := by
  cases check with
  | error fault => rfl
  | ok b => exact alike b

end Checks

theorem run_eq (order : Order) (x : Exchange ρ) :
    order.run x = ((liftM (order.ask x.config) : Action (Exchange ρ) Ask) >>= Ask.run) x := by
  cases order with
  | create caller base quote baseAmount quoteAmount =>
    refine run_read (run_lift fun account => run_lift fun market => run_lift fun b =>
      run_lift fun q => ?_)
    split
    · rfl
    · rfl
  | deposit | withdraw | trade =>
    exact run_read (run_lift fun _ => run_lift fun _ => run_lift fun _ => run_lift fun _ => rfl)

/-- What an order comes to. -/
def verdict (c : Config) (b : Books) (order : Order) : Except Fault.Kind (Deal × Answer) :=
  (order.ask c).mapError Fault.kind >>= Ask.verdict c b

theorem comes {x : Exchange ρ} (solvent : x.Solvent) (order : Order) :
    Comes order.run x (order.verdict x.config x.books) := by
  have runs := order.run_eq x
  cases checked : order.ask x.config with
  | error fault =>
    rw [checked] at runs
    rw [verdict, checked]
    exact ⟨fault, x.host, runs, rfl⟩
  | ok ask =>
    rw [checked] at runs
    rw [verdict, checked]
    exact .of_eq runs (Ask.comes solvent (proper_of_ask checked))

end Order

end LiquidityPools
