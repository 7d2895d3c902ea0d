import LiquidityPools.Proofs.History
import LiquidityPools.Proofs.Unaware

/-!
Calls against the operations that they name. A call checks its arguments before the operation does,
and wraps the operation's unit in one of its own. Neither makes a difference, over a carrier that
cannot see how many units are open: the call does what the operation does with the same arguments,
hands over its one event, or reports a fault of the same kind.
-/

namespace LiquidityPools

variable {ρ α β : Type}

def CallName.request (caller : Value) (args : Exchange.Arguments) : CallName → Request
  | .createMarketPool =>
    .create caller (Value.fieldOrNull "base_asset" args) (Value.fieldOrNull "quote_asset" args)
      (Value.fieldOrNull "base_amount" args) (Value.fieldOrNull "quote_amount" args)
  | .depositLiquidity =>
    .deposit caller (Value.fieldOrNull "market" args) (Value.fieldOrNull "base_amount" args)
      (Value.fieldOrNull "quote_amount" args)
  | .withdrawLiquidity =>
    .withdraw caller (Value.fieldOrNull "market" args) (Value.fieldOrNull "base_amount" args)
      (Value.fieldOrNull "quote_amount" args)
  | .buy =>
    .trade .buy caller (Value.fieldOrNull "market" args) (Value.fieldOrNull "quote_amount" args)
      ((Value.field? "min_receive" args).getD (.int 0))
  | .sell =>
    .trade .sell caller (Value.fieldOrNull "market" args) (Value.fieldOrNull "base_amount" args)
      ((Value.field? "min_receive" args).getD (.int 0))

def Request.ofCall? (caller : Value) : Value → Option Request
  | .map args =>
    match Value.fieldOrNull "call" args with
    | .str text => (CallName.ofText? text).map (·.request caller args)
    | _ => none
  | _ => none

namespace Exchange

section Telling

/-- A body for one unit: it is unaware of further units, fails with faults of the exchange's own
kinds only, and tells of one event if it ends well. -/
structure Telling (body : Action (Exchange ρ) α) : Prop where
  unaware : Unaware body
  ends : ∀ x : Exchange ρ, x.Sound → Yields body x fun _ y =>
    ∃ event, y.openUnits = x.openUnits.modifyHead (· ++ [event])

theorem Telling.map {body : Action (Exchange ρ) α} (telling : Telling body) (g : α → β) :
    Telling (g <$> body) :=
  ⟨telling.unaware.map g, fun x sound => Ends.map (telling.ends x sound)⟩

variable (policy : Carrier.Policy ρ) (caller : Account) (market : Market) (base quote : Nat)

theorem telling_openPool : Telling (openPool (.following policy) caller market base quote) where
  unaware := .openPool policy caller market base quote
  ends x sound := by
    refine Yields.read ?_
    dsimp only
    split
    next => exact .inl ⟨_, _, rfl, rfl⟩
    next absent =>
      have free : x.store.pool? market = none := by simpa [Store.hasPool] using absent
      refine Ends.requireBalance (fun _ => rfl) fun _ => ?_
      refine Ends.requireBalance (fun _ => rfl) fun _ => Yields.read ?_
      refine Yields.transfer (Carrier.plain_following policy) sound fun _ _ _ sound' => ?_
      refine Yields.transfer (Carrier.plain_following policy) sound' fun _ _ _ _ => ?_
      refine Ends.insertPool free (Ends.step (Action.modify_apply ..) ?_)
      exact Ends.step (emit_eq ..) (.pure ⟨_, rfl⟩)

theorem telling_addLiquidity :
    Telling (addLiquidity (.following policy) caller market base quote) where
  unaware := .addLiquidity policy caller market base quote
  ends x sound := by
    refine Yields.requirePool fun pool held => ?_
    refine Ends.requireBalance (fun _ => rfl) fun _ => ?_
    refine Ends.requireBalance (fun _ => rfl) fun _ => Yields.read ?_
    refine Yields.compute Amount.failsOnly_bounded fun _ _ => ?_
    refine Yields.compute Amount.failsOnly_bounded fun _ _ => ?_
    refine Yields.read (Yields.compute Amount.failsOnly_bounded fun _ _ => ?_)
    refine Yields.compute Amount.failsOnly_bounded fun _ _ => Yields.read ?_
    refine Yields.transfer (Carrier.plain_following policy) sound fun _ _ _ sound' => ?_
    refine Yields.transfer (Carrier.plain_following policy) sound' fun _ _ _ _ => ?_
    refine Ends.putPool held (Ends.step (putPosition_eq ..) ?_)
    exact Ends.step (emit_eq ..) (.pure ⟨_, rfl⟩)

theorem telling_removeLiquidity :
    Telling (removeLiquidity (.following policy) caller market base quote) where
  unaware := .removeLiquidity policy caller market base quote
  ends x sound := by
    refine Yields.requirePool fun pool held => Yields.read ?_
    dsimp only
    split
    next => exact .inl ⟨_, _, rfl, rfl⟩
    next =>
      refine Yields.read (Yields.compute Amount.failsOnly_bounded fun _ _ => ?_)
      refine Yields.compute Amount.failsOnly_bounded fun _ _ => ?_
      refine Yields.compute Amount.failsOnly_bounded fun _ _ => ?_
      refine Yields.compute Amount.failsOnly_bounded fun _ _ => Yields.read ?_
      refine Yields.transfer (Carrier.plain_following policy) sound fun _ _ _ sound' => ?_
      refine Yields.transfer (Carrier.plain_following policy) sound' fun _ _ _ _ => ?_
      refine Ends.putPool held (Ends.step (putPosition_eq ..) ?_)
      exact Ends.step (emit_eq ..) (.pure ⟨_, rfl⟩)

theorem telling_swap (side : Side) (amount least : Nat) :
    Telling (swap (.following policy) side caller market amount least) where
  unaware := .swap policy caller market side amount least
  ends x sound := by
    refine Yields.requirePool fun pool held => Ends.requireBalance (fun _ => rfl) fun _ =>
      Yields.read ?_
    refine Yields.compute Quote.failsOnly_price fun quote _ => ?_
    dsimp only
    split
    next => exact .inl ⟨_, _, rfl, rfl⟩
    next =>
      refine Yields.compute Amount.failsOnly_bounded fun _ _ => ?_
      refine Yields.transfer (Carrier.plain_following policy) sound fun _ _ _ sound' => ?_
      refine Yields.transfer (Carrier.plain_following policy) sound' fun _ _ _ sound'' => ?_
      refine Yields.transfer (Carrier.plain_following policy) sound'' fun _ _ _ _ => ?_
      exact Ends.putPool held (Ends.step (emit_eq ..) (.pure ⟨_, rfl⟩))

end Telling

section Checked

theorem leave_map (marks : Atomic.Marks (Exchange ρ)) (outcome : Except Fault α) (g : α → β)
    (x : Exchange ρ) :
    leave marks (outcome.map g) x =
      ((leave marks outcome x).1.map (Prod.map g id), (leave marks outcome x).2) := by
  cases outcome with
  | ok a => rfl
  | error fault =>
    simp only [leave, Atomic.leave, Except.map]
    cases Atomic.rollbackAll marks.reverse x with
    | mk rolled y => cases rolled <;> rfl

theorem unit_map (body : Action (Exchange ρ) α) (g : α → β) :
    unit (g <$> body) = g <$> unit body := by
  funext x
  simp only [unit, Action.map_apply, collect_eq, leave_map]
  cases (leave x.enter.1 (body x.opened).1 (body x.opened).2).1 <;> rfl

/-- Under a configuration, the step is refused for its arguments, whatever the state, or it is one
unit around a telling body. -/
def Checked (c : Config) (m : Action (Exchange ρ) α) : Prop :=
  (∃ fault : Fault, fault.IsArgument ∧ ∀ x : Exchange ρ, x.config = c → m x = (.error fault, x)) ∨
    ∃ body : Action (Exchange ρ) α, Telling body ∧ ∀ x, x.config = c → m x = unit body x

variable {c : Config} {m : Action (Exchange ρ) α} {x : Exchange ρ}

namespace Checked

theorem lift {outcome : Except Fault β} {f : β → Action (Exchange ρ) α}
    (refuses : Except.FailsOnly outcome Fault.IsArgument)
    (later : ∀ b, outcome = .ok b → Checked c (f b)) :
    Checked c ((liftM outcome : Action (Exchange ρ) β) >>= f) := by
  cases h : outcome with
  | error fault => exact .inl ⟨fault, refuses fault h, fun _ _ => rfl⟩
  | ok b => exact later b h

theorem readConfig {f : Config → Action (Exchange ρ) α} (later : Checked c (f c)) :
    Checked c (Action.read (·.config) >>= f) := by
  rcases later with ⟨fault, argument, refused⟩ | ⟨body, telling, same⟩
  · refine .inl ⟨fault, argument, fun x config => ?_⟩
    rw [Action.bind_read, config, refused x config]
  · refine .inr ⟨body, telling, fun x config => ?_⟩
    rw [Action.bind_read, config, same x config]

theorem unit {body : Action (Exchange ρ) α} (telling : Telling body) : Checked c (unit body) :=
  .inr ⟨body, telling, fun _ _ => rfl⟩

theorem map (checked : Checked c m) (g : α → β) : Checked c (g <$> m) := by
  rcases checked with ⟨fault, argument, refused⟩ | ⟨body, telling, same⟩
  · exact .inl ⟨fault, argument, fun x config => Action.bind_error (refused x config) _⟩
  · refine .inr ⟨g <$> body, telling.map g, fun x config => ?_⟩
    rw [unit_map]
    show (m >>= fun a => pure (g a)) x = (Exchange.unit body >>= fun a => pure (g a)) x
    rw [Action.bind_apply, Action.bind_apply, same x config]

theorem outcome (checked : Checked c m) (sound : x.Sound) (config : x.config = c)
    (outermost : x.openUnits = []) :
    (∃ fault host, fault.isOwn = true ∧ m x = (.error fault, { x with host }) ∧
        collect m x = (.error fault, { x with host })) ∨
      ∃ a event y, m x = (.ok a, y) ∧ collect m x = (.ok (a, [event]), y) ∧
        y.log = x.log ++ [event] := by
  rcases checked with ⟨fault, argument, refused⟩ | ⟨body, telling, same⟩
  · refine .inl ⟨fault, x.host, argument.isOwn, refused x config, ?_⟩
    rw [collect_eq, refused x.opened config, leave_error (.refl sound.opened)]
    rfl
  · have nested : collect m x = collect body x := by
      rw [← telling.unaware.collect_unit sound outermost, collect_eq, collect_eq,
        same x.opened config]
    rw [nested, same x config]
    have ends := telling.ends x.opened sound.opened
    obtain ⟨events, above, ⟨fault, failed, stopped⟩ | ⟨a, done, closed⟩⟩ :=
      telling.unaware.journaled.collect sound
    · exact .inl ⟨fault, _, Ends.told ends (Prod.ext failed rfl), Action.bind_error stopped _,
        stopped⟩
    · obtain ⟨event, told⟩ := Ends.reached ends (Prod.ext done rfl)
      have same : events = [event] := by
        rw [openUnits_above above outermost, opened, outermost] at told
        exact (List.cons.inj told).1
      rw [same] at above closed
      refine .inr ⟨a, event, _, Action.bind_ok closed _, closed, ?_⟩
      rw [(Follows.of_opened above).log, log_deliver, if_pos outermost]

end Checked

section Requests

variable (policy : Carrier.Policy ρ)

theorem checked_createOf (caller base quote baseAmount quoteAmount : Value) :
    Checked c (createOf (.following policy) caller base quote baseAmount quoteAmount) := by
  refine .readConfig (.lift failsOnly_callerOf fun caller _ =>
    .lift failsOnly_marketOf fun m _ => ?_)
  refine .lift failsOnly_amountOf fun b _ => .lift failsOnly_amountOf fun q _ => ?_
  dsimp only
  split
  next => exact .inl ⟨_, ⟨_, rfl⟩, fun _ _ => rfl⟩
  next => exact .unit (telling_openPool policy caller m b q)

theorem checked_depositOf (caller market baseAmount quoteAmount : Value) :
    Checked c (depositOf (.following policy) caller market baseAmount quoteAmount) := by
  refine .readConfig (.lift failsOnly_callerOf fun caller _ => ?_)
  refine .lift failsOnly_marketOfPair fun m _ => ?_
  refine .lift failsOnly_amountOf fun b _ => .lift failsOnly_amountOf fun q _ => ?_
  exact .unit (telling_addLiquidity policy caller m b q)

theorem checked_withdrawOf (caller market baseAmount quoteAmount : Value) :
    Checked c (withdrawOf (.following policy) caller market baseAmount quoteAmount) := by
  refine .readConfig (.lift failsOnly_callerOf fun caller _ => ?_)
  refine .lift failsOnly_marketOfPair fun m _ => ?_
  refine .lift failsOnly_amountOf fun b _ => .lift failsOnly_amountOf fun q _ => ?_
  exact .unit (telling_removeLiquidity policy caller m b q)

theorem checked_tradeOf (side : Side) (caller market amount least : Value) :
    Checked c (tradeOf (.following policy) side caller market amount least) := by
  refine .readConfig (.lift failsOnly_callerOf fun caller _ => ?_)
  refine .lift failsOnly_marketOfPair fun m _ => ?_
  refine .lift failsOnly_amountOf fun n _ => .lift failsOnly_amountOf fun l _ => ?_
  exact .unit (telling_swap policy caller m side n l)

end Requests

end Checked

section Agreement

def Declines (m : Action (Exchange ρ) α) (x : Exchange ρ) : Prop :=
  ∃ fault : Fault, fault.IsArgument ∧ m x = (.error fault, x)

theorem Declines.lift {outcome : Except Fault β} {f : β → Action (Exchange ρ) α} {x : Exchange ρ}
    (refuses : Except.FailsOnly outcome Fault.IsArgument)
    (later : ∀ b, outcome = .ok b → Declines (f b) x) :
    Declines ((liftM outcome : Action (Exchange ρ) β) >>= f) x := by
  cases h : outcome with
  | error fault => exact ⟨fault, refuses fault h, rfl⟩
  | ok b => exact later b h

theorem Declines.map {m : Action (Exchange ρ) α} {x : Exchange ρ} (refuses : Declines m x)
    (g : α → β) :
    Declines (g <$> m) x := by
  obtain ⟨fault, argument, refused⟩ := refuses
  exact ⟨fault, argument, Action.bind_error refused _⟩

/-- The steps are the same, or both are always refused for their arguments. -/
def Agrees (m n : Action (Exchange ρ) Unit) : Prop := m = n ∨ ∀ x, Declines m x ∧ Declines n x

def IsInt (value : Value) : Prop := ∃ n, value = .int n

def IsPair (value : Value) : Prop :=
  ∃ base quote, value = .list [base, quote] ∨ value = .tuple [base, quote]

theorem isInt_of_amountOf {c : Config} {name : String} {value : Value} {n : Nat}
    (done : amountOf c name value = .ok n) : IsInt value := by
  unfold amountOf at done
  split at done
  next n => exact ⟨n, rfl⟩
  next => cases done

theorem isPair_of_marketOfPair {value : Value} {market : Market}
    (done : marketOfPair value = .ok market) : IsPair value := by
  unfold marketOfPair at done
  split at done
  next base quote => exact ⟨base, quote, .inl rfl⟩
  next base quote => exact ⟨base, quote, .inr rfl⟩
  next => cases done

namespace Arguments

variable {args : Arguments} {name : String} {default value : Value}

theorem integer_of_isInt (typed : IsInt ((Value.field? name args).getD default)) :
    args.integer name default = .ok ((Value.field? name args).getD default) := by
  obtain ⟨n, int⟩ := typed
  simp only [integer, int]

theorem isInt_of_integer (done : args.integer name default = .ok value) :
    IsInt ((Value.field? name args).getD default) := by
  unfold integer at done
  split at done
  next n int => exact ⟨n, int⟩
  next => cases done

theorem market_of_isPair (typed : IsPair (Value.fieldOrNull "market" args)) :
    ∃ pair, args.market = .ok pair ∧
      marketOfPair pair = marketOfPair (Value.fieldOrNull "market" args) := by
  obtain ⟨base, quote, given | given⟩ := typed
  · exact ⟨_, by rw [market, given], by rw [given, marketOfPair, marketOfPair]⟩
  · exact ⟨_, by rw [market, given], by rw [given]⟩

theorem isPair_of_market (done : args.market = .ok value) :
    IsPair (Value.fieldOrNull "market" args) := by
  unfold market at done
  split at done
  next base quote given => exact ⟨base, quote, .inl given⟩
  next base quote given => exact ⟨base, quote, .inr given⟩
  next => cases done

end Arguments

variable (carrier : Carrier ρ) (caller : Value) (args : Arguments)

theorem agrees_create :
    Agrees (perform carrier caller args .createMarketPool)
      ((CallName.createMarketPool.request caller args).run carrier) := by
  let base := Value.fieldOrNull "base_asset" args
  let quote := Value.fieldOrNull "quote_asset" args
  let baseAmount := Value.fieldOrNull "base_amount" args
  let quoteAmount := Value.fieldOrNull "quote_amount" args
  by_cases typed : IsInt base ∧ IsInt quote ∧ IsInt baseAmount ∧ IsInt quoteAmount
  · obtain ⟨baseInt, quoteInt, baseGiven, quoteGiven⟩ := typed
    refine .inl ?_
    rw [perform, Arguments.integer_of_isInt baseInt, Arguments.integer_of_isInt quoteInt,
      Arguments.integer_of_isInt baseGiven, Arguments.integer_of_isInt quoteGiven]
    rfl
  · refine .inr fun x => ⟨?_, Declines.map ?_ _⟩
    · refine .lift Arguments.failsOnly_integer fun _ b =>
        .lift Arguments.failsOnly_integer fun _ q => ?_
      refine .lift Arguments.failsOnly_integer fun _ n =>
        .lift Arguments.failsOnly_integer fun _ m => ?_
      exact absurd ⟨Arguments.isInt_of_integer b, Arguments.isInt_of_integer q,
        Arguments.isInt_of_integer n, Arguments.isInt_of_integer m⟩ typed
    · refine .lift failsOnly_callerOf fun account _ =>
        .lift failsOnly_marketOf fun market named => ?_
      refine .lift failsOnly_amountOf fun b m => .lift failsOnly_amountOf fun q n => ?_
      obtain ⟨baseInt, quoteInt, -⟩ := marketOf_eq_ok_iff.1 named
      exact absurd ⟨⟨_, baseInt⟩, ⟨_, quoteInt⟩, isInt_of_amountOf m, isInt_of_amountOf n⟩ typed

theorem agrees_paired (act : Account → Market → Nat → Nat → Action (Exchange ρ) α)
    (first second : String) (default : Value) :
    let op (market a b : Value) : Action (Exchange ρ) α := do
      let config ← Action.read (·.config)
      let caller ← callerOf config caller
      let market ← marketOfPair market
      let a ← amountOf config first a
      let b ← amountOf config second b
      act caller market a b
    Agrees
      (do
        let market ← args.market
        let a ← args.integer first
        let b ← args.integer second default
        let _ ← op market a b)
      ((fun _ => ()) <$> op (Value.fieldOrNull "market" args) (Value.fieldOrNull first args)
        ((Value.field? second args).getD default)) := by
  intro op
  by_cases typed : IsPair (Value.fieldOrNull "market" args) ∧ IsInt (Value.fieldOrNull first args) ∧
      IsInt ((Value.field? second args).getD default)
  · obtain ⟨paired, firstInt, secondInt⟩ := typed
    obtain ⟨pair, given, same⟩ := Arguments.market_of_isPair paired
    refine .inl ?_
    rw [given, Arguments.integer_of_isInt firstInt, Arguments.integer_of_isInt secondInt]
    show (fun _ => ()) <$> op pair _ _ = _
    simp only [op, same]
    rfl
  · refine .inr fun x => ⟨?_, Declines.map ?_ _⟩
    · refine .lift Arguments.failsOnly_market fun _ m => ?_
      refine .lift Arguments.failsOnly_integer fun _ a =>
        .lift Arguments.failsOnly_integer fun _ b => ?_
      exact absurd ⟨Arguments.isPair_of_market m, Arguments.isInt_of_integer a,
        Arguments.isInt_of_integer b⟩ typed
    · refine .lift failsOnly_callerOf fun account _ =>
        .lift failsOnly_marketOfPair fun market m => ?_
      refine .lift failsOnly_amountOf fun n a => .lift failsOnly_amountOf fun k b => ?_
      exact absurd ⟨isPair_of_marketOfPair m, isInt_of_amountOf a, isInt_of_amountOf b⟩ typed

theorem agrees_perform (name : CallName) :
    Agrees (perform carrier caller args name) ((name.request caller args).run carrier) := by
  cases name with
  | createMarketPool => exact agrees_create carrier caller args
  | depositLiquidity =>
    exact agrees_paired caller args (deposit carrier) "base_amount" "quote_amount" .null
  | withdrawLiquidity =>
    exact agrees_paired caller args (withdraw carrier) "base_amount" "quote_amount" .null
  | buy =>
    exact agrees_paired caller args (trade carrier .buy) "quote_amount" "min_receive" (.int 0)
  | sell =>
    exact agrees_paired caller args (trade carrier .sell) "base_amount" "min_receive" (.int 0)

end Agreement

section Calls

variable (policy : Carrier.Policy ρ)

theorem checked_request (c : Config) (caller : Value) (args : Arguments) (name : CallName) :
    Checked c ((name.request caller args).run (.following policy)) := by
  cases name with
  | createMarketPool => exact (checked_createOf policy ..).map _
  | depositLiquidity => exact (checked_depositOf policy ..).map _
  | withdrawLiquidity => exact (checked_withdrawOf policy ..).map _
  | buy => exact (checked_tradeOf policy ..).map _
  | sell => exact (checked_tradeOf policy ..).map _

theorem callOrFail_of_ofCall? (carrier : Carrier ρ) (caller data : Value) :
    (∃ fault : Fault, fault.IsArgument ∧ callOrFail carrier caller data = Action.fail fault ∧
      Request.ofCall? caller data = none) ∨
      ∃ args name, Request.ofCall? caller data = some (name.request caller args) ∧
        callOrFail carrier caller data =
          Prod.snd <$> collect (perform carrier caller args name) := by
  unfold callOrFail
  split
  next args =>
    split
    next text named =>
      split
      next name known =>
        refine .inr ⟨args, name, ?_, rfl⟩
        simp only [Request.ofCall?, named, known, Option.map_some]
      next unknown =>
        refine .inl ⟨_, ⟨_, rfl⟩, rfl, ?_⟩
        simp only [Request.ofCall?, named, unknown, Option.map_none]
    next unnamed =>
      refine .inl ⟨_, ⟨_, rfl⟩, rfl, ?_⟩
      unfold Request.ofCall?
      dsimp only
      split
      next text named => exact absurd named (unnamed text)
      next => rfl
  next unmapped =>
    refine .inl ⟨_, ⟨_, rfl⟩, rfl, ?_⟩
    unfold Request.ofCall?
    split
    next args => exact absurd rfl (unmapped args)
    next => rfl

/-- Calls of a carrier that cannot see the open units answer whatever the caller and the data are,
and do what the operation does that they ask for. A call that is done has published one event and
reports it, and leaves the exchange as the operation does. A call that failed leaves the exchange as
it was, but for what the carrier remembers, and reports a fault of the kind that the operation fails
with. -/
theorem call_agrees {x : Exchange ρ} (sound : x.Sound) (outermost : x.openUnits = [])
    (caller data : Value) :
    let carrier := Carrier.following policy
    ∃ result y, call carrier caller data x = (.ok result, y) ∧
      match result with
      | .done events => ∃ event r, events = [event] ∧ y.log = x.log ++ [event] ∧
          Request.ofCall? caller data = some r ∧ r.run carrier x = (.ok (), y)
      | .failed fault => fault.isOwn = true ∧ (∃ host, y = { x with host }) ∧
          ∀ r, Request.ofCall? caller data = some r →
            ∃ cause, r.run carrier x = (.error cause, y) ∧ cause.code? = fault.code? := by
  intro carrier
  have failed {fault : Fault} {y : Exchange ρ} (own : fault.isOwn = true)
      (stopped : callOrFail carrier caller data x = (.error fault, y)) :
      call carrier caller data x = (.ok (.failed fault), y) := by
    rw [call, Action.bind_apply, Action.attempt, stopped]
    simp only [own, if_true]
    rfl
  have done {events : List Event} {y : Exchange ρ}
      (ended : callOrFail carrier caller data x = (.ok events, y)) :
      call carrier caller data x = (.ok (.done events), y) := by
    rw [call, Action.bind_apply, Action.attempt, ended]
    rfl
  rcases callOrFail_of_ofCall? carrier caller data with
    ⟨fault, argument, fails, unnamed⟩ | ⟨args, name, named, collects⟩
  · refine ⟨.failed fault, x, failed argument.isOwn (by rw [fails]; rfl), argument.isOwn,
      ⟨x.host, rfl⟩, fun r named => ?_⟩
    cases unnamed.symm.trans named
  · have checked := checked_request policy x.config caller args name
    rcases agrees_perform carrier caller args name with same | refused
    · rcases checked.outcome sound rfl outermost with
        ⟨fault, host, own, alone, nested⟩ | ⟨⟨⟩, event, y, alone, nested, log⟩
      · refine ⟨.failed fault, _, failed own ?_, own, ⟨host, rfl⟩, ?_⟩
        · rw [collects, same]
          exact Action.bind_error nested _
        · intro r asked
          cases named.symm.trans asked
          exact ⟨fault, alone, rfl⟩
      · refine ⟨.done [event], y, done ?_, event, _, rfl, log, named, alone⟩
        rw [collects, same]
        exact Action.bind_ok nested _
    · obtain ⟨fault, argument, stopped⟩ := (refused x.opened).1
      obtain ⟨cause, argument', alone⟩ := (refused x).2
      refine ⟨.failed fault, x, failed argument.isOwn ?_, argument.isOwn, ⟨x.host, rfl⟩, ?_⟩
      · rw [collects]
        refine Action.bind_error ?_ _
        rw [collect_eq, stopped, leave_error (.refl sound.opened)]
        rfl
      · intro r asked
        cases named.symm.trans asked
        exact ⟨cause, alone, by rw [Fault.code?, Fault.code?, argument.kind, argument'.kind]⟩

def hesitant : Carrier.Policy Nat := fun seen _ m =>
  (if seen = 0 then some (.refused m.asset m.source m.dest (.int m.amount)) else none, seen + 1)

def creationCall : Value :=
  .map [(.str "call", .str "create_market_pool"), (.str "base_asset", .int 1),
    (.str "quote_asset", .int 2), (.str "base_amount", .int 100), (.str "quote_amount", .int 200)]

/-- The carrier has refused a transfer before. -/
theorem call_agrees_creation :
    let x : Exchange Nat := fresh .usual Program.aliceBalances 1
    ∃ event r y, call (.following hesitant) (.str "alice") creationCall x =
      (.ok (.done [event]), y) ∧
      y.log = [event] ∧ Request.ofCall? (.str "alice") creationCall = some r ∧
      r.run (.following hesitant) x = (.ok (), y) := by
  intro x
  have ends : ((call (.following hesitant) (.str "alice") creationCall x).1.toOption.bind fun
      | .done events => some events.length
      | .failed _ => none) = some 1 := by decide +kernel
  obtain ⟨result, y, answered, told⟩ := call_agrees hesitant
    (sound_fresh Program.sound_aliceBalances .usual 1 : x.Sound) rfl (.str "alice") creationCall
  rw [answered] at ends
  cases result with
  | failed fault => cases ends
  | done events =>
    obtain ⟨event, r, rfl, log, asked, ran⟩ := told
    exact ⟨event, r, y, answered, log, asked, ran⟩

end Calls

end Exchange

end LiquidityPools
