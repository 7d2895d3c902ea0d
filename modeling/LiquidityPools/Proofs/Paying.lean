import LiquidityPools.Proofs.Clearing
import LiquidityPools.Proofs.Verdict

/-!
No operation of a solvent exchange fails on a transfer. A caller pays what it was seen to hold, and
a custody account pays what it answers for, so whatever stops an operation is one of its own checks.
What becomes of a withdrawal is in the store alone.
-/

namespace LiquidityPools

variable {ρ : Type} {config : Config}

namespace Exchange

variable {x : Exchange ρ} {caller : Account} {market : Market} {base quote : Nat}

section Bodies

abbrev Unrefused {α : Type} (m : Action (Exchange ρ) α) (x : Exchange ρ) : Prop :=
  Ends m x (·.kind ≠ .transfer) fun _ _ => True

section Checks

variable {α β : Type} {outcome : Except Fault α} {f : α → Action (Exchange ρ) β}
  {last : β → Exchange ρ → Prop}

theorem Ends.argument (refuses : Except.FailsOnly outcome Fault.IsArgument)
    (later : ∀ a, outcome = .ok a → Ends (f a) x (·.kind ≠ .transfer) last) :
    Ends ((liftM outcome : Action (Exchange ρ) α) >>= f) x (·.kind ≠ .transfer) last :=
  .lift (fun fault failed => (refuses fault failed).kind_ne_transfer) later

end Checks

theorem Unrefused.of_foreseen {α : Type} {m : Action (Exchange ρ) α} {spec : Except Fault.Kind α}
    (foreseen : Foreseen m x spec) (pays : spec ≠ .error .transfer) : Unrefused m x :=
  foreseen.weaken (fun _ failed same => pays (failed.trans (congrArg _ same))) fun _ _ _ => trivial

theorem unrefused_openPool (roomy : x.Roomy) (apart : market.base ≠ market.quote) :
    Unrefused (openPool .direct caller market base quote) x := by
  refine .of_foreseen (foreseen_openPool roomy apart) ?_
  unfold Books.opening
  split_ifs <;> nofun

theorem unrefused_addLiquidity (roomy : x.Roomy) (apart : market.base ≠ market.quote) :
    Unrefused (addLiquidity .direct caller market base quote) x := by
  refine .of_foreseen (foreseen_addLiquidity roomy apart) ?_
  unfold Books.adding
  dsimp only
  split
  · nofun
  · split_ifs <;> nofun

theorem unrefused_swap (solvent : x.Solvent) {side : Side} {amount least : Nat} :
    Unrefused (swap .direct side caller market amount least) x := by
  refine .of_foreseen (foreseen_swap solvent) ?_
  unfold Books.trading
  split
  · nofun
  · split_ifs
    · nofun
    · split
      · nofun
      · split_ifs <;> nofun

end Bodies

theorem kind_of_withdrawal {s : Store} {fault : Fault}
    (failed : s.withdrawal caller market base quote = .error fault) : fault.kind ≠ .transfer := by
  unfold Store.withdrawal at failed
  split at failed
  · cases failed; nofun
  · dsimp only at failed
    split_ifs at failed <;> cases failed <;> nofun

section Requests

variable (solvent : x.Solvent)

include solvent

theorem unrefused_createOf (caller base quote baseAmount quoteAmount : Value) :
    Unrefused (createOf .direct caller base quote baseAmount quoteAmount) x := by
  refine .read (.argument failsOnly_callerOf fun caller _ => ?_)
  refine .argument failsOnly_marketOf fun market named => ?_
  refine .argument failsOnly_amountOf fun base _ => ?_
  refine .argument failsOnly_amountOf fun quote _ => ?_
  split
  next => exact .inl ⟨_, _, rfl, nofun⟩
  next =>
    exact (unrefused_openPool solvent.opened.roomy (valid_of_marketOf named).2.2).unit
      (journaled_openPool Carrier.plain_direct.journaled _ _ _ _) solvent.sound

theorem unrefused_depositOf (caller market baseAmount quoteAmount : Value) :
    Unrefused (depositOf .direct caller market baseAmount quoteAmount) x := by
  refine .read (.argument failsOnly_callerOf fun caller _ => ?_)
  refine .argument failsOnly_marketOfPair fun market named => ?_
  refine .argument failsOnly_amountOf fun base _ => ?_
  refine .argument failsOnly_amountOf fun quote _ => ?_
  exact (unrefused_addLiquidity solvent.opened.roomy (valid_of_marketOfPair named).2.2).unit
    (journaled_addLiquidity Carrier.plain_direct.journaled _ _ _ _) solvent.sound

theorem ends_withdraw (caller : Account) (market : Market) (base quote : Nat) :
    Ends (withdraw .direct caller market base quote) x
      (fun fault => x.store.withdrawal caller market base quote = .error fault)
      fun position _ => x.store.withdrawal caller market base quote = .ok position :=
  (ends_removeLiquidity solvent.opened).unit
    (journaled_removeLiquidity Carrier.plain_direct.journaled _ _ _ _)
    solvent.sound

theorem unrefused_withdrawOf (caller market baseAmount quoteAmount : Value) :
    Unrefused (withdrawOf .direct caller market baseAmount quoteAmount) x := by
  refine .read (.argument failsOnly_callerOf fun caller _ => ?_)
  refine .argument failsOnly_marketOfPair fun market _ => ?_
  refine .argument failsOnly_amountOf fun base _ => ?_
  refine .argument failsOnly_amountOf fun quote _ => ?_
  exact (ends_withdraw solvent caller market base quote).weaken (fun _ => kind_of_withdrawal)
    fun _ _ _ => trivial

theorem unrefused_tradeOf (side : Side) (caller market amount least : Value) :
    Unrefused (tradeOf .direct side caller market amount least) x := by
  refine .read (.argument failsOnly_callerOf fun caller _ => ?_)
  refine .argument failsOnly_marketOfPair fun market _ => ?_
  refine .argument failsOnly_amountOf fun amount _ => ?_
  refine .argument failsOnly_amountOf fun least _ => ?_
  exact (unrefused_swap solvent.opened).unit
    (journaled_swap Carrier.plain_direct.journaled _ _ _ _ _)
    solvent.sound

theorem unrefused_perform (caller : Value) (args : Arguments) (name : CallName) :
    Unrefused (perform .direct caller args name) x := by
  cases name with
  | createMarketPool =>
    refine .argument Arguments.failsOnly_integer fun base _ => ?_
    refine .argument Arguments.failsOnly_integer fun quote _ => ?_
    refine .argument Arguments.failsOnly_integer fun baseAmount _ => ?_
    refine .argument Arguments.failsOnly_integer fun quoteAmount _ => ?_
    exact (unrefused_createOf solvent ..).bind fun _ _ _ => .pure trivial
  | depositLiquidity =>
    refine .argument Arguments.failsOnly_market fun market _ => ?_
    refine .argument Arguments.failsOnly_integer fun baseAmount _ => ?_
    refine .argument Arguments.failsOnly_integer fun quoteAmount _ => ?_
    exact (unrefused_depositOf solvent ..).bind fun _ _ _ => .pure trivial
  | withdrawLiquidity =>
    refine .argument Arguments.failsOnly_market fun market _ => ?_
    refine .argument Arguments.failsOnly_integer fun baseAmount _ => ?_
    refine .argument Arguments.failsOnly_integer fun quoteAmount _ => ?_
    exact (unrefused_withdrawOf solvent ..).bind fun _ _ _ => .pure trivial
  | buy | sell =>
    refine .argument Arguments.failsOnly_market fun market _ => ?_
    refine .argument Arguments.failsOnly_integer fun amount _ => ?_
    refine .argument Arguments.failsOnly_integer fun least _ => ?_
    exact (unrefused_tradeOf solvent ..).bind fun _ _ _ => .pure trivial

theorem unrefused_callOrFail (caller data : Value) :
    Unrefused (callOrFail .direct caller data) x := by
  unfold callOrFail
  split
  next args =>
    split
    next =>
      split
      next name _ =>
        exact ((unrefused_perform solvent.opened caller args name).collect
          (orderly_perform Carrier.plain_direct.journaled caller args name).journaled
            solvent.sound).map
      next => exact .fail (Fault.IsArgument.kind_ne_transfer ⟨_, rfl⟩)
    next => exact .fail (Fault.IsArgument.kind_ne_transfer ⟨_, rfl⟩)
  next => exact .fail (Fault.IsArgument.kind_ne_transfer ⟨_, rfl⟩)

theorem ends_call (caller data : Value) :
    Ends (call .direct caller data) x (·.kind ≠ .transfer) fun result _ =>
      ∀ fault, result = .failed fault → fault.kind ≠ .transfer := by
  rcases unrefused_callOrFail solvent caller data
    with ⟨fault, y, failed, told⟩ | ⟨events, y, done, -⟩
  · have caught : Action.attempt (callOrFail .direct caller data) x = (.ok (.error fault), y) := by
      rw [Action.attempt, failed]
    refine .step caught ?_
    dsimp only
    split
    · exact .pure fun other same => by cases same; exact told
    · exact .fail told
  · have caught : Action.attempt (callOrFail .direct caller data) x = (.ok (.ok events), y) := by
      rw [Action.attempt, done]
    exact .step caught (.pure fun other same => by cases same)

theorem unrefused_settle (market : Market) : Unrefused (settle .direct market) x := by
  rcases solvent.settle market with ⟨fault, host, failed, refused⟩ | ⟨payouts, dust, y, done, -⟩
  · exact .inl ⟨fault, _, failed, refused.paid⟩
  · exact .inr ⟨_, y, done, trivial⟩

theorem unrefused_request (r : Request) : Unrefused (r.run .direct) x := by
  cases r with
  | create => exact (unrefused_createOf solvent ..).map
  | deposit => exact (unrefused_depositOf solvent ..).map
  | withdraw => exact (unrefused_withdrawOf solvent ..).map
  | trade => exact (unrefused_tradeOf solvent ..).map
  | call => exact ((ends_call solvent ..).weaken (fun _ => id) fun _ _ _ => trivial).map
  | callOrFail => exact (unrefused_callOrFail solvent ..).map
  | settle => exact (unrefused_settle solvent _).map

theorem overflow_of_distributeOf (idle : x.inFlight = []) {after : Option Market} {most : Value}
    {report : Payout.Report} {y : Exchange ρ}
    (done : distributeOf .direct after most x = (.ok report, y)) :
    ∀ f ∈ report.failures, f.fault.IsArithmetic := by
  rw [distributeOf, Action.bind_read] at done
  obtain ⟨most, -, done⟩ := Action.bind_lift_eq_ok done
  obtain ⟨report', z, done', clears⟩ := solvent.distribute idle after most
  rw [done] at done'
  cases done'
  intro f member
  rcases clears.overflow f member with none | overflow
  · cases none
  · exact overflow

end Requests

/-- The custody accounts of an exchange that pays from its own uncapped ledger, and that nobody else
takes from, can always pay: no operation fails on a transfer, and no payout run reports one. So what
becomes of a withdrawal is in the store alone: it takes a pool, a position and reserves that cover
it, checked in this order, and nothing else. -/
theorem custody_pays (entrusted : Program.Entrusted config x) :
    (∀ (r : Request) fault y, r.run .direct x = (.error fault, y) → fault.kind ≠ .transfer) ∧
      (∀ caller data fault y, call .direct caller data x = (.ok (.failed fault), y) →
        fault.kind ≠ .transfer) ∧
      (∀ after most report y, distributeOf .direct after most x = (.ok report, y) →
        ∀ f ∈ report.failures, f.fault.code? ≠ some "transfer") ∧
      ∀ who pair b q caller market base quote, callerOf config who = .ok caller →
        marketOfPair pair = .ok market → amountOf config "base_amount" b = .ok base →
        amountOf config "quote_amount" q = .ok quote →
        (withdrawOf .direct who pair b q x).1 = x.store.withdrawal caller market base quote := by
  obtain ⟨solvent, rfl, idle⟩ := solvent_of_entrusted entrusted
  refine ⟨fun r fault y failed => ?_, fun caller data fault y reported => ?_,
    fun after most report y done f member => ?_, fun who pair b q caller market base quote => ?_⟩
  · exact (unrefused_request solvent r).told failed
  · exact (ends_call solvent caller data).reached reported fault rfl
  · rw [Fault.code?, (overflow_of_distributeOf solvent idle done f member).kind]
    decide
  · intro named paired baseGiven quoteGiven
    rw [withdrawOf, Action.bind_read, named, paired, baseGiven, quoteGiven]
    exact (ends_withdraw solvent caller market base quote).outcome

theorem store_draining :
    (draining.run .direct narrowMorning).2.store.pool? ⟨0, 1⟩ = some ⟨6, 15, 0, 5⟩ ∧
      (draining.run .direct narrowMorning).2.store.position ⟨0, 1⟩ "alice" = ⟨10, 10⟩ := by
  decide +kernel

theorem withdrawal_after_draining :
    (withdrawOf .direct (.str "alice") (.tuple [.int 0, .int 1]) (.int 10) (.int 10)
        (draining.run .direct narrowMorning).2).1 =
      .error (.arithmetic (.underflow .sub (-4))) := by
  have caller : callerOf narrow (.str "alice") = .ok "alice" :=
    callerOf_eq_ok_iff.2 ⟨rfl, by decide, by decide +kernel⟩
  obtain ⟨pool, held⟩ := store_draining
  obtain ⟨-, -, -, outcome⟩ := custody_pays (entrusted_narrowMorning.run draining)
  rw [outcome _ _ _ _ "alice" ⟨0, 1⟩ 10 10 caller rfl rfl rfl, Store.withdrawal, pool]
  simp only [held]
  rfl

end Exchange

end LiquidityPools
