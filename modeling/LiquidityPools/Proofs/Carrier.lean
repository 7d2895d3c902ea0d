import LiquidityPools.Exchange.Call
import LiquidityPools.Payout
import LiquidityPools.Proofs.Commit

/-!
Operations over a carrier. If what the carrier does inside a unit can be taken back, then every
operation commits in an orderly way, and fails as a whole: creating, adding, taking out, trading,
settling and calling. A plain carrier, which moves the asset on the exchange's own ledger or
refuses, is of that kind.
-/

namespace LiquidityPools

variable {ρ : Type}

namespace Carrier

open Exchange

/-- What the carrier does inside a unit can be taken back. -/
def Journaled (carrier : Carrier ρ) : Prop :=
  ∀ asset source dest amount, Exchange.Journaled (carrier.transfer asset source dest amount)

/-- The carrier moves the asset on the exchange's own ledger or refuses to. It may remember what it
has seen and decide by that, but touches nothing else of the exchange. -/
def Plain (carrier : Carrier ρ) : Prop :=
  ∀ asset source dest amount, ∀ x : Exchange ρ, ∃ host : ρ,
    (∃ cause, carrier.transfer asset source dest amount x =
        (.error (.transfer cause), { x with host })) ∨
      carrier.transfer asset source dest amount x =
        direct.transfer asset source dest amount { x with host }

theorem plain_direct : (direct : Carrier ρ).Plain := fun _ _ _ _ x => ⟨x.host, .inr rfl⟩

theorem plain_refusing (refuses : Refusal) : (refusing refuses : Carrier ρ).Plain := by
  intro asset source dest amount x
  refine ⟨x.host, ?_⟩
  simp only [refusing]
  split
  · exact .inl ⟨_, rfl⟩
  · exact .inr rfl

variable {carrier : Carrier ρ} {x y : Exchange ρ} {asset : Asset} {source dest : Account}
  {amount : Nat}

theorem Plain.outcome (plain : carrier.Plain) (sound : x.Sound) (asset : Asset)
    (source dest : Account) (amount : Nat) :
    ∃ host, (∃ cause, carrier.transfer asset source dest amount x =
          (.error (.transfer cause), { x with host })) ∨
        ∃ l, x.ledger.move asset source dest amount = .ok l ∧
          carrier.transfer asset source dest amount x = (.ok (), { x with ledger := l, host }) := by
  obtain ⟨host, refused | direct⟩ := plain asset source dest amount x
  · exact ⟨host, .inl refused⟩
  · refine ⟨host, ?_⟩
    rw [direct]
    simp only [Carrier.direct, Lens.change, ledgerPlace]
    cases moved : x.ledger.move asset source dest amount with
    | error fault =>
      obtain ⟨cause, rfl⟩ := Ledger.fault_of_move sound.ledger moved
      exact .inl ⟨cause, rfl⟩
    | ok l => exact .inr ⟨l, rfl, rfl⟩

theorem Plain.journaled (plain : carrier.Plain) : carrier.Journaled := by
  intro asset source dest amount x sound _
  refine ⟨[], ?_⟩
  obtain ⟨host, ⟨cause, refused⟩ | ⟨l, moved, done⟩⟩ :=
    plain.outcome sound asset source dest amount
  · rw [refused]
    exact (Above.refl sound).withHost host
  · rw [done]
    obtain ⟨soundLedger, above, -⟩ := Ledger.move_effect sound.ledger moved
    exact { Above.refl sound with ledger := above, sound := ⟨sound.store, soundLedger⟩ }

theorem Plain.carried (plain : carrier.Plain) (sound : x.Sound)
    (done : carrier.transfer asset source dest amount x = (.ok (), y)) :
    ∃ l host, x.ledger.move asset source dest amount = .ok l ∧
      y = { x with ledger := l, host } := by
  obtain ⟨host, ⟨cause, refused⟩ | ⟨l, moved, carried⟩⟩ :=
    plain.outcome sound asset source dest amount
  · rw [refused] at done
    cases done
  · rw [carried] at done
    cases done
    exact ⟨l, host, moved, rfl⟩

end Carrier

namespace Exchange

variable {carrier : Carrier ρ} (journaled : carrier.Journaled)

section Liquidity

variable (caller : Account) (market : Market) (base quote : Nat)

include journaled

theorem journaled_openPool : Journaled (openPool carrier caller market base quote) := by
  refine (journaled_read _).bind fun taken => ?_
  dsimp only
  split
  · exact journaled_fail _
  refine (journaled_requireBalance _ _ _).bind fun _ => ?_
  refine (journaled_requireBalance _ _ _).bind fun _ => ?_
  refine (journaled_read _).bind fun custody => ?_
  refine (journaled _ _ _ _).bind fun _ => ?_
  refine (journaled _ _ _ _).bind fun _ => ?_
  refine (journaled_insertPool _ _).bind fun _ => ?_
  refine (journaled_recordPosition _ _ _).bind fun _ => ?_
  exact (journaled_emit _).bind fun _ => journaled_pure _

theorem journaled_addLiquidity : Journaled (addLiquidity carrier caller market base quote) := by
  refine (journaled_requirePool _).bind fun pool => ?_
  refine (journaled_requireBalance _ _ _).bind fun _ => ?_
  refine (journaled_requireBalance _ _ _).bind fun _ => ?_
  refine (journaled_read _).bind fun cap => ?_
  refine (journaled_lift _).bind fun baseReserve => ?_
  refine (journaled_lift _).bind fun quoteReserve => ?_
  refine (journaled_read _).bind fun held => ?_
  refine (journaled_lift _).bind fun baseHeld => ?_
  refine (journaled_lift _).bind fun quoteHeld => ?_
  refine (journaled_read _).bind fun custody => ?_
  refine (journaled _ _ _ _).bind fun _ => ?_
  refine (journaled _ _ _ _).bind fun _ => ?_
  refine (journaled_putPool _ _).bind fun _ => ?_
  refine (journaled_putPosition _ _ _).bind fun _ => ?_
  exact (journaled_emit _).bind fun _ => journaled_pure _

theorem journaled_removeLiquidity :
    Journaled (removeLiquidity carrier caller market base quote) := by
  refine (journaled_requirePool _).bind fun pool => ?_
  refine (journaled_read _).bind fun held => ?_
  dsimp only
  split
  · exact journaled_fail _
  refine (journaled_read _).bind fun cap => ?_
  refine (journaled_lift _).bind fun baseHeld => ?_
  refine (journaled_lift _).bind fun quoteHeld => ?_
  refine (journaled_lift _).bind fun baseReserve => ?_
  refine (journaled_lift _).bind fun quoteReserve => ?_
  refine (journaled_read _).bind fun custody => ?_
  refine (journaled _ _ _ _).bind fun _ => ?_
  refine (journaled _ _ _ _).bind fun _ => ?_
  refine (journaled_putPool _ _).bind fun _ => ?_
  refine (journaled_putPosition _ _ _).bind fun _ => ?_
  exact (journaled_emit _).bind fun _ => journaled_pure _

theorem journaled_swap (side : Side) (amount least : Nat) :
    Journaled (swap carrier side caller market amount least) := by
  refine (journaled_requirePool _).bind fun pool => ?_
  refine (journaled_requireBalance _ _ _).bind fun _ => ?_
  refine (journaled_read _).bind fun config => ?_
  refine (journaled_lift _).bind fun quote => ?_
  dsimp only
  split
  · exact journaled_fail _
  refine (journaled_lift _).bind fun collected => ?_
  refine (journaled _ _ _ _).bind fun _ => ?_
  refine (journaled _ _ _ _).bind fun _ => ?_
  refine (journaled _ _ _ _).bind fun _ => ?_
  refine (journaled_putPool _ _).bind fun _ => ?_
  exact (journaled_emit _).bind fun _ => journaled_pure _

end Liquidity

section Payout

include journaled

theorem journaled_payProvider (market : Market) (pool : Pool) (weights : Nat × Nat)
    (provider : Account) (position : Position) (tally : Payout.Tally) :
    Journaled (payProvider carrier market pool weights provider position tally) := by
  refine (journaled_read _).bind fun config => ?_
  refine (journaled_lift _).bind fun base => ?_
  refine (journaled_lift _).bind fun quote => ?_
  split
  · exact journaled_pure _
  refine (journaled _ _ _ _).bind fun _ => ?_
  refine (journaled _ _ _ _).bind fun _ => ?_
  refine (journaled_lift _).bind fun paidBase => ?_
  refine (journaled_lift _).bind fun paidQuote => ?_
  exact (journaled_emit _).bind fun _ => journaled_pure _

theorem journaled_payProviders (market : Market) (pool : Pool) (weights : Nat × Nat) (bound : Nat)
    (walk : Walk) (tally : Payout.Tally) :
    Journaled (payProviders carrier market pool weights bound walk tally) := by
  induction bound generalizing walk tally with
  | zero => exact journaled_pure tally
  | succ bound ih =>
    refine (journaled_read _).bind fun ahead => ?_
    cases ahead with
    | none => exact journaled_pure tally
    | some item =>
      exact (journaled_payProvider journaled market pool weights _ _ tally).bind fun tally =>
        ih item.2 tally

theorem journaled_payOut (market : Market) : Journaled (payOut carrier market) := by
  refine (journaled_lift _).bind fun market => ?_
  refine (journaled_requirePool _).bind fun pool => ?_
  refine (journaled_read _).bind fun config => ?_
  refine (journaled_read _).bind fun positions => ?_
  refine (journaled_lift _).bind fun totals => ?_
  refine (journaled_payProviders journaled _ _ _ _ _ _).bind fun tally => ?_
  refine (journaled_lift _).bind fun baseDust => ?_
  refine (journaled_lift _).bind fun quoteDust => ?_
  exact (journaled_putPool _ _).bind fun _ => journaled_pure _

theorem allOrNothing_settle (market : Market) : AllOrNothing (settle carrier market) :=
  allOrNothing_unit (journaled_payOut journaled market)

/-- The exchange while it settles a market. -/
def taking (market : Market) (x : Exchange ρ) : Exchange ρ :=
  { x with inFlight := market :: x.inFlight }

omit journaled in
theorem Sound.taking {x : Exchange ρ} (sound : x.Sound) (market : Market) :
    (x.taking market).Sound :=
  ⟨sound.store, sound.ledger⟩

omit journaled in
theorem Follows.landed {x y : Exchange ρ} {events : List Event} {market : Market}
    (follows : (x.taking market).Follows events y) :
    x.Follows events { y with inFlight := x.inFlight } :=
  ⟨follows.config, rfl, follows.log.trans (by rw [log_deliver, log_deliver]; rfl),
    follows.openUnits.trans (by rw [openUnits_deliver, openUnits_deliver]; rfl), follows.depth,
    follows.nested, follows.outermost, follows.sound.store, follows.sound.ledger⟩

omit journaled in
theorem filter_taking {market : Market} {flight : List Market} (fresh : market ∉ flight) :
    (market :: flight).filter (· ≠ market) = flight := by
  rw [List.filter_cons_of_neg (by simp), List.filter_eq_self]
  intro other member
  simpa using fun same : other = market => fresh (same ▸ member)

theorem settleInFlight_eq {x y : Exchange ρ} (sound : x.Sound) {market : Market}
    (fresh : market ∉ x.inFlight) {outcome : Except Fault (List Payout × Nat × Nat)}
    (settled : settle carrier market (x.taking market) = (outcome, y)) :
    settleInFlight carrier market x = (.ok outcome, { y with inFlight := x.inFlight }) := by
  obtain ⟨events, follows⟩ := (allOrNothing_settle journaled market).orderly _ (sound.taking market)
  have flight : y.inFlight = market :: x.inFlight := by
    rw [settled] at follows
    exact follows.inFlight
  have started : settle carrier market { x with inFlight := market :: x.inFlight } = (outcome, y) :=
    settled
  simp only [settleInFlight, Action.bind_apply, Action.modify_apply, Action.attempt, started,
    Action.pure_apply, flight, filter_taking fresh]

theorem follows_settleInFlight {x y : Exchange ρ} (sound : x.Sound) {market : Market}
    {outcome : Except Fault (List Payout × Nat × Nat)}
    (settled : settle carrier market (x.taking market) = (outcome, y)) :
    ∃ events, x.Follows events { y with inFlight := x.inFlight } := by
  obtain ⟨events, follows⟩ := (allOrNothing_settle journaled market).orderly _ (sound.taking market)
  rw [settled] at follows
  exact ⟨events, follows.landed⟩

theorem follows_settleAll (markets : List Market) (report : Payout.Report) {x : Exchange ρ}
    (sound : x.Sound) (fresh : ∀ m ∈ markets, m ∉ x.inFlight) :
    ∃ events, x.Follows events (settleAll carrier markets report x).2 := by
  induction markets generalizing report x with
  | nil => exact ⟨[], .refl sound⟩
  | cons market rest ih =>
    cases settled : settle carrier market (x.taking market) with
    | mk outcome y =>
      obtain ⟨events, follows⟩ := follows_settleInFlight journaled sound settled
      have onward := fun report => ih report follows.sound fun m member =>
        fresh m (List.mem_cons_of_mem _ member)
      have flight := settleInFlight_eq journaled sound (fresh market List.mem_cons_self) settled
      rw [settleAll, Action.bind_ok flight]
      cases outcome with
      | ok paid =>
        obtain ⟨more, later⟩ := onward _
        exact ⟨events ++ more, follows.trans later⟩
      | error fault =>
        dsimp only
        split
        · obtain ⟨more, later⟩ := onward _
          exact ⟨events ++ more, follows.trans later⟩
        · exact ⟨events, follows⟩

theorem orderly_distribute (after : Option Market) (most : Option Nat) :
    Orderly (distribute carrier after most) := by
  intro x sound
  simp only [distribute, Action.bind_apply, Action.read_apply]
  split
  next => exact ⟨[], .refl sound⟩
  next idle =>
    have fresh : ∀ m ∈ batchOf (x.pendingMarkets after) most, m ∉ x.inFlight := by
      simpa using idle
    obtain ⟨events, follows⟩ := follows_settleAll journaled _ {} sound fresh
    refine ⟨events, ?_⟩
    simp only [Action.bind_apply]
    split <;> simp_all

theorem orderly_distributeOf (after : Option Market) (most : Value) :
    Orderly (distributeOf carrier after most) := by
  refine (orderly_of_same fun _ => rfl).bind fun config => ?_
  exact (orderly_of_same fun _ => rfl).bind fun most => orderly_distribute journaled after most

theorem orderly_distributeOrFail (after : Option Market) (most : Value) :
    Orderly (distributeOrFail carrier after most) := by
  refine (orderly_distributeOf journaled after most).bind fun report => ?_
  split
  · exact orderly_pure report
  · exact orderly_fail _

end Payout

section Untyped

include journaled

theorem allOrNothing_createOf (caller base quote baseAmount quoteAmount : Value) :
    AllOrNothing (createOf carrier caller base quote baseAmount quoteAmount) := by
  refine .after (fun _ => rfl) fun config => ?_
  refine .after (fun _ => rfl) fun caller => ?_
  refine .after (fun _ => rfl) fun market => ?_
  refine .after (fun _ => rfl) fun b => ?_
  refine .after (fun _ => rfl) fun q => ?_
  dsimp only
  split
  · exact allOrNothing_fail _
  · exact allOrNothing_unit (journaled_openPool journaled caller market b q)

theorem allOrNothing_depositOf (caller market baseAmount quoteAmount : Value) :
    AllOrNothing (depositOf carrier caller market baseAmount quoteAmount) := by
  refine .after (fun _ => rfl) fun config => ?_
  refine .after (fun _ => rfl) fun caller => ?_
  refine .after (fun _ => rfl) fun market => ?_
  refine .after (fun _ => rfl) fun b => ?_
  refine .after (fun _ => rfl) fun q => ?_
  exact allOrNothing_unit (journaled_addLiquidity journaled caller market b q)

theorem allOrNothing_withdrawOf (caller market baseAmount quoteAmount : Value) :
    AllOrNothing (withdrawOf carrier caller market baseAmount quoteAmount) := by
  refine .after (fun _ => rfl) fun config => ?_
  refine .after (fun _ => rfl) fun caller => ?_
  refine .after (fun _ => rfl) fun market => ?_
  refine .after (fun _ => rfl) fun b => ?_
  refine .after (fun _ => rfl) fun q => ?_
  exact allOrNothing_unit (journaled_removeLiquidity journaled caller market b q)

theorem allOrNothing_tradeOf (side : Side) (caller market amount least : Value) :
    AllOrNothing (tradeOf carrier side caller market amount least) := by
  refine .after (fun _ => rfl) fun config => ?_
  refine .after (fun _ => rfl) fun caller => ?_
  refine .after (fun _ => rfl) fun market => ?_
  refine .after (fun _ => rfl) fun amount => ?_
  refine .after (fun _ => rfl) fun least => ?_
  exact allOrNothing_unit (journaled_swap journaled caller market side amount least)

theorem orderly_perform (caller : Value) (args : Arguments) (name : CallName) :
    Orderly (perform carrier caller args name) := by
  have look {α : Type} (outcome : Except Fault α) :
      Orderly (liftM outcome : Action (Exchange ρ) α) := orderly_of_same fun _ => rfl
  cases name with
  | createMarketPool =>
    refine (look _).bind fun base => (look _).bind fun quote => ?_
    refine (look _).bind fun baseAmount => (look _).bind fun quoteAmount => ?_
    exact (allOrNothing_createOf journaled ..).orderly.map _
  | depositLiquidity =>
    refine (look _).bind fun market => ?_
    refine (look _).bind fun baseAmount => (look _).bind fun quoteAmount => ?_
    exact (allOrNothing_depositOf journaled ..).orderly.map _
  | withdrawLiquidity =>
    refine (look _).bind fun market => ?_
    refine (look _).bind fun baseAmount => (look _).bind fun quoteAmount => ?_
    exact (allOrNothing_withdrawOf journaled ..).orderly.map _
  | buy =>
    refine (look _).bind fun market => (look _).bind fun amount => (look _).bind fun least => ?_
    exact (allOrNothing_tradeOf journaled ..).orderly.map _
  | sell =>
    refine (look _).bind fun market => (look _).bind fun amount => (look _).bind fun least => ?_
    exact (allOrNothing_tradeOf journaled ..).orderly.map _

theorem allOrNothing_callOrFail (caller call : Value) :
    AllOrNothing (callOrFail carrier caller call) := by
  unfold callOrFail
  split
  next args =>
    split
    next text =>
      split
      · exact (allOrNothing_collect (orderly_perform journaled _ _ _).journaled).map _
      · exact allOrNothing_fail _
    · exact allOrNothing_fail _
  · exact allOrNothing_fail _

theorem allOrNothing_call (caller call : Value) :
    AllOrNothing (Exchange.call carrier caller call) where
  orderly := by
    refine (allOrNothing_callOrFail journaled caller call).orderly.attempt.bind fun outcome => ?_
    cases outcome with
    | ok events => exact orderly_pure _
    | error fault =>
      dsimp only
      split
      · exact orderly_pure _
      · exact orderly_fail fault
  whole := by
    intro x sound fault y failed
    have whole := (allOrNothing_callOrFail journaled caller call).whole x sound
    rw [Exchange.call, Action.bind_apply] at failed
    simp only [Action.attempt] at failed
    cases h : callOrFail carrier caller call x with
    | mk outcome z =>
      rw [h] at failed
      cases outcome with
      | ok events => cases failed
      | error cause =>
        simp only at failed
        split at failed
        · cases failed
        · cases failed
          exact whole fault y h

end Untyped

end Exchange

end LiquidityPools
