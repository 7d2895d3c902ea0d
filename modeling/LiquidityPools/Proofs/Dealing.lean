import LiquidityPools.Proofs.Body
import LiquidityPools.Proofs.Carrier

/-!
What the operations do, over a plain carrier: each success enters one deal in the books, and hands
over the deal's events.
-/

namespace LiquidityPools

variable {ρ α β : Type}

namespace Store

variable {s : Store} {market : Market} {provider : Account} {position : Position} {pool : Pool}

theorem revise_of_pool? (held : s.pool? market = some pool) (f : Pool → Pool) :
    s.revise market f = s.writePool market (f pool) (some pool) := by
  rw [revise, held]

theorem pool?_revise (s : Store) (market other : Market) (f : Pool → Pool) :
    (s.revise market f).pool? other =
      if other = market then (s.pool? market).map f else s.pool? other := by
  cases held : s.pool? market with
  | some pool =>
    rw [revise_of_pool? held, pool?_writePool]
    rfl
  | none =>
    have still : s.revise market f = s := by rw [revise, held]
    rw [still]
    split
    next here => rw [here, held]; rfl
    next => rfl

@[simp] theorem positionsOf_revise (s : Store) (market other : Market) (f : Pool → Pool) :
    (s.revise market f).positionsOf other = s.positionsOf other := by
  unfold revise
  split <;> rfl

theorem position_putPosition (s : Store) (market other : Market) (provider account : Account)
    (position : Position) :
    (s.putPosition market provider position).position other account =
      if (other, account) = (market, provider) then position else s.position other account := by
  rw [Store.position, position?_putPosition]
  split <;> rfl

theorem position_keepPosition (s : Store) (market other : Market) (provider account : Account)
    (position : Position) :
    (s.keepPosition market provider position).position other account =
      if (other, account) = (market, provider) then position else s.position other account := by
  unfold keepPosition
  split
  next skipped =>
    split
    next same =>
      cases same
      have empty : position.base = 0 ∧ position.quote = 0 := by
        simp_all [Position.isEmpty]
      have absent : s.position? market provider = none := by
        simp_all [hasPosition]
      rw [Store.position, absent, Option.getD_none]
      cases position
      simp_all [Position.empty]
    next => rfl
  next => exact s.position_putPosition market other provider account position

@[simp] theorem position?_revise (s : Store) (market other : Market) (f : Pool → Pool)
    (account : Account) :
    (s.revise market f).position? other account = s.position? other account := by
  unfold revise
  split <;> rfl

@[simp] theorem position_revise (s : Store) (market other : Market) (f : Pool → Pool)
    (account : Account) :
    (s.revise market f).position other account = s.position other account := by
  unfold revise
  split <;> rfl

@[simp] theorem pool?_keepPosition (s : Store) (market other : Market) (provider : Account)
    (position : Position) :
    (s.keepPosition market provider position).pool? other = s.pool? other := by
  unfold keepPosition
  split <;> rfl

theorem bare_writePool (held : s.pool? market = some pool) {f : Pool → Pool} {final : Pool}
    (changed : final = f pool) :
    (s.writePool market final (some pool)).bare = (s.bare.revise market f).bare := by
  have held' : s.bare.pool? market = some pool := held
  rw [revise_of_pool? held', changed]
  rfl

theorem bare_keepPosition {t : Store} (same : s.bare = t.bare) :
    (s.keepPosition market provider position).bare =
      (t.keepPosition market provider position).bare := by
  have known : s.hasPosition market provider = t.hasPosition market provider := by
    show s.bare.hasPosition market provider = t.bare.hasPosition market provider
    rw [same]
  have written : (s.putPosition market provider position).bare =
      (t.putPosition market provider position).bare := by
    show (s.bare.putPosition market provider position).bare =
      (t.bare.putPosition market provider position).bare
    rw [same]
  unfold keepPosition
  rw [known]
  split
  · exact same
  · exact written

end Store

def Fault.IsArgument (fault : Fault) : Prop := ∃ cause, fault = .argument cause

theorem Fault.IsArgument.kind {fault : Fault} (argument : fault.IsArgument) :
    fault.kind = .invalidArgument := by
  obtain ⟨cause, rfl⟩ := argument
  rfl

theorem Fault.IsArgument.kind_ne_transfer {fault : Fault} (argument : fault.IsArgument) :
    fault.kind ≠ .transfer := by
  rw [argument.kind]
  decide

theorem Fault.IsArgument.isOwn {fault : Fault} (argument : fault.IsArgument) :
    fault.isOwn = true := by
  rw [Fault.isOwn, code?, argument.kind]
  rfl

namespace Exchange

section Checks

variable {x y : Exchange ρ} {market : Market} {asset : Asset} {account : Account} {amount : Nat}

theorem failsOnly_callerOf {c : Config} {value : Value} :
    Except.FailsOnly (callerOf c value) Fault.IsArgument := by
  unfold callerOf
  split
  · split
    · exact .error ⟨_, rfl⟩
    · split
      · exact .error ⟨_, rfl⟩
      · exact .ok _
  · exact .error ⟨_, rfl⟩

theorem failsOnly_marketOf {base quote : Value} :
    Except.FailsOnly (marketOf base quote) Fault.IsArgument := by
  unfold marketOf
  cases Market.ofValues base quote with
  | error cause => exact .error ⟨_, rfl⟩
  | ok m => exact .ok m

theorem failsOnly_marketOfPair {value : Value} :
    Except.FailsOnly (marketOfPair value) Fault.IsArgument := by
  unfold marketOfPair
  split
  · exact failsOnly_marketOf
  · exact failsOnly_marketOf
  · exact .error ⟨_, rfl⟩

theorem failsOnly_amountOf {c : Config} {name : String} {value : Value} :
    Except.FailsOnly (amountOf c name value) Fault.IsArgument := by
  unfold amountOf
  split
  · split
    · exact .ok _
    · exact .error ⟨_, rfl⟩
  · exact .error ⟨_, rfl⟩

theorem callerOf_eq_ok_iff {c : Config} {value : Value} {caller : Account} :
    callerOf c value = .ok caller ↔ value = .str caller ∧ c.MayCall caller := by
  unfold callerOf Config.MayCall Config.IsOutside
  split
  next s =>
    split
    next empty =>
      simp only [reduceCtorEq, false_iff, Value.str.injEq]
      rintro ⟨rfl, named, -⟩
      exact named (by simpa using empty)
    next named =>
      split
      next custody =>
        simp only [reduceCtorEq, false_iff, Value.str.injEq]
        rintro ⟨rfl, -, notPool, notFee⟩
        exact custody.elim notPool notFee
      next outside =>
        simp only [Except.ok.injEq, Value.str.injEq]
        constructor
        · rintro rfl
          exact ⟨rfl, by simpa using named, not_or.1 outside⟩
        · exact fun h => h.1
  next other =>
    simp only [reduceCtorEq, false_iff]
    rintro ⟨rfl, -⟩
    exact other caller rfl

theorem marketOf_eq_ok_iff {base quote : Value} :
    marketOf base quote = .ok market ↔
      base = .int market.base ∧ quote = .int market.quote ∧ market.Valid := by
  rw [← Market.ofValues_eq_ok_iff, marketOf, Except.mapError_eq_ok_iff]

theorem valid_of_marketOf {base quote : Value} (done : marketOf base quote = .ok market) :
    market.Valid :=
  (marketOf_eq_ok_iff.1 done).2.2

theorem valid_of_marketOfPair {value : Value} (done : marketOfPair value = .ok market) :
    market.Valid := by
  unfold marketOfPair at done
  split at done
  · exact valid_of_marketOf done
  · exact valid_of_marketOf done
  · cases done

theorem amountOf_eq_ok_iff {c : Config} {name : String} {value : Value} {n : Nat} :
    amountOf c name value = .ok n ↔ value = .int n ∧ n ≤ c.cap := by
  unfold amountOf
  split
  next m =>
    split
    next inside =>
      simp only [Except.ok.injEq, Value.int.injEq]
      omega
    next outside =>
      simp only [reduceCtorEq, Value.int.injEq, false_iff]
      omega
  next other =>
    simp only [reduceCtorEq, false_iff]
    rintro ⟨rfl, -⟩
    exact other n rfl

theorem le_cap_of_amountOf {c : Config} {name : String} {value : Value} {n : Nat}
    (done : amountOf c name value = .ok n) : n ≤ c.cap :=
  (amountOf_eq_ok_iff.1 done).2

theorem Arguments.failsOnly_integer {args : Arguments} {name : String} {default : Value} :
    Except.FailsOnly (args.integer name default) Fault.IsArgument := by
  unfold Arguments.integer
  split
  · exact .ok _
  · exact .error ⟨_, rfl⟩

theorem Arguments.failsOnly_market {args : Arguments} :
    Except.FailsOnly args.market Fault.IsArgument := by
  unfold Arguments.market
  split
  · exact .ok _
  · exact .ok _
  · exact .error ⟨_, rfl⟩

end Checks

/-- `y` comes from `x` by committed deals. -/
structure Leads (x : Exchange ρ) (deals : List Deal) (y : Exchange ρ) : Prop where
  follows : x.Follows (deals.flatMap Deal.events) y
  run : x.books.Run x.config deals y.books

namespace Leads

variable {x y z : Exchange ρ} {first second : List Deal}

theorem refl (sound : x.Sound) : x.Leads [] x := ⟨.refl sound, .nil _⟩

theorem trans (earlier : x.Leads first y) (later : y.Leads second z) :
    x.Leads (first ++ second) z where
  follows := by
    rw [List.flatMap_append]
    exact earlier.follows.trans later.follows
  run := by
    have run := later.run
    rw [earlier.follows.config] at run
    exact earlier.run.append run

theorem withHost (leads : x.Leads first y) (host : ρ) : x.Leads first { y with host } :=
  ⟨leads.follows.withHost host, leads.run⟩

end Leads

section Units

variable {body : Action (Exchange ρ) α} {x y : Exchange ρ} {a : α}

theorem unit_eq_ok (journaled : Journaled body) (sound : x.Sound)
    (done : unit body x = (.ok a, y)) :
    ∃ events z, body x.opened = (.ok a, z) ∧ x.opened.Above events z ∧ y = x.closed z events := by
  obtain ⟨⟨b, collected⟩, ended, rfl⟩ := Action.map_eq_ok done
  obtain ⟨events, above, ⟨fault, -, failed⟩ | ⟨a, finished, closed⟩⟩ := journaled.collect sound
  · rw [failed] at ended
    cases ended
  · rw [closed] at ended
    cases ended
    refine ⟨_, (body x.opened).2, ?_, above, rfl⟩
    rw [← finished]

theorem books_closed (x y : Exchange ρ) (events : List Event) :
    (x.closed y events).books = y.books := by
  unfold closed deliver
  dsimp only
  split <;> split <;> rfl

/-- `y` comes from `x` by entering one deal in the books and handing over its events. -/
structure Enters (x : Exchange ρ) (deal : Deal) (y : Exchange ρ) : Prop where
  taken : x.books.Takes x.config deal y.books
  told : y.openUnits = x.openUnits.modifyHead (· ++ deal.events)

theorem leads_unit (journaled : Journaled body) (sound : x.Sound) {deal : Deal}
    (enters : ∀ z, body x.opened = (.ok a, z) → x.opened.Enters deal z)
    (done : unit body x = (.ok a, y)) : x.Leads [deal] y := by
  obtain ⟨events, z, finished, above, rfl⟩ := unit_eq_ok journaled sound done
  obtain ⟨taken, told⟩ := enters z finished
  have same : events = deal.events := by
    have units : z.openUnits = events :: x.openUnits := above.openUnits
    have told : z.openUnits = deal.events :: x.openUnits := told
    rw [told] at units
    exact (List.cons.inj units).1.symm
  constructor
  · rw [List.flatMap_singleton, ← same]
    exact .of_opened above
  · rw [books_closed]
    exact .one taken

end Units

def moved (x : Exchange ρ) (l : Ledger) (host : ρ) : Exchange ρ := { x with ledger := l, host }

section Plain

variable {carrier : Carrier ρ} {x y z : Exchange ρ}

theorem sent_of_plain (plain : carrier.Plain) (sound : x.Sound) {movements : List Movement}
    (sent : sendAll carrier movements x = (.ok (), z)) :
    ∃ l host, x.ledger.balances.moveAll movements = .ok l.balances ∧ z = x.moved l host ∧
      z.Sound := by
  induction movements generalizing x with
  | nil =>
    cases sent
    exact ⟨_, _, rfl, rfl, sound⟩
  | cons m rest ih =>
    obtain ⟨⟨⟩, u, first, onward⟩ := Action.bind_eq_ok sent
    obtain ⟨l, host, moved, rfl⟩ := plain.carried sound first
    have soundMoved : (x.moved l host).Sound :=
      ⟨sound.store, (Ledger.move_effect sound.ledger moved).1⟩
    obtain ⟨l', host', movedRest, rfl, sound'⟩ := ih soundMoved onward
    exact ⟨l', host', Balances.moveAll_cons (Balances.move_of_ledger moved) movedRest, rfl, sound'⟩

variable {deal : Deal} {found left final : Pool} {put : Store → Store}

/-- Over a plain carrier, a body writes over the pool that it read. -/
theorem Replaces.enters (plain : carrier.Plain) (sound : x.Sound)
    (made : Replaces carrier x deal found left final put z y)
    (allowed : deal.Allowed x.config x.books.store)
    (written : (put (x.store.writePool deal.market final (some found))).bare =
      deal.write x.books.store) : x.Enters deal y := by
  obtain ⟨l, host, moved, rfl, -⟩ := sent_of_plain plain sound made.sent
  have same : left = found := Option.some.inj (made.meets.symm.trans made.reads)
  rw [made.writes, same]
  exact ⟨⟨allowed, written, moved⟩, rfl⟩

variable {caller : Account} {market : Market} {base quote : Nat}

theorem enters_openPool (plain : carrier.Plain) (sound : x.Sound)
    (may : x.config.MayCall caller) (valid : market.Valid)
    (baseFits : 0 < base ∧ base ≤ x.config.cap) (quoteFits : 0 < quote ∧ quote ≤ x.config.cap)
    {pool : Pool} (done : openPool carrier caller market base quote x = (.ok pool, y)) :
    x.Enters (.opened caller market base quote) y := by
  obtain ⟨fresh, z, sent, -, rfl⟩ := openPool_eq_ok done
  obtain ⟨l, host, moved, rfl, -⟩ := sent_of_plain plain sound sent
  exact ⟨⟨⟨may, valid, baseFits, quoteFits, fresh⟩, rfl, moved⟩, rfl⟩

theorem enters_addLiquidity (plain : carrier.Plain) (sound : x.Sound)
    (may : x.config.MayCall caller) (valid : market.Valid) {position : Position}
    (done : addLiquidity carrier caller market base quote x = (.ok position, y)) :
    x.Enters (.added caller market base quote) y := by
  obtain ⟨rfl, heldFits, found, left, z, fits, made⟩ := addLiquidity_eq_ok done
  refine made.enters plain sound ⟨may, valid, found, made.reads, fits, heldFits⟩ ?_
  exact Store.bare_keepPosition (Store.bare_writePool made.reads rfl)

theorem enters_removeLiquidity (plain : carrier.Plain) (sound : x.Sound)
    (may : x.config.MayCall caller) (valid : market.Valid) {position : Position}
    (done : removeLiquidity carrier caller market base quote x = (.ok position, y)) :
    x.Enters (.withdrawn caller market base quote) y := by
  obtain ⟨rfl, covered, found, left, z, enough, made⟩ := removeLiquidity_eq_ok done
  refine made.enters plain sound ⟨may, valid, found, made.reads, enough, covered⟩ ?_
  exact Store.bare_keepPosition (Store.bare_writePool made.reads rfl)

theorem enters_swap (plain : carrier.Plain) (sound : x.Sound) (may : x.config.MayCall caller)
    (valid : market.Valid) {side : Side} {amount least : Nat} (fits : amount ≤ x.config.cap)
    {quote : Quote} (done : swap carrier side caller market amount least x = (.ok quote, y)) :
    x.Enters (.traded caller market amount quote) y := by
  obtain ⟨found, left, z, price, -, -, feesFit, made⟩ := swap_eq_ok done
  refine made.enters plain sound ⟨may, valid, fits, found, made.reads, price, feesFit⟩ ?_
  exact Store.bare_writePool made.reads rfl

end Plain

end Exchange

end LiquidityPools
