import LiquidityPools.Proofs.Ends
import LiquidityPools.Proofs.Walk

/-!
Settlements over a plain carrier. The walk pays every recorded provider what is due to it, in order,
and leaves the store alone, so that the settlement of a market is one deal. Whatever stops it is one
of the exchange's own faults.
-/

namespace LiquidityPools

variable {ρ α β : Type}

namespace Payout

variable {cap : Int} {collected contributed weight n : Nat}

theorem share_eq (done : share cap collected contributed weight = .ok n) :
    n = collected * contributed / weight := by
  unfold share at done
  split at done
  next nothing =>
    cases done
    rcases nothing with rfl | rfl | rfl
    · rw [Nat.zero_mul, Nat.zero_div]
    · rw [Nat.mul_zero, Nat.zero_div]
    · rw [Nat.div_zero]
  next => exact (Amount.mulDiv_eq_ok_iff.1 done).2.1

theorem failsOnly_share :
    Except.FailsOnly (share cap collected contributed weight) Fault.IsArithmetic := by
  unfold share
  split
  · exact .ok 0
  · exact Amount.failsOnly_mulDiv

theorem share_of_fits (fits : ((collected * contributed / weight : Nat) : Int) ≤ cap) :
    share cap collected contributed weight = .ok (collected * contributed / weight) := by
  cases done : share cap collected contributed weight with
  | ok n => rw [share_eq done]
  | error fault =>
    unfold share at done
    split at done
    next => cases done
    next something =>
      have weighed : weight ≠ 0 := fun none => something (.inr (.inr none))
      rw [Amount.mulDiv_eq_ok_iff.2 ⟨weighed, rfl, fits⟩] at done
      cases done

theorem addContribution_eq_ok_iff {sums next : Nat × Nat} {item : Account × Position} :
    addContribution cap sums item = .ok next ↔
      next = (sums.1 + item.2.base, sums.2 + item.2.quote) ∧ (next.1 : Int) ≤ cap ∧
        (next.2 : Int) ≤ cap := by
  constructor
  · intro done
    obtain ⟨base, baseSum, done⟩ := Except.bind_eq_ok done
    obtain ⟨quote, quoteSum, done⟩ := Except.bind_eq_ok done
    cases done
    obtain ⟨rfl, baseFits⟩ := Amount.add_eq_ok_iff.1 baseSum
    obtain ⟨rfl, quoteFits⟩ := Amount.add_eq_ok_iff.1 quoteSum
    exact ⟨rfl, baseFits, quoteFits⟩
  · rintro ⟨rfl, baseFits, quoteFits⟩
    rw [addContribution, Amount.add_eq_ok_iff.2 ⟨rfl, baseFits⟩,
      Amount.add_eq_ok_iff.2 ⟨rfl, quoteFits⟩]
    rfl

theorem failsOnly_addContribution {sums : Nat × Nat} {item : Account × Position} :
    Except.FailsOnly (addContribution cap sums item) Fault.IsArithmetic :=
  Amount.failsOnly_bounded.bind fun _ => Amount.failsOnly_bounded.bind fun _ => .ok _

/-- All contributions, on top of what was summed before. The sums only grow, so all of them fit if
the last ones do. -/
theorem foldlM_addContribution_eq_ok_iff {positions : List (Account × Position)}
    {start sums : Nat × Nat} (room : (start.1 : Int) ≤ cap ∧ (start.2 : Int) ≤ cap) :
    positions.foldlM (addContribution cap) start = .ok sums ↔
      sums = (start.1 + (positions.map (·.2.base)).sum, start.2 + (positions.map (·.2.quote)).sum) ∧
        (sums.1 : Int) ≤ cap ∧ (sums.2 : Int) ≤ cap := by
  induction positions generalizing start with
  | nil =>
    constructor
    · intro done
      cases done
      exact ⟨rfl, room⟩
    · rintro ⟨rfl, -⟩
      rfl
  | cons item rest ih =>
    rw [List.foldlM_cons]
    simp only [List.map_cons, List.sum_cons, ← Nat.add_assoc]
    constructor
    · intro done
      obtain ⟨next, step, done⟩ := Except.bind_eq_ok done
      obtain ⟨rfl, fits⟩ := addContribution_eq_ok_iff.1 step
      exact (ih fits).1 done
    · rintro ⟨rfl, fits⟩
      have step : addContribution cap start item =
          .ok (start.1 + item.2.base, start.2 + item.2.quote) :=
        addContribution_eq_ok_iff.2 ⟨rfl, by omega, by omega⟩
      rw [step]
      exact (ih ⟨by omega, by omega⟩).2 ⟨rfl, fits⟩

theorem totals_eq_ok_iff {cap : Nat} {positions : List (Account × Position)} {sums : Nat × Nat} :
    totals cap positions = .ok sums ↔
      sums = ((positions.map (·.2.base)).sum, (positions.map (·.2.quote)).sum) ∧ sums.1 ≤ cap ∧
        sums.2 ≤ cap := by
  have room : ((0 : Nat) : Int) ≤ cap := Int.natCast_nonneg cap
  rw [totals, foldlM_addContribution_eq_ok_iff ⟨room, room⟩, Nat.zero_add, Nat.zero_add,
    Int.ofNat_le, Int.ofNat_le]

theorem failsOnly_foldlM {positions : List (Account × Position)} {start : Nat × Nat} :
    Except.FailsOnly (positions.foldlM (addContribution cap) start) Fault.IsArithmetic := by
  induction positions generalizing start with
  | nil => exact .ok start
  | cons item rest ih =>
    rw [List.foldlM_cons]
    exact failsOnly_addContribution.bind fun _ => ih

def Tally.plus (tally : Tally) (paid : List Payout) : Tally :=
  ⟨tally.base + totalBase paid, tally.quote + totalQuote paid, tally.payouts ++ paid⟩

theorem Tally.plus_nil (tally : Tally) : tally.plus [] = tally := by
  simp [plus, totalBase, totalQuote]

theorem Tally.empty_plus (paid : List Payout) :
    Tally.plus {} paid = ⟨totalBase paid, totalQuote paid, paid⟩ := by
  simp [plus]

theorem Tally.plus_append (tally : Tally) (first second : List Payout) :
    tally.plus (first ++ second) = (tally.plus first).plus second := by
  simp [plus, totalBase, totalQuote, Nat.add_assoc]

theorem due_single (market : Market) (pool : Pool) (weights : Nat × Nat) (provider : Account)
    (position : Position) :
    due market pool weights [(provider, position)] =
      let base := pool.baseFees * position.base / weights.1
      let quote := pool.quoteFees * position.quote / weights.2
      if base = 0 ∧ quote = 0 then [] else [⟨market, provider, base, quote⟩] := by
  simp only [due, List.filterMap_cons, List.filterMap_nil]
  split
  next none => rw [if_pos (by split at none <;> trivial)]
  next some =>
    split at some
    next => cases some
    next something =>
      cases some
      rw [if_neg something]

theorem due_cons (market : Market) (pool : Pool) (weights : Nat × Nat) (item : Account × Position)
    (rest : List (Account × Position)) :
    due market pool weights (item :: rest) =
      due market pool weights [item] ++ due market pool weights rest := by
  rw [due, due, due, ← List.filterMap_append, List.singleton_append]

end Payout

namespace Exchange

section Yields

def Yields (m : Action (Exchange ρ) α) (x : Exchange ρ) (ends : α → Exchange ρ → Prop) : Prop :=
  (∃ fault y, m x = (.error fault, y) ∧ fault.isOwn = true) ∨ ∃ a y, m x = (.ok a, y) ∧ ends a y

variable {m : Action (Exchange ρ) α} {f : α → Action (Exchange ρ) β} {x : Exchange ρ}
  {first : α → Exchange ρ → Prop} {last : β → Exchange ρ → Prop}

theorem Yields.bind (earlier : Yields m x first) (later : ∀ a y, first a y → Yields (f a) y last) :
    Yields (m >>= f) x last := Ends.bind earlier later

theorem yields_pure {a : α} (reached : first a x) : Yields (pure a) x first := Ends.pure reached

theorem Yields.read {g : Exchange ρ → α} (later : Yields (f (g x)) x last) :
    Yields (Action.read g >>= f) x last := later

theorem Yields.lift {outcome : Except Fault α}
    (own : ∀ fault, outcome = .error fault → fault.isOwn = true)
    (later : ∀ a, outcome = .ok a → Yields (f a) x last) :
    Yields ((liftM outcome : Action (Exchange ρ) α) >>= f) x last := Ends.lift own later

theorem Yields.compute {outcome : Except Fault α}
    (arithmetic : Except.FailsOnly outcome Fault.IsArithmetic)
    (later : ∀ a, outcome = .ok a → Yields (f a) x last) :
    Yields ((liftM outcome : Action (Exchange ρ) α) >>= f) x last :=
  .lift (fun fault failed => (arithmetic fault failed).isOwn) later

theorem Yields.transfer {carrier : Carrier ρ} {asset : Asset} {source dest : Account} {amount : Nat}
    {g : Unit → Action (Exchange ρ) β} (plain : carrier.Plain) (sound : x.Sound)
    (later : ∀ l host, x.ledger.balances.move ⟨asset, source, dest, amount⟩ = .ok l.balances →
      (x.moved l host).Sound → Yields (g ()) (x.moved l host) last) :
    Yields (carrier.transfer asset source dest amount >>= g) x last :=
  Ends.transfer plain sound (fun _ => rfl) later

theorem Yields.requirePool {market : Market} {g : Pool → Action (Exchange ρ) β}
    (later : ∀ pool, x.store.pool? market = some pool → Yields (g pool) x last) :
    Yields (requirePool market >>= g) x last := Ends.requirePool (fun _ => rfl) later

end Yields

structure Pays (x : Exchange ρ) (paid : List Payout) (y : Exchange ρ) : Prop where
  store : y.store = x.store
  config : y.config = x.config
  told : y.openUnits = x.openUnits.modifyHead (· ++ paid.map Payout.event)
  moved : x.ledger.balances.moveAll (paid.flatMap (Payout.movements x.config)) =
    .ok y.ledger.balances
  sound : y.Sound

namespace Pays

variable {x y z : Exchange ρ} {first second : List Payout}

theorem refl (sound : x.Sound) : x.Pays [] x where
  store := rfl
  config := rfl
  told := by cases x.openUnits <;> simp
  moved := rfl
  sound

theorem trans (earlier : x.Pays first y) (later : y.Pays second z) :
    x.Pays (first ++ second) z where
  store := later.store.trans earlier.store
  config := later.config.trans earlier.config
  told := by
    rw [later.told, earlier.told]
    cases x.openUnits <;> simp
  moved := by
    have onward := later.moved
    rw [earlier.config] at onward
    rw [List.flatMap_append]
    exact Balances.moveAll_append earlier.moved onward
  sound := later.sound

end Pays

variable {carrier : Carrier ρ} {x : Exchange ρ} {market : Market} {pool : Pool}
    {weights : Nat × Nat}
  {tally : Payout.Tally}

theorem yields_payProvider (plain : carrier.Plain) (sound : x.Sound) (provider : Account)
    (position : Position) :
    Yields (payProvider carrier market pool weights provider position tally) x fun after y =>
      after = tally.plus (Payout.due market pool weights [(provider, position)]) ∧
        x.Pays (Payout.due market pool weights [(provider, position)]) y := by
  refine .read (.compute Payout.failsOnly_share fun base baseShare => ?_)
  refine .compute Payout.failsOnly_share fun quote quoteShare => ?_
  rw [Payout.due_single, ← Payout.share_eq baseShare, ← Payout.share_eq quoteShare]
  dsimp only
  split
  next nothing => exact yields_pure ⟨(Payout.Tally.plus_nil tally).symm, .refl sound⟩
  next something =>
    refine .transfer plain sound fun l host movedBase sound' => ?_
    refine .transfer plain sound' fun l' host' movedQuote sound'' => ?_
    refine .compute Amount.failsOnly_bounded fun paidBase baseSum => ?_
    refine .compute Amount.failsOnly_bounded fun paidQuote quoteSum => ?_
    obtain ⟨rfl, -⟩ := Amount.add_eq_ok_iff.1 baseSum
    obtain ⟨rfl, -⟩ := Amount.add_eq_ok_iff.1 quoteSum
    refine .inr ⟨_, _, by rw [Action.bind_ok (emit_eq ..)]; rfl, rfl, ?_⟩
    exact ⟨rfl, rfl, rfl, Balances.moveAll_cons movedBase (Balances.moveAll_cons movedQuote rfl),
      sound''.store, sound''.ledger⟩

theorem yields_payProviders (plain : carrier.Plain) {bound : Nat} {walk : Walk}
    {rest : List (Account × Position)} (sound : x.Sound) (before : walk.Before x.store rest)
    (within : rest.length < bound) :
    Yields (payProviders carrier market pool weights bound walk tally) x fun after y =>
      after = tally.plus (Payout.due market pool weights rest) ∧
        x.Pays (Payout.due market pool weights rest) y := by
  induction bound generalizing walk rest x tally with
  | zero => omega
  | succ bound ih =>
    refine .read ?_
    cases rest with
    | nil =>
      rw [Walk.next_eq_none before sound.store]
      exact yields_pure ⟨(Payout.Tally.plus_nil tally).symm, .refl sound⟩
    | cons item rest =>
      obtain ⟨walk', next, before'⟩ := Walk.next_eq_some before sound.store
      rw [next]
      refine (yields_payProvider plain sound item.1 item.2).bind ?_
      rintro _ y ⟨rfl, pays⟩
      have before'' : walk'.Before y.store rest := by rw [pays.store]; exact before'
      rcases ih pays.sound before'' (by simpa using within)
        with stopped | ⟨after, z, done, rfl, pays'⟩
      · exact .inl stopped
      · refine .inr ⟨_, z, done, ?_⟩
        rw [Payout.due_cons]
        exact ⟨(Payout.Tally.plus_append ..).symm, pays.trans pays'⟩

theorem marketOf_self {market other : Market}
    (done : marketOf (.int market.base) (.int market.quote) = .ok other) :
    other = market ∧ market.Valid := by
  obtain ⟨base, quote, valid⟩ := marketOf_eq_ok_iff.1 done
  have same : other = market := by
    cases other; cases market
    cases base; cases quote
    rfl
  exact ⟨same, same ▸ valid⟩

theorem yields_payOut (plain : carrier.Plain) (sound : x.Sound) (market : Market) :
    Yields (payOut carrier market) x fun paid y => x.Enters (.settled market paid.1 paid.2) y := by
  refine .lift (fun _ failed => (failsOnly_marketOf _ failed).isOwn) fun checked valid => ?_
  obtain ⟨rfl, valid⟩ := marketOf_self valid
  refine .requirePool fun pool held => ?_
  refine .read (.read (.compute Payout.failsOnly_foldlM fun sums summed => ?_))
  rw [(Payout.totals_eq_ok_iff.1 summed).1]
  have before := Walk.before_start x.store checked x.config.pageSize_pos
  refine (yields_payProviders plain sound before (by omega)).bind ?_
  generalize paid_eq : Payout.due checked pool _ (x.store.positionsOf checked) = paid
  rw [Payout.Tally.empty_plus]
  rintro _ y ⟨rfl, pays⟩
  refine .compute Amount.failsOnly_bounded fun baseDust baseLeft => ?_
  refine .compute Amount.failsOnly_bounded fun quoteDust quoteLeft => ?_
  obtain ⟨baseCovered, rfl, -⟩ := Amount.sub_eq_ok_iff.1 baseLeft
  obtain ⟨quoteCovered, rfl, -⟩ := Amount.sub_eq_ok_iff.1 quoteLeft
  have held' : y.store.pool? checked = some pool := by rw [pays.store]; exact held
  have written : putPool checked pool.withoutFees y =
      (.ok (), { y with store := y.store.writePool checked pool.withoutFees (some pool) }) :=
    putPool_eq held' _
  have settled : (y.store.writePool checked pool.withoutFees (some pool)).bare =
      (x.store.bare.revise checked Pool.withoutFees).bare := by
    rw [pays.store]
    exact Store.bare_writePool held rfl
  refine .inr ⟨_, _, by rw [Action.bind_ok written]; rfl,
    ⟨⟨valid, pool, held, paid_eq.symm, ?_, ?_⟩, ?_, ?_⟩, ?_⟩
  · exact Nat.add_sub_cancel' baseCovered
  · exact Nat.add_sub_cancel' quoteCovered
  · exact settled
  · exact pays.moved
  · exact pays.told

theorem settle_outcome (plain : carrier.Plain) (sound : x.Sound) (market : Market) :
    (∃ fault host, settle carrier market x = (.error fault, { x with host }) ∧ fault.isOwn = true) ∨
      ∃ payouts dust y, settle carrier market x = (.ok (payouts, dust), y) ∧
        x.Leads [.settled market payouts dust] y := by
  have journaled := journaled_payOut plain.journaled market
  rcases yields_payOut plain sound.opened market
    with ⟨fault, z, stopped, own⟩ | ⟨paid, z, done, enters⟩
  · obtain ⟨events, -, ⟨fault', failed, collected⟩ | ⟨a, ended, -⟩⟩ := journaled.collect sound
    · rw [stopped] at failed
      cases failed
      refine .inl ⟨fault, (payOut carrier market x.opened).2.host, ?_, own⟩
      rw [settle, unit]
      exact Action.bind_error collected _
    · rw [stopped] at ended
      cases ended
  · obtain ⟨events, -, ⟨fault, failed, -⟩ | ⟨a, ended, collected⟩⟩ := journaled.collect sound
    · rw [done] at failed
      cases failed
    · rw [done] at ended
      cases ended
      have settled : settle carrier market x = (.ok paid, x.closed z events) := by
        rw [settle, unit]
        refine (Action.bind_ok collected _).trans ?_
        rw [done]
        rfl
      refine .inr ⟨paid.1, paid.2, _, settled,
        leads_unit journaled sound (fun z' done' => ?_) settled⟩
      rw [done] at done'
      cases done'
      exact enters

theorem leads_of_settle (plain : carrier.Plain) (sound : x.Sound) {payouts : List Payout}
    {dust : Nat × Nat}
    {y : Exchange ρ} (done : settle carrier market x = (.ok (payouts, dust), y)) :
    x.Leads [.settled market payouts dust] y := by
  rcases settle_outcome plain sound market
    with ⟨fault, host, failed, -⟩ | ⟨payouts', dust', z, done', leads⟩
  · rw [done] at failed
    cases failed
  · rw [done] at done'
    cases done'
    exact leads

end Exchange

end LiquidityPools
