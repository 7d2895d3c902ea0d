import LiquidityPools.Proofs.Settlement
import LiquidityPools.Proofs.Solvency

/-!
Payout runs of a solvent exchange. What providers are due never comes to more than what was
collected, and the fee account holds that, so no payment of a settlement fails. The one thing left
to stop it is the sum of all contributions to a side, which no operation bounds: a market is settled
exactly if these sums fit into the width of balances.
-/

namespace LiquidityPools

variable {ρ : Type} {config : Config}

theorem Pool.withoutFees_eq_self {p : Pool} (none : p.hasFees = false) : p.withoutFees = p := by
  cases p
  simp_all [hasFees, withoutFees]

namespace Payout

variable (market : Market) (pool : Pool) (weights : Nat × Nat)

theorem totals_due_cons (provider : Account) (position : Position)
    (rest : List (Account × Position)) :
    totalBase (due market pool weights ((provider, position) :: rest)) =
        pool.baseFees * position.base / weights.1 + totalBase (due market pool weights rest) ∧
      totalQuote (due market pool weights ((provider, position) :: rest)) =
        pool.quoteFees * position.quote / weights.2 +
          totalQuote (due market pool weights rest) := by
  rw [due_cons, due_single]
  dsimp only
  split
  next nothing =>
    rw [nothing.1, nothing.2, List.nil_append, Nat.zero_add, Nat.zero_add]
    exact ⟨rfl, rfl⟩
  next => simp [totalBase, totalQuote]

theorem totals_due_le (positions : List (Account × Position)) :
    totalBase (due market pool weights positions) ≤
        pool.baseFees * (positions.map (·.2.base)).sum / weights.1 ∧
      totalQuote (due market pool weights positions) ≤
        pool.quoteFees * (positions.map (·.2.quote)).sum / weights.2 := by
  induction positions with
  | nil => exact ⟨Nat.zero_le _, Nat.zero_le _⟩
  | cons item rest ih =>
    obtain ⟨base, quote⟩ := totals_due_cons market pool weights item.1 item.2 rest
    rw [base, quote, List.map_cons, List.map_cons, List.sum_cons, List.sum_cons, Nat.mul_add,
      Nat.mul_add]
    exact ⟨Nat.le_trans (Nat.add_le_add_left ih.1 _) Nat.div_add_div_le_add_div,
      Nat.le_trans (Nat.add_le_add_left ih.2 _) Nat.div_add_div_le_add_div⟩

theorem totals_due_le_fees (positions : List (Account × Position)) :
    totalBase (due market pool (weightsOf pool positions) positions) ≤ pool.baseFees ∧
      totalQuote (due market pool (weightsOf pool positions) positions) ≤ pool.quoteFees := by
  obtain ⟨base, quote⟩ := totals_due_le market pool (weightsOf pool positions) positions
  refine ⟨Nat.le_trans base (Nat.div_le_of_le_mul ?_), Nat.le_trans quote (Nat.div_le_of_le_mul ?_)⟩
  · rw [Nat.mul_comm]
    exact Nat.mul_le_mul_right _ (Nat.le_max_right ..)
  · rw [Nat.mul_comm]
    exact Nat.mul_le_mul_right _ (Nat.le_max_right ..)

end Payout

namespace Exchange

variable {x : Exchange ρ} {market : Market} {pool : Pool} {weights : Nat × Nat}
  {tally : Payout.Tally} {rest : List (Account × Position)}

/-- What is still due to some providers can be paid: the fee account holds it, and there is room for
the sums that a settlement keeps. -/
structure Affords (x : Exchange ρ) (market : Market) (pool : Pool) (weights : Nat × Nat)
    (tally : Payout.Tally) (rest : List (Account × Position)) : Prop where
  roomy : x.Roomy
  fits : pool.Fits x.config
  base : tally.base + Payout.totalBase (Payout.due market pool weights rest) ≤ pool.baseFees
  quote : tally.quote + Payout.totalQuote (Payout.due market pool weights rest) ≤ pool.quoteFees
  baseHeld : pool.baseFees ≤ tally.base + x.balance market.base x.config.feeAccount
  quoteHeld : pool.quoteFees ≤ tally.quote + x.balance market.quote x.config.feeAccount

theorem Affords.payProvider {provider : Account} {position : Position}
    (affords : x.Affords market pool weights tally ((provider, position) :: rest))
    (apart : market.base ≠ market.quote) :
    Ends (payProvider .direct market pool weights provider position tally) x (fun _ => False)
      fun after y => y.store = x.store ∧ y.Affords market pool weights after rest := by
  obtain ⟨roomy, fits, base, quote, baseHeld, quoteHeld⟩ := affords
  obtain ⟨baseDue, quoteDue⟩ := Payout.totals_due_cons market pool weights provider position rest
  rw [baseDue] at base
  rw [quoteDue] at quote
  have baseFits := Config.fits_iff.1 fits.baseFees
  have quoteFits := Config.fits_iff.1 fits.quoteFees
  refine .read
    (.computed (Payout.share_of_fits (by omega)) (.computed (Payout.share_of_fits (by omega)) ?_))
  generalize pool.baseFees * position.base / weights.1 = paidBase at base ⊢
  generalize pool.quoteFees * position.quote / weights.2 = paidQuote at quote ⊢
  split
  next nothing =>
    obtain ⟨rfl, rfl⟩ := nothing
    exact .pure ⟨rfl, roomy, fits, by omega, by omega, baseHeld, quoteHeld⟩
  next =>
    refine .direct roomy (by omega) fun y roomy store config changes => ?_
    have baseLeft := changes market.base x.config.feeAccount
    have spentBase := Movement.neg_le_change market.base x.config.feeAccount provider paidBase
      market.base x.config.feeAccount
    have quoteKept := changes market.quote x.config.feeAccount
    rw [Movement.change_of_ne_asset apart.symm] at quoteKept
    refine .direct roomy (by omega) fun z roomy store' config' changes' => ?_
    have quoteLeft := changes' market.quote x.config.feeAccount
    have spentQuote := Movement.neg_le_change market.quote x.config.feeAccount provider paidQuote
      market.quote x.config.feeAccount
    have baseKept := changes' market.base x.config.feeAccount
    rw [Movement.change_of_ne_asset apart] at baseKept
    refine .computed (Amount.add_eq_ok_iff.2 ⟨rfl, by omega⟩) ?_
    refine .computed (Amount.add_eq_ok_iff.2 ⟨rfl, by omega⟩) ?_
    have same : z.config = x.config := config'.trans config
    refine .step (emit_eq ..) (.pure ⟨store'.trans store, ⟨⟨roomy.sound.store, roomy.sound.ledger⟩,
      roomy.uncapped⟩, same ▸ fits, by dsimp only; omega, by dsimp only; omega, ?_, ?_⟩)
    · show pool.baseFees ≤ tally.base + paidBase + z.balance market.base z.config.feeAccount
      rw [same]
      omega
    · show pool.quoteFees ≤ tally.quote + paidQuote + z.balance market.quote z.config.feeAccount
      rw [same]
      omega

theorem Affords.payProviders {bound : Nat} {walk : Walk}
    (affords : x.Affords market pool weights tally rest) (apart : market.base ≠ market.quote)
    (before : walk.Before x.store rest) (within : rest.length < bound) :
    Ends (payProviders .direct market pool weights bound walk tally) x (fun _ => False)
      fun _ _ => True := by
  induction bound generalizing walk rest x tally with
  | zero => omega
  | succ bound ih =>
    refine .read ?_
    cases rest with
    | nil =>
      rw [Walk.next_eq_none before affords.roomy.sound.store]
      exact .pure trivial
    | cons item rest =>
      obtain ⟨walk', next, before'⟩ := Walk.next_eq_some before affords.roomy.sound.store
      rw [next]
      refine (affords.payProvider apart).bind fun after y ⟨store, affords'⟩ => ?_
      exact ih affords' (by rw [store]; exact before') (by simpa using within)

end Exchange

def Store.Payable (c : Config) (s : Store) (market : Market) : Prop :=
  c.Fits ((s.positionsOf market).map (·.2.base)).sum ∧
    c.Fits ((s.positionsOf market).map (·.2.quote)).sum

instance (c : Config) (s : Store) (market : Market) : Decidable (s.Payable c market) :=
  inferInstanceAs (Decidable (_ ∧ _))

theorem Store.payable_iff {c : Config} {s : Store} {market : Market} :
    s.Payable c market ↔ ∃ sums, Payout.totals c.cap (s.positionsOf market) = .ok sums := by
  simp only [Payable, Config.fits_iff, Payout.totals_eq_ok_iff]
  constructor
  · exact fun fits => ⟨_, rfl, fits⟩
  · rintro ⟨sums, rfl, fits⟩
    exact fits

namespace Exchange

variable {x : Exchange ρ} {market : Market} {pool : Pool} {fault : Fault}

/-- Why a settlement of the market is refused: not for a transfer, and if there is a pool, only
because the contributions overflow. -/
structure Refuses (x : Exchange ρ) (market : Market) (fault : Fault) : Prop where
  paid : fault.kind ≠ .transfer
  overflow : x.store.hasPool market = true →
    fault.IsArithmetic ∧ ¬ x.store.Payable x.config market

namespace Refuses

theorem misnamed (solvent : x.Solvent)
    (failed : marketOf (.int market.base) (.int market.quote) = .error fault) :
    x.Refuses market fault where
  paid := (failsOnly_marketOf _ failed).kind_ne_transfer
  overflow pooled := by
    obtain ⟨pool, held⟩ := Option.isSome_iff_exists.1 pooled
    rw [marketOf_eq_ok_iff.2 ⟨rfl, rfl, (solvent.books.wellFormed.pools market pool held).1⟩]
      at failed
    cases failed

theorem missing (absent : x.store.pool? market = none) :
    x.Refuses market (.marketMissing market) where
  paid := nofun
  overflow pooled := by
    rw [Store.hasPool, absent] at pooled
    cases pooled

theorem overflowing
    (failed : Payout.totals x.config.cap (x.store.positionsOf market) = .error fault) :
    x.Refuses market fault := by
  have arithmetic := Payout.failsOnly_foldlM _ failed
  refine ⟨arithmetic.kind_ne_transfer, fun _ => ⟨arithmetic, fun payable => ?_⟩⟩
  obtain ⟨sums, summed⟩ := Store.payable_iff.1 payable
  rw [failed] at summed
  cases summed

end Refuses

theorem Yields.sure {α : Type} {m : Action (Exchange ρ) α} {ends : α → Exchange ρ → Prop}
    (yields : Yields m x ends) (sure : Ends m x (fun _ => False) fun _ _ => True) :
    ∃ a y, m x = (.ok a, y) ∧ ends a y := by
  rcases sure with ⟨fault, y, -, ⟨⟩⟩ | ⟨a, y, done, -⟩
  exact ⟨a, y, done, Ends.reached yields done⟩

theorem Solvent.affords (solvent : x.Solvent) (held : x.store.pool? market = some pool) :
    x.Affords market pool (Payout.weightsOf pool (x.store.positionsOf market)) {}
      (x.store.positionsOf market) := by
  obtain ⟨base, quote⟩ := Payout.totals_due_le_fees market pool (x.store.positionsOf market)
  have covers := solvent.covers held
  exact
    { roomy := solvent.roomy
      fits := (solvent.books.wellFormed.pools market pool held).2
      base := by simpa using base
      quote := by simpa using quote
      baseHeld := by simpa using covers.baseFees
      quoteHeld := by simpa using covers.quoteFees }

theorem Solvent.payOut (solvent : x.Solvent) (market : Market) :
    Ends (payOut .direct market) x (x.Refuses market) fun _ _ =>
      x.store.Payable x.config market := by
  refine .lift (fun fault failed => .misnamed solvent failed) fun checked named => ?_
  obtain ⟨rfl, valid⟩ := marketOf_self named
  refine .requirePool .missing fun pool held => ?_
  refine .read (.read (.lift (fun fault failed => .overflowing failed) fun sums summed => ?_))
  have payable := Store.payable_iff.2 ⟨sums, summed⟩
  obtain rfl := (Payout.totals_eq_ok_iff.1 summed).1
  have before := Walk.before_start x.store checked x.config.pageSize_pos
  have within : (x.store.positionsOf checked).length <
      (x.store.positionsOf checked).length + (Carrier.direct (ρ := ρ)).patience + 1 := by omega
  obtain ⟨_, y, done, rfl, pays⟩ := (yields_payProviders Carrier.plain_direct solvent.sound before
    within).sure ((solvent.affords held).payProviders valid.2.2 before within)
  refine .step done ?_
  rw [Payout.Tally.empty_plus]
  obtain ⟨baseWithin, quoteWithin⟩ :=
    Payout.totals_due_le_fees checked pool (x.store.positionsOf checked)
  obtain ⟨-, fits⟩ := solvent.books.wellFormed.pools checked pool held
  have baseFits := Config.fits_iff.1 fits.baseFees
  have quoteFits := Config.fits_iff.1 fits.quoteFees
  refine .computed (Amount.sub_eq_ok_iff.2 ⟨baseWithin, rfl, by omega⟩) ?_
  refine .computed (Amount.sub_eq_ok_iff.2 ⟨quoteWithin, rfl, by omega⟩) ?_
  have held' : y.store.pool? checked = some pool := by rw [pays.store]; exact held
  exact .step (putPool_eq held' _) (.pure payable)

theorem Solvent.settle (solvent : x.Solvent) (market : Market) :
    (∃ fault host, settle .direct market x = (.error fault, { x with host }) ∧
      x.Refuses market fault) ∨
      ∃ payouts dust y, settle .direct market x = (.ok (payouts, dust), y) ∧
        x.Leads [.settled market payouts dust] y ∧ x.store.Payable x.config market := by
  have ends : Ends (Exchange.settle .direct market) x (x.Refuses market) fun _ _ =>
      x.store.Payable x.config market :=
    ((solvent.opened.payOut market).weaken (fun _ refused => ⟨refused.paid, refused.overflow⟩)
      fun _ _ payable => payable).unit (journaled_payOut Carrier.plain_direct.journaled market)
        solvent.sound
  rcases settle_outcome Carrier.plain_direct solvent.sound market with
    ⟨fault, host, failed, -⟩ | ⟨payouts, dust, y, done, leads⟩
  · exact .inl ⟨fault, host, failed, ends.told failed⟩
  · exact .inr ⟨payouts, dust, y, done, leads, ends.reached done⟩

theorem Leads.cleared {payouts : List Payout} {dust : Nat × Nat} {y : Exchange ρ}
    (leads : x.Leads [.settled market payouts dust] y) :
    (∀ m, y.store.pool? m =
        if m = market then (x.store.pool? market).map Pool.withoutFees else x.store.pool? m) ∧
      ∀ m, y.store.positionsOf m = x.store.positionsOf m := by
  have written : y.store.bare = (x.store.bare.revise market Pool.withoutFees).bare :=
    leads.run.taken.store
  constructor
  · intro m
    show y.store.bare.pool? m = _
    rw [written]
    exact Store.pool?_revise x.store.bare market m Pool.withoutFees
  · intro m
    show y.store.bare.positionsOf m = _
    rw [written]
    exact Store.positionsOf_revise x.store.bare market m Pool.withoutFees

/-- What a payout run over some markets reports, beyond an earlier report, and what it leaves of the
pools. -/
structure Clears (x : Exchange ρ) (markets : List Market) (report after : Payout.Report)
    (y : Exchange ρ) : Prop where
  paid : after.paidMarkets = report.paidMarkets ++ markets.filter fun m =>
    x.store.Payable x.config m
  failed : after.failures.map (·.market) =
    report.failures.map (·.market) ++ markets.filter fun m => ¬ x.store.Payable x.config m
  overflow : ∀ f ∈ after.failures, f ∈ report.failures ∨ f.fault.IsArithmetic
  pools : ∀ m, y.store.pool? m =
    if m ∈ markets ∧ x.store.Payable x.config m then (x.store.pool? m).map Pool.withoutFees
    else x.store.pool? m

namespace Clears

variable {y z : Exchange ρ} {markets : List Market} {report after : Payout.Report}

theorem refused {host : ρ} (unpayable : ¬ x.store.Payable x.config market)
    (arithmetic : fault.IsArithmetic) (rest : Clears { x with host } markets
      { report with failures := report.failures ++ [⟨market, fault⟩] } after z) :
    x.Clears (market :: markets) report after z where
  paid := by
    rw [rest.paid, List.filter_cons_of_neg (by simpa using unpayable)]
  failed := by
    rw [rest.failed, List.filter_cons_of_pos (by simpa using unpayable), List.map_append,
      List.append_assoc]
    rfl
  overflow f member := by
    rcases rest.overflow f member with earlier | overflow
    · rcases List.mem_append.1 earlier with earlier | now
      · exact .inl earlier
      · obtain rfl := List.mem_singleton.1 now
        exact .inr arithmetic
    · exact .inr overflow
  pools m := by
    have same : (m ∈ market :: markets ∧ x.store.Payable x.config m) ↔
        (m ∈ markets ∧ x.store.Payable x.config m) := by
      rw [List.mem_cons]
      constructor
      · rintro ⟨rfl | member, payable⟩
        · exact absurd payable unpayable
        · exact ⟨member, payable⟩
      · exact fun later => ⟨.inr later.1, later.2⟩
    rw [rest.pools]
    exact if_congr same.symm rfl rfl

theorem settled {payouts : List Payout} {dust : Nat × Nat}
    (payable : x.store.Payable x.config market) (leads : x.Leads [.settled market payouts dust] y)
    (rest : y.Clears markets
      { report with
        paidMarkets := report.paidMarkets ++ [market]
        payouts := report.payouts ++ payouts
        dust := report.dust ++ [(market, dust)] } after z) :
    x.Clears (market :: markets) report after z := by
  obtain ⟨pools, positions⟩ := leads.cleared
  have same (m : Market) : y.store.Payable y.config m ↔ x.store.Payable x.config m := by
    rw [Store.Payable, Store.Payable, positions, leads.follows.config]
  obtain ⟨paid, failed, overflow, left⟩ := rest
  simp only [same] at paid failed left
  constructor
  · rw [paid, List.filter_cons_of_pos (by simpa using payable), List.append_assoc]
    rfl
  · rw [failed, List.filter_cons_of_neg (by simpa using payable)]
  · exact overflow
  · intro m
    rw [left, pools]
    by_cases here : m = market
    · subst here
      simp only [if_pos, List.mem_cons_self, payable, and_true]
      split
      · rw [Option.map_map]
        rfl
      · rfl
    · simp only [here, if_false, List.mem_cons, false_or]

end Clears

theorem Solvent.settleAll (solvent : x.Solvent) (markets : List Market) (report : Payout.Report)
    (pooled : ∀ m ∈ markets, x.store.hasPool m = true) (fresh : ∀ m ∈ markets, m ∉ x.inFlight) :
    ∃ after y, settleAll .direct markets report x = (.ok after, y) ∧
      x.Clears markets report after y := by
  induction markets generalizing report x with
  | nil => exact ⟨report, x, rfl, by simp, by simp, fun _ => .inl, by simp⟩
  | cons market rest ih =>
    have fresh' := fresh market List.mem_cons_self
    have taking : (x.taking market).Solvent := ⟨solvent.sound.taking market, solvent.books⟩
    -- either way the exchange stays solvent, so the hypothesis applies to the rest
    rcases taking.settle market with
      ⟨fault, host, failed, refused⟩ | ⟨payouts, dust, y, done, leads, payable⟩
    · have flight := settleInFlight_eq Carrier.plain_direct.journaled solvent.sound fresh' failed
      obtain ⟨arithmetic, unpayable⟩ := refused.overflow (pooled market List.mem_cons_self)
      have solvent' : Solvent { x with host } :=
        ⟨⟨solvent.sound.store, solvent.sound.ledger⟩, solvent.books⟩
      obtain ⟨after, z, done, clears⟩ :=
        ih solvent' { report with failures := report.failures ++ [⟨market, fault⟩] }
          (fun m member => pooled m (List.mem_cons_of_mem _ member))
          fun m member => fresh m (List.mem_cons_of_mem _ member)
      refine ⟨after, z, ?_, clears.refused unpayable arithmetic⟩
      rw [Exchange.settleAll, Action.bind_ok flight]
      simp only [arithmetic.isOwn, if_true]
      exact done
    · have flight := settleInFlight_eq Carrier.plain_direct.journaled solvent.sound fresh' done
      have landed : x.Leads [.settled market payouts dust] { y with inFlight := x.inFlight } :=
        ⟨leads.follows.landed, leads.run⟩
      have pooled' : ∀ m ∈ rest, y.store.hasPool m = true := by
        intro m member
        have held := pooled m (List.mem_cons_of_mem _ member)
        rw [Store.hasPool, leads.cleared.1]
        split
        next here => rw [Option.isSome_map, ← here]; exact held
        next => exact held
      obtain ⟨after, z, done, clears⟩ :=
        ih (.of_leads landed solvent)
          { report with
            paidMarkets := report.paidMarkets ++ [market]
            payouts := report.payouts ++ payouts
            dust := report.dust ++ [(market, dust)] }
          pooled' fun m member => fresh m (List.mem_cons_of_mem _ member)
      refine ⟨after, z, ?_, clears.settled payable landed⟩
      rw [Exchange.settleAll, Action.bind_ok flight]
      exact done

theorem mem_pendingMarkets {m : Market} :
    m ∈ x.pendingMarkets none ↔ ∃ pool, x.store.pool? m = some pool ∧ pool.hasFees = true := by
  have listed : m ∈ x.store.markets none ↔ x.store.hasPool m = true := Store.mem_keys_pools
  rw [pendingMarkets, List.mem_filter, listed, Store.hasPool]
  cases x.store.pool? m <;> simp

theorem hasPool_of_pending {after : Option Market} {m : Market}
    (pending : m ∈ x.pendingMarkets after) :
    x.store.hasPool m = true := by
  have fees := (List.mem_filter.1 pending).2
  rw [Store.hasPool]
  cases held : x.store.pool? m with
  | none => simp [held] at fees
  | some pool => rfl

theorem Solvent.distribute (solvent : x.Solvent) (idle : x.inFlight = []) (after : Option Market)
    (most : Option Nat) :
    ∃ report y, distribute .direct after most x = (.ok report, y) ∧
      x.Clears (batchOf (x.pendingMarkets after) most) {} report y := by
  have pooled : ∀ m ∈ batchOf (x.pendingMarkets after) most, x.store.hasPool m = true := by
    intro m member
    have pending : m ∈ x.pendingMarkets after := by
      cases most with
      | none => exact member
      | some n => exact List.mem_of_mem_take member
    exact hasPool_of_pending pending
  have fresh : ∀ m ∈ batchOf (x.pendingMarkets after) most, m ∉ x.inFlight := by simp [idle]
  obtain ⟨report, y, done, clears⟩ := solvent.settleAll _ {} pooled fresh
  simp only [Exchange.distribute, Action.bind_apply, Action.read_apply]
  rw [if_neg (by simp [idle])]
  exact ⟨_, y, (Action.bind_ok done _).trans rfl, clears.paid, clears.failed, clears.overflow,
    clears.pools⟩

theorem Clears.pools_pending {report after : Payout.Report} {y : Exchange ρ}
    (clears : x.Clears (x.pendingMarkets none) report after y) (m : Market) :
    y.store.pool? m =
      if x.store.Payable x.config m then (x.store.pool? m).map Pool.withoutFees
        else x.store.pool? m := by
  rw [clears.pools]
  by_cases pending : m ∈ x.pendingMarkets none
  · simp only [pending, true_and]
  · have idle : (x.store.pool? m).map Pool.withoutFees = x.store.pool? m := by
      cases held : x.store.pool? m with
      | none => rfl
      | some pool =>
        have none : pool.hasFees = false := by
          rw [← Bool.not_eq_true]
          exact fun fees => pending (mem_pendingMarkets.2 ⟨pool, held, fees⟩)
        rw [Option.map_some, Pool.withoutFees_eq_self none]
    simp only [pending, false_and, idle, ite_self]

/-- A payout run over all markets of an exchange that pays from its own uncapped ledger pays out
exactly the pending markets whose contributions fit, and reports an overflow for each of the others,
whose fees it leaves in their counters. So it leaves no fees behind just if all pending markets are
payable. -/
theorem run_pays_payable (entrusted : Program.Entrusted config x) (whole : config.batch = none) :
    ∃ report y, distributeOf .direct none .null x = (.ok report, y) ∧
      report.paidMarkets = (x.pendingMarkets none).filter (fun m => x.store.Payable config m) ∧
      report.failures.map (·.market) =
        (x.pendingMarkets none).filter (fun m => ¬ x.store.Payable config m) ∧
      (∀ f ∈ report.failures, f.fault.IsArithmetic) ∧
      (∀ m, y.store.pool? m =
        if x.store.Payable config m then (x.store.pool? m).map Pool.withoutFees
          else x.store.pool? m) ∧
      ((∀ m pool, y.store.pool? m = some pool → pool.hasFees = false) ↔
        ∀ m ∈ x.pendingMarkets none, x.store.Payable config m) := by
  obtain ⟨solvent, rfl, idle⟩ := solvent_of_entrusted entrusted
  obtain ⟨report, y, done, clears⟩ := solvent.distribute idle none none
  have pools := clears.pools_pending
  refine ⟨report, y, ?_, clears.paid, clears.failed, fun f member => ?_, pools, ?_⟩
  · rw [distributeOf, Action.bind_read, mostOf, whole]
    exact done
  · rcases clears.overflow f member with none | overflow
    · cases none
    · exact overflow
  · constructor
    · intro cleared m pending
      obtain ⟨pool, held, fees⟩ := mem_pendingMarkets.1 pending
      by_contra unpayable
      have kept := pools m
      rw [if_neg unpayable, held] at kept
      rw [cleared m pool kept] at fees
      cases fees
    · intro payable m pool left
      rw [pools] at left
      split at left
      next =>
        obtain ⟨found, -, rfl⟩ := Option.map_eq_some_iff.1 left
        rfl
      next unpayable =>
        rw [← Bool.not_eq_true]
        exact fun fees => unpayable (payable m (mem_pendingMarkets.2 ⟨pool, left, fees⟩))

def narrow : Config :=
  { Config.usual with
    feeRate := ⟨1, 2, by decide⟩
    balanceBits := 8
    balanceBits_pos := by decide
    balanceBits_le := by decide }

def narrowMorning : Exchange Unit :=
  (((fresh narrow {} ()).fund 0 "alice" 10).fund 1 "alice" 20).fund 0 "bob" 249

def draining : Program :=
  .seq (.request (.create (.str "alice") (.int 0) (.int 1) (.int 10) (.int 10)))
    (.request (.trade .buy (.str "alice") (.tuple [.int 0, .int 1]) (.int 10) (.int 0)))

/-- The trade has made room in the reserve for what is then deposited, but not beside what Alice has
contributed. -/
def weighing : Program :=
  .seq draining (.request (.deposit (.str "bob") (.tuple [.int 0, .int 1]) (.int 249) (.int 0)))

theorem entrusted_narrowMorning : Program.Entrusted narrow narrowMorning :=
  (((Program.Entrusted.start ()).fund 0 "alice" 10).fund 1 "alice" 20).fund 0 "bob" 249

theorem unpayable_weighing :
    (weighing.run .direct narrowMorning).2.store.pool? ⟨0, 1⟩ = some ⟨255, 15, 0, 5⟩ ∧
      ¬ (weighing.run .direct narrowMorning).2.store.Payable narrow ⟨0, 1⟩ := by
  decide +kernel

/-- Fees that no payout run pays, though the fee account holds them. -/
theorem fees_stuck :
    ∃ report y, distributeOf .direct none .null (weighing.run .direct narrowMorning).2 =
      (.ok report, y) ∧
      ⟨0, 1⟩ ∈ report.failures.map (·.market) ∧ y.store.pool? ⟨0, 1⟩ = some ⟨255, 15, 0, 5⟩ := by
  obtain ⟨pool, unpayable⟩ := unpayable_weighing
  obtain ⟨report, y, done, -, failed, -, pools, -⟩ :=
    run_pays_payable (entrusted_narrowMorning.run weighing) rfl
  refine ⟨report, y, done, ?_, ?_⟩
  · rw [failed, List.mem_filter]
    exact ⟨mem_pendingMarkets.2 ⟨_, pool, rfl⟩, by simpa using unpayable⟩
  · rw [pools, if_neg unpayable, pool]

end Exchange

end LiquidityPools
