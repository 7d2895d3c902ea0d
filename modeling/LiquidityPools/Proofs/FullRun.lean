import LiquidityPools.Proofs.Sweep

/-!
Full payout runs, over all pending markets of a solvent exchange. What a settlement pays depends on
nothing but the pool and the positions of its market, and settlements of other markets leave these
alone, so a full run comes to what the exchange that it starts on says, market by market.
-/

namespace LiquidityPools

variable {ρ : Type}

namespace Store

variable {s t : Store} {market : Market}

def settlement (s : Store) (market : Market) : List Payout × Nat × Nat :=
  match s.pool? market with
  | none => ([], 0, 0)
  | some pool =>
    let positions := s.positionsOf market
    let paid := Payout.due market pool (Payout.weightsOf pool positions) positions
    (paid, pool.baseFees - Payout.totalBase paid, pool.quoteFees - Payout.totalQuote paid)

def settling (s : Store) (market : Market) : Deal :=
  .settled market (s.settlement market).1 (s.settlement market).2

theorem settlement_congr (pool : t.pool? market = s.pool? market)
    (positions : t.positionsOf market = s.positionsOf market) :
    t.settlement market = s.settlement market := by
  rw [settlement, pool, positions, settlement]

theorem market_of_settlement {p : Payout} (paid : p ∈ (s.settlement market).1) :
    p.market = market := by
  unfold settlement at paid
  split at paid
  · cases paid
  · exact (Payout.mem_due paid).1

theorem market_of_settling {e : Event} (told : e ∈ (s.settling market).events) :
    e.market = market := by
  obtain ⟨p, paid, rfl⟩ := List.mem_map.1 told
  exact market_of_settlement paid

theorem settling_write {other : Market} (apart : market ≠ other) {payouts : List Payout}
    {dust : Nat × Nat} :
    ((Deal.settled other payouts dust).write s).settling market = s.settling market := by
  have same : ((Deal.settled other payouts dust).write s).settlement market =
      s.settlement market := by
    refine settlement_congr ?_ (s.positionsOf_revise other market Pool.withoutFees)
    exact (s.pool?_revise other market Pool.withoutFees).trans (if_neg apart)
  rw [settling, same, settling]

end Store

section Deals

variable {c : Config} {b b' : Books}

def Deal.payouts : Deal → List Payout
  | .settled _ payouts _ => payouts
  | _ => []

theorem Books.Takes.settling {market : Market} {payouts : List Payout} {dust : Nat × Nat}
    (taken : b.Takes c (.settled market payouts dust) b') :
    Deal.settled market payouts dust = b.store.settling market := by
  obtain ⟨-, pool, held, rfl, base, quote⟩ := taken.allowed
  have left : dust = (pool.baseFees - _, pool.quoteFees - _) :=
    Prod.ext (Nat.eq_sub_of_add_eq' base) (Nat.eq_sub_of_add_eq' quote)
  rw [Store.settling, Store.settlement, held, left]

theorem Payout.Settlement.market_eq {s : Settlement} {deal : Deal} (settled : s.deal? = some deal) :
    deal.market = s.market := by
  obtain ⟨market, outcome⟩ := s
  cases outcome with
  | error fault => cases settled
  | ok paid =>
    cases settled
    rfl

/-- Settlements of different markets are what the books say before all of them, and leave the
positions alone. -/
theorem Books.Run.settling {ss : List Payout.Settlement} (run : b.Run c (ss.filterMap (·.deal?)) b')
    (apart : (ss.map (·.market)).Nodup) :
    ss.filterMap (·.deal?) = ((ss.filterMap (·.deal?)).map Deal.market).map b.store.settling ∧
      ∀ market provider, b'.store.position? market provider =
        b.store.position? market provider := by
  induction ss generalizing b with
  | nil =>
    cases run
    exact ⟨rfl, fun _ _ => rfl⟩
  | cons s rest ih =>
    obtain ⟨market, outcome⟩ := s
    obtain ⟨fresh, others⟩ := List.nodup_cons.1 apart
    cases outcome with
    | error fault => exact ih run others
    | ok paid =>
      cases run with
      | cons taken run =>
        obtain ⟨deals, positions⟩ := ih run others
        have store := taken.store
        constructor
        · refine congrArg₂ List.cons taken.settling
            (deals.trans (List.map_congr_left fun m member => ?_))
          obtain ⟨deal, settled, rfl⟩ := List.mem_map.1 member
          obtain ⟨s, listed, settles⟩ := List.mem_filterMap.1 settled
          rw [store, Payout.Settlement.market_eq settles]
          refine Store.settling_write fun same : s.market = market => fresh ?_
          have listed : s.market ∈ rest.map (·.market) := List.mem_map_of_mem listed
          rwa [same] at listed
        · intro m provider
          rw [positions, store]
          exact b.store.position?_revise market m Pool.withoutFees provider

end Deals

namespace Payout.Report

theorem payouts_addAll (r : Report) (ss : List Settlement) :
    (r.addAll ss).payouts = r.payouts ++ (ss.filterMap (·.deal?)).flatMap Deal.payouts := by
  induction ss generalizing r with
  | nil => exact (List.append_nil _).symm
  | cons s rest ih =>
    refine (ih (r.add s)).trans ?_
    obtain ⟨market, outcome⟩ := s
    cases outcome <;> simp [add, Settlement.deal?, Deal.payouts]

end Payout.Report

namespace Exchange

variable {x y : Exchange ρ} {report : Payout.Report}

def payableMarkets (x : Exchange ρ) : List Market :=
  (x.pendingMarkets none).filter fun m => x.store.Payable x.config m

def unpayableMarkets (x : Exchange ρ) : List Market :=
  (x.pendingMarkets none).filter fun m => ¬ x.store.Payable x.config m

structure PaysOut (x : Exchange ρ) (report : Payout.Report) (y : Exchange ρ) : Prop where
  paid : report.paidMarkets = x.payableMarkets
  payouts : report.payouts = x.payableMarkets.flatMap fun m => (x.store.settlement m).1
  dust : report.dust = x.payableMarkets.map fun m => (m, (x.store.settlement m).2)
  failed : report.failures.map (fun f => (f.market, f.fault.kind)) =
    x.unpayableMarkets.map fun m => (m, .arithmetic)
  ended : report.nextCursor = none
  leads : x.Leads (x.payableMarkets.map x.store.settling) y
  pools : ∀ m, y.store.pool? m =
    if x.store.Payable x.config m then (x.store.pool? m).map Pool.withoutFees else x.store.pool? m
  positions : ∀ m provider, y.store.position? m provider = x.store.position? m provider

theorem nodup_pendingMarkets (x : Exchange ρ) (after : Option Market) :
    (x.pendingMarkets after).Nodup :=
  Table.nodup_of_sorted (x.sorted_pendingMarkets after)

theorem nodup_payableMarkets (x : Exchange ρ) : x.payableMarkets.Nodup :=
  (x.nodup_pendingMarkets none).filter _

theorem Solvent.paysOut (solvent : x.Solvent) (idle : x.inFlight = []) {most : Option Nat}
    (whole : batchOf (x.pendingMarkets none) most = x.pendingMarkets none) :
    ∃ report y, Exchange.distribute .direct none most x = (.ok report, y) ∧ x.PaysOut report y := by
  obtain ⟨report, y, done, clears⟩ := solvent.distribute idle none most
  obtain ⟨ss, z, taken, done', leads⟩ :=
    distribute_idle Carrier.plain_direct solvent.sound none most (by simp [idle])
  rw [done] at done'
  simp only [whole, Nat.lt_irrefl, if_false] at done' taken clears
  cases done'
  have apart : (ss.map (·.market)).Nodup := by
    rw [taken]
    exact x.nodup_pendingMarkets none
  obtain ⟨deals, positions⟩ := leads.run.settling apart
  have paid : (ss.filterMap (·.deal?)).map Deal.market = x.payableMarkets := by
    rw [payableMarkets, ← List.nil_append ((ss.filterMap _).map _)]
    exact (Payout.Report.paidMarkets_addAll {} ss).symm.trans clears.paid
  rw [paid] at deals
  rw [deals] at leads
  refine ⟨_, y, done, clears.paid, ?_, ?_, ?_, rfl, leads, clears.pools_pending, positions⟩
  · refine (Payout.Report.payouts_addAll {} ss).trans ?_
    rw [deals, List.flatMap_map]
    rfl
  · refine (Payout.Report.dust_addAll {} ss).trans ?_
    rw [deals, List.filterMap_map]
    exact congrFun List.filterMap_eq_map x.payableMarkets
  · rw [unpayableMarkets, ← clears.failed.trans (List.nil_append _), List.map_map]
    refine List.map_congr_left fun f member => ?_
    have arithmetic := (clears.overflow f member).resolve_left List.not_mem_nil
    exact congrArg (f.market, ·) arithmetic.kind

end Exchange

end LiquidityPools
