import LiquidityPools.Proofs.FullRun
import LiquidityPools.Proofs.Mirror

/-!
An exchange and its mirror, deal by deal and run by run. A full payout run meets the markets of the
mirror in another order, but settles each of them alike, so both come to stores that mirror each
other over one ledger.
-/

namespace LiquidityPools

variable {ρ : Type}

section Books

/-- Where the movements end does not depend on the order in which they can be made. -/
theorem Balances.eq_of_perm {b c d : Balances} {first second : List Movement} (sound : b.Sound)
    (perm : first.Perm second) (moved : b.moveAll first = .ok c)
    (moved' : b.moveAll second = .ok d) :
    c = d := by
  obtain ⟨soundFirst, -, changes⟩ := moveAll_effect sound moved
  obtain ⟨soundSecond, -, changes'⟩ := moveAll_effect sound moved'
  have cap := (cap_of_moveAll sound moved).trans (cap_of_moveAll sound moved').symm
  refine Sound.ext soundFirst soundSecond cap fun account asset => ?_
  have alike : changeOf first asset account = changeOf second asset account :=
    (perm.map _).sum_eq
  have left := changes account asset
  have right := changes' account asset
  omega

theorem Books.Run.moved {c : Config} {b b' : Books} {deals : List Deal} (run : b.Run c deals b') :
    b.balances.moveAll (deals.flatMap (Deal.movements c)) = .ok b'.balances := by
  induction run with
  | nil b => rfl
  | cons taken rest ih => exact Balances.moveAll_append taken.moved ih

theorem Books.Run.balances_mirror {c : Config} {b b' d : Books} {deals deals' : List Deal}
    (sound : b.balances.Sound) (run : b.Run c deals b') (run' : b.mirror.Run c deals' d)
    (perm : deals'.Perm (deals.map Deal.mirror)) : d.balances = b'.balances := by
  refine Balances.eq_of_perm sound ?_ run'.moved run.moved
  refine (perm.flatMap_right _).trans ?_
  rw [List.flatMap_map]
  exact List.Perm.flatMap_left _ fun deal _ => deal.movements_mirror c

end Books

namespace Exchange

/-- The second exchange is the mirror of the first, and neither is paying fees out. -/
structure Paired (x z : Exchange ρ) : Prop where
  solvent : x.Solvent
  sound : z.Sound
  idle : x.inFlight = []
  idle' : z.inFlight = []
  config : z.config = x.config
  books : z.books = x.books.mirror
  outermost : x.store.depth = 0 → z.store = x.store.mirror ∧ z.ledger = x.ledger

variable {x y z w : Exchange ρ} {deals deals' : List Deal}

theorem Solvent.paired_mirror (solvent : x.Solvent) (idle : x.inFlight = []) : x.Paired x.mirror :=
  ⟨solvent, solvent.mirror.sound, idle, idle, rfl, rfl, fun _ => ⟨rfl, rfl⟩⟩

namespace Paired

theorem solvent' (paired : x.Paired z) : z.Solvent where
  sound := paired.sound
  books := by
    rw [paired.config, paired.books]
    exact paired.solvent.books.mirror

theorem mirrors (paired : x.Paired z) : x.store.Mirrors z.store := by
  have mirrors : x.store.bare.Mirrors z.books.store := by
    rw [paired.books]
    exact x.store.bare.mirrors_mirror
  exact ⟨mirrors.pools, mirrors.positions⟩

theorem books_next (paired : x.Paired z) (leads : x.Leads deals y) (leads' : z.Leads deals' w)
    (perm : deals'.Perm (deals.map Deal.mirror)) (mirrors : y.store.Mirrors w.store) :
    w.books = y.books.mirror := by
  have run := leads'.run
  rw [paired.config, paired.books] at run
  have store : w.books.store = y.books.store.mirror :=
    mirrors.bare_eq leads.follows.sound.store leads'.follows.sound.store
  have sound : x.books.balances.Sound := paired.solvent.sound.ledger
  exact congrArg₂ Books.mk store (leads.run.balances_mirror sound run perm)

theorem next (paired : x.Paired z) (leads : x.Leads deals y) (leads' : z.Leads deals' w)
    (perm : deals'.Perm (deals.map Deal.mirror)) (mirrors : y.store.Mirrors w.store) :
    y.Paired w where
  solvent := .of_leads leads paired.solvent
  sound := leads'.follows.sound
  idle := leads.follows.inFlight.trans paired.idle
  idle' := leads'.follows.inFlight.trans paired.idle'
  config := leads'.follows.config.trans (paired.config.trans leads.follows.config.symm)
  books := paired.books_next leads leads' perm mirrors
  outermost top := by
    have books := paired.books_next leads leads' perm mirrors
    have top : x.store.depth = 0 := leads.follows.depth.symm.trans top
    obtain ⟨store, ledger⟩ := paired.outermost top
    have top' : z.store.depth = 0 := by rw [store]; exact top
    obtain ⟨undo, undoLedger⟩ := leads.follows.outermost top
    obtain ⟨undo', undoLedger'⟩ := leads'.follows.outermost top'
    constructor
    · refine Store.ext_bare (congrArg Books.store books) ?_ ?_
      · rw [undo', store, Store.mirror, Store.mirror, undo]
      · rw [leads'.follows.depth, store, Store.mirror, Store.mirror, leads.follows.depth]
    · have balances : w.ledger.balances = y.ledger.balances := congrArg Books.balances books
      have journal : w.ledger.journal = y.ledger.journal := by rw [undoLedger', ledger, undoLedger]
      exact congrArg₂ Ledger.mk balances journal

theorem deal (paired : x.Paired z) {deal : Deal} (leads : x.Leads [deal] y)
    (leads' : z.Leads [deal.mirror] w) : y.Paired w := by
  refine paired.next leads leads' (.refl _) ?_
  have written : y.books.store = deal.write x.books.store := leads.run.taken.store
  have written' : w.books.store = deal.mirror.write z.books.store := leads'.run.taken.store
  have mirrors := Deal.write_mirror paired.mirrors.bare deal
  have mirrors : y.books.store.Mirrors w.books.store := by
    rw [written, written']
    exact mirrors
  exact ⟨mirrors.pools, mirrors.positions⟩

end Paired

end Exchange

section Settlements

namespace Payout

variable (market : Market) (pool : Pool) (weights : Nat × Nat)
    (positions : List (Account × Position))

theorem totals_flip (payouts : List Payout) :
    totalBase (payouts.map flip) = totalQuote payouts ∧
      totalQuote (payouts.map flip) = totalBase payouts := by
  simp only [totalBase, totalQuote, List.map_map]
  exact ⟨rfl, rfl⟩

theorem weightsOf_flip :
    weightsOf pool.flip (positions.map (Prod.map id Position.flip)) =
      (weightsOf pool positions).swap := by
  simp only [weightsOf, List.map_map]
  rfl

theorem due_flip :
    due market.flip pool.flip weights.swap (positions.map (Prod.map id Position.flip)) =
      (due market pool weights positions).map flip := by
  rw [due, due, List.filterMap_map, List.map_filterMap]
  refine List.filterMap_congr fun item _ => ?_
  simp only [Function.comp_apply, Prod.map, Pool.flip, Position.flip, Prod.fst_swap, Prod.snd_swap,
    and_comm]
  split_ifs with nothing
  · exact if_pos nothing
  · exact if_neg nothing

end Payout

namespace Store.Mirrors

variable {s t : Store} (mirrors : s.Mirrors t) (coherent : s.Coherent) (coherent' : t.Coherent)
  (market : Market)

include mirrors coherent coherent'

theorem settlement : t.settlement market.flip =
    ((s.settlement market).1.map Payout.flip, (s.settlement market).2.swap) := by
  unfold Store.settlement
  rw [mirrors.pools]
  cases s.pool? market with
  | none => rfl
  | some pool =>
    simp only [Option.map_some, mirrors.positionsOf coherent coherent', Payout.weightsOf_flip,
      Payout.due_flip, Payout.totals_flip]
    rfl

theorem settling : t.settling market.flip = (s.settling market).mirror := by
  rw [Store.settling, mirrors.settlement coherent coherent']
  rfl

theorem payable (c : Config) : t.Payable c market.flip ↔ s.Payable c market := by
  simp only [Payable, mirrors.positionsOf coherent coherent', List.map_map]
  exact and_comm

end Store.Mirrors

namespace Payout

/-- The second report is the mirror of the first, up to the order of their markets. -/
structure Report.Mirrors (r r' : Report) : Prop where
  paidMarkets : r'.paidMarkets.Perm (r.paidMarkets.map Market.flip)
  /-- Each market pays the same, to the same providers in the same order. -/
  payouts : ∀ m, r'.payouts.filter (·.market = m.flip) =
    (r.payouts.filter (·.market = m)).map Payout.flip
  dust : r'.dust.Perm (r.dust.map fun e => (e.1.flip, e.2.swap))
  failures : (r'.failures.map fun f => (f.market, f.fault.code?)).Perm
    (r.failures.map fun f => (f.market.flip, f.fault.code?))
  ended : r.nextCursor = none ∧ r'.nextCursor = none

end Payout

theorem filter_flatMap_of_nodup {α : Type} {markets : List Market} (apart : markets.Nodup)
    {own : Market → List α} {about : α → Market} (owns : ∀ m, ∀ a ∈ own m, about a = m)
    (market : Market) :
    (markets.flatMap own).filter (about · = market) = if market ∈ markets then own market
      else [] := by
  induction markets with
  | nil => rfl
  | cons m rest ih =>
    obtain ⟨fresh, apart⟩ := List.nodup_cons.1 apart
    rw [List.flatMap_cons, List.filter_append, ih apart]
    by_cases here : market = m
    · subst here
      have whole : (own market).filter (about · = market) = own market :=
        List.filter_eq_self.2 fun a member => by simpa using owns market a member
      rw [whole, if_neg fresh, if_pos List.mem_cons_self, List.append_nil]
    · have nothing : (own m).filter (about · = market) = [] :=
        List.filter_eq_nil_iff.2 fun a member => by simpa [owns m a member] using Ne.symm here
      rw [nothing, List.nil_append]
      exact if_congr (by simp [here]) rfl rfl

theorem filter_flatMap_flip {α : Type} {markets markets' : List Market} (apart : markets.Nodup)
    (apart' : markets'.Nodup) (same : markets'.Perm (markets.map Market.flip))
    {own own' : Market → List α} {about : α → Market} (owns : ∀ m, ∀ a ∈ own m, about a = m)
    (owns' : ∀ m, ∀ a ∈ own' m, about a = m)
    {turn : α → α} (turned : ∀ m, own' m.flip = (own m).map turn) (market : Market) :
    (markets'.flatMap own').filter (about · = market.flip) =
      ((markets.flatMap own).filter (about · = market)).map turn := by
  rw [filter_flatMap_of_nodup apart' owns', filter_flatMap_of_nodup apart owns, turned]
  have member : market.flip ∈ markets' ↔ market ∈ markets :=
    same.mem_iff.trans (List.mem_map_of_injective Market.flip_injective)
  simp only [member]
  split
  · rfl
  · rfl

namespace Exchange

namespace Paired

variable {x z y w : Exchange ρ} {told told' : Payout.Report} (paired : x.Paired z)

include paired

theorem perm_pendingMarkets :
    (z.pendingMarkets none).Perm ((x.pendingMarkets none).map Market.flip) := by
  refine (List.perm_ext_iff_of_nodup (z.nodup_pendingMarkets none)
    ((x.nodup_pendingMarkets none).map Market.flip_injective)).2 fun m => ?_
  have pools := paired.mirrors.pools m.flip
  rw [Market.flip_flip] at pools
  rw [← m.flip_flip, List.mem_map_of_injective Market.flip_injective, mem_pendingMarkets,
    mem_pendingMarkets, m.flip_flip, pools]
  constructor
  · rintro ⟨pool, held, fees⟩
    obtain ⟨found, known, rfl⟩ := Option.map_eq_some_iff.1 held
    exact ⟨found, known, (Bool.or_comm ..).trans fees⟩
  · rintro ⟨pool, held, fees⟩
    exact ⟨pool.flip, by rw [held]; rfl, (Bool.or_comm ..).trans fees⟩

theorem payable (m : Market) : z.store.Payable z.config m.flip ↔ x.store.Payable x.config m := by
  rw [paired.config]
  exact paired.mirrors.payable paired.solvent.sound.store paired.sound.store m x.config

theorem perm_payableMarkets : z.payableMarkets.Perm (x.payableMarkets.map Market.flip) := by
  refine (paired.perm_pendingMarkets.filter _).trans ?_
  rw [List.filter_map]
  simp only [Function.comp_def, paired.payable]
  exact .refl _

theorem perm_unpayableMarkets : z.unpayableMarkets.Perm (x.unpayableMarkets.map Market.flip) := by
  refine (paired.perm_pendingMarkets.filter _).trans ?_
  rw [List.filter_map]
  simp only [Function.comp_def, paired.payable]
  exact .refl _

theorem settling (m : Market) : z.store.settling m.flip = (x.store.settling m).mirror :=
  paired.mirrors.settling paired.solvent.sound.store paired.sound.store m

theorem settlement (m : Market) : z.store.settlement m.flip =
    ((x.store.settlement m).1.map Payout.flip, (x.store.settlement m).2.swap) :=
  paired.mirrors.settlement paired.solvent.sound.store paired.sound.store m

theorem report (paysOut : x.PaysOut told y) (paysOut' : z.PaysOut told' w) :
    told.Mirrors told' where
  paidMarkets := by
    rw [paysOut.paid, paysOut'.paid]
    exact paired.perm_payableMarkets
  payouts m := by
    rw [paysOut.payouts, paysOut'.payouts]
    refine filter_flatMap_flip x.nodup_payableMarkets z.nodup_payableMarkets
      paired.perm_payableMarkets
      (fun _ _ => Store.market_of_settlement) (fun _ _ => Store.market_of_settlement)
        (fun m => ?_) m
    rw [paired.settlement]
  dust := by
    rw [paysOut.dust, paysOut'.dust]
    refine (paired.perm_payableMarkets.map _).trans ?_
    simp only [List.map_map, Function.comp_def, paired.settlement]
    exact .refl _
  failures := by
    have codes := congrArg (List.map (Prod.map id Fault.Kind.code?)) paysOut'.failed
    have codes' := congrArg (List.map (Prod.map Market.flip Fault.Kind.code?)) paysOut.failed
    simp only [List.map_map] at codes codes'
    refine (List.Perm.of_eq codes).trans (.trans ?_ (List.Perm.of_eq codes'.symm))
    refine (paired.perm_unpayableMarkets.map _).trans ?_
    rw [List.map_map]
    exact .refl _
  ended := ⟨paysOut.ended, paysOut'.ended⟩

end Paired

end Exchange

end Settlements

section Events

namespace Exchange

variable {x y z w : Exchange ρ} {deals : List Deal} {report report' : Payout.Report}

/-- All events so far, published or held by open units. -/
def events (x : Exchange ρ) : List Event := x.log ++ x.openUnits.reverse.flatten

def since (x y : Exchange ρ) : List Event := y.events.drop x.events.length

theorem events_deliver (x : Exchange ρ) (told : List Event) :
    (x.deliver told).events = x.events ++ told := by
  unfold deliver
  split
  next none => simp [events, none]
  next enclosing outer some => simp [events, some]

theorem Leads.since (leads : x.Leads deals y) : x.since y = deals.flatMap Deal.events := by
  have told : y.events = x.events ++ deals.flatMap Deal.events := by
    rw [events, leads.follows.log, leads.follows.openUnits, ← events, events_deliver]
  rw [Exchange.since, told, List.drop_left]

theorem PaysOut.since (paysOut : x.PaysOut report y) :
    x.since y = x.payableMarkets.flatMap fun m => (x.store.settling m).events := by
  rw [paysOut.leads.since, List.flatMap_map]

namespace Paired

variable (paired : x.Paired z)

include paired

theorem since_payout (paysOut : x.PaysOut report y) (paysOut' : z.PaysOut report' w) (m : Market) :
    (z.since w).filter (·.market = m.flip) =
      ((x.since y).filter (·.market = m)).map Event.mirror := by
  rw [paysOut.since, paysOut'.since]
  refine filter_flatMap_flip x.nodup_payableMarkets z.nodup_payableMarkets
    paired.perm_payableMarkets
    (fun _ _ => Store.market_of_settling) (fun _ _ => Store.market_of_settling) (fun m => ?_) m
  rw [paired.settling, Deal.events_mirror]

theorem paidOut (paysOut : x.PaysOut report y) (paysOut' : z.PaysOut report' w) : y.Paired w := by
  refine paired.next paysOut.leads paysOut'.leads ?_ ⟨fun m => ?_, fun m provider => ?_⟩
  · refine (paired.perm_payableMarkets.map _).trans ?_
    simp only [List.map_map, Function.comp_def, paired.settling]
    exact .refl _
  · rw [paysOut.pools, paysOut'.pools, paired.mirrors.pools]
    simp only [paired.payable]
    split
    · rw [Option.map_map, Option.map_map]
      rfl
    · rfl
  · rw [paysOut.positions, paysOut'.positions, paired.mirrors.positions]

theorem withHost (host host' : ρ) : Paired { x with host } { z with host := host' } := by
  refine paired.next ((Leads.refl paired.solvent.sound).withHost host)
    ((Leads.refl paired.sound).withHost host') (.refl _) ?_
  exact ⟨paired.mirrors.pools, paired.mirrors.positions⟩

end Paired

end Exchange

end Events

end LiquidityPools
