import Mathlib.Algebra.Order.BigOperators.Group.List
import Mathlib.Algebra.Order.Field.Rat
import Mathlib.Tactic.Linarith
import LiquidityPools.Proofs.Clearing

/-!
What a settlement pays, to the unit. On each side, what was collected is weighed against the reserve
or all contributions, whichever is more, and each provider is paid its share, floored. The dust is
what the part of the weight that nobody contributed would have been paid, and less than one unit for
each contributor. Once the contributions have been summed up, only a transfer can stop a settlement.
-/

namespace LiquidityPools

variable {ρ : Type}

structure Pot where
  collected : Nat
  reserve : Nat
  contributions : List Nat

namespace Pot

variable (p : Pot)

def total : Nat := p.contributions.sum

def weight : Nat := max p.reserve p.total

def contributors : Nat := p.contributions.countP (0 < ·)

def share (contributed : Nat) : Nat := p.collected * contributed / p.weight

structure Splits (paid dust : Nat) : Prop where
  whole : paid + dust = p.collected
  dust_lt : 0 < p.contributors → 0 < p.collected →
    (dust : ℚ) < (p.collected : ℚ) * (p.weight - p.total) / p.weight + p.contributors

theorem sum_shares (c d : Nat) (xs : List Nat) :
    d * (xs.map (c * · / d)).sum + (xs.map (c * · % d)).sum = c * xs.sum := by
  induction xs with
  | nil => rfl
  | cons x rest ih =>
    have one := Nat.div_add_mod (c * x) d
    simp only [List.map_cons, List.sum_cons, Nat.mul_add]
    omega

theorem sum_remainders_le (c : Nat) {d : Nat} (positive : 0 < d) (xs : List Nat) :
    (xs.map (c * · % d)).sum + xs.countP (0 < ·) ≤ d * xs.countP (0 < ·) := by
  induction xs with
  | nil => exact Nat.le_refl 0
  | cons x rest ih =>
    rw [List.map_cons, List.sum_cons, List.countP_cons]
    by_cases some : 0 < x
    · have below := Nat.mod_lt (c * x) positive
      simp only [some, decide_true, if_true, Nat.mul_add]
      omega
    · obtain rfl : x = 0 := by omega
      simpa using ih

theorem splits {paid dust : Nat} (shares : paid = (p.contributions.map p.share).sum)
    (whole : paid + dust = p.collected) : p.Splits paid dust where
  whole
  dust_lt some _ := by
    have weighed : 0 < p.weight := by
      obtain ⟨x, member, positive⟩ := List.countP_pos_iff.1 some
      have within := List.le_sum_of_mem member
      have positive : 0 < x := by simpa using positive
      exact Nat.lt_of_lt_of_le (Nat.lt_of_lt_of_le positive within) (Nat.le_max_right ..)
    have sums := sum_shares p.collected p.weight p.contributions
    have remainders := sum_remainders_le p.collected weighed p.contributions
    generalize (p.contributions.map (p.collected * · % p.weight)).sum = cutOff at sums remainders
    have paying : p.weight * paid + cutOff = p.collected * p.total := by rw [shares]; exact sums
    have bound : (cutOff : ℚ) + p.contributors ≤ p.weight * p.contributors := by
      exact_mod_cast remainders
    have paying : (p.weight : ℚ) * paid + cutOff = p.collected * p.total := by exact_mod_cast paying
    have whole : (paid : ℚ) + dust = p.collected := by exact_mod_cast whole
    have some : (0 : ℚ) < p.contributors := by exact_mod_cast some
    have weighed : (0 : ℚ) < p.weight := by exact_mod_cast weighed
    rw [div_add' _ _ _ weighed.ne', lt_div_iff₀ weighed]
    have all : (p.weight : ℚ) * (paid + dust) = p.weight * p.collected := by rw [whole]
    linarith

end Pot

namespace Payout

variable {market : Market} (pool : Pool) (positions : List (Account × Position))

def basePot : Pot := ⟨pool.baseFees, pool.baseReserve, positions.map (·.2.base)⟩

def quotePot : Pot := ⟨pool.quoteFees, pool.quoteReserve, positions.map (·.2.quote)⟩

variable {pool positions}

theorem mem_due_iff {p : Payout} :
    p ∈ due market pool (weightsOf pool positions) positions ↔
      p.market = market ∧ (p.base ≠ 0 ∨ p.quote ≠ 0) ∧
        ∃ position, (p.provider, position) ∈ positions ∧
          p.base = (basePot pool positions).share position.base ∧
          p.quote = (quotePot pool positions).share position.quote := by
  simp only [due, List.mem_filterMap, Prod.exists]
  constructor
  · rintro ⟨provider, position, member, paid⟩
    split at paid
    next => cases paid
    next some =>
      cases paid
      exact ⟨rfl, not_and_or.1 some, position, member, rfl, rfl⟩
  · rintro ⟨rfl, some, position, member, base, quote⟩
    refine ⟨p.provider, position, member, ?_⟩
    have base : p.base = pool.baseFees * position.base / (weightsOf pool positions).1 := base
    have quote : p.quote = pool.quoteFees * position.quote / (weightsOf pool positions).2 := quote
    rw [← base, ← quote, if_neg (not_and_or.2 some)]

theorem totals_due (market : Market) (pool : Pool) (weights : Nat × Nat)
    (positions : List (Account × Position)) :
    totalBase (due market pool weights positions) =
        (positions.map fun item => pool.baseFees * item.2.base / weights.1).sum ∧
      totalQuote (due market pool weights positions) =
        (positions.map fun item => pool.quoteFees * item.2.quote / weights.2).sum := by
  induction positions with
  | nil => exact ⟨rfl, rfl⟩
  | cons item rest ih =>
    obtain ⟨base, quote⟩ := totals_due_cons market pool weights item.1 item.2 rest
    rw [base, quote, ih.1, ih.2]
    exact ⟨rfl, rfl⟩

theorem sublist_providers_due (weights : Nat × Nat) (positions : List (Account × Position)) :
    ((due market pool weights positions).map (·.provider)).Sublist (positions.map (·.1)) := by
  induction positions with
  | nil => exact .slnil
  | cons item rest ih =>
    rw [due_cons, due_single, List.map_cons]
    dsimp only
    split
    · exact ih.cons _
    · exact ih.cons_cons _

def credited (payouts : List Payout) (asset : Asset) (account : Account) : Int :=
  ((payouts.filter (·.provider = account)).map fun p => p.market.spread asset p.base p.quote).sum

theorem changeOf_single (c : Config) (p : Payout) (asset : Asset) (account : Account) :
    Balances.changeOf (p.movements c) asset account =
      (if p.provider = account then p.market.spread asset p.base p.quote else 0) -
        if account = c.feeAccount then p.market.spread asset p.base p.quote else 0 := by
  simp only [movements, Balances.changeOf_cons, Balances.changeOf_nil, Movement.change,
    Market.spread]
  grind

theorem changeOf_movements (c : Config) {payouts : List Payout}
    (about : ∀ p ∈ payouts, p.market = market) (asset : Asset) (account : Account) :
    Balances.changeOf (payouts.flatMap (movements c)) asset account =
      credited payouts asset account -
        if account = c.feeAccount then market.spread asset (totalBase payouts) (totalQuote payouts)
        else 0 := by
  induction payouts with
  | nil => simp [credited, Market.spread, totalBase, totalQuote]
  | cons p rest ih =>
    obtain ⟨rfl, others⟩ := List.forall_mem_cons.1 about
    have base : totalBase (p :: rest) = p.base + totalBase rest := List.sum_cons
    have quote : totalQuote (p :: rest) = p.quote + totalQuote rest := List.sum_cons
    have first : credited (p :: rest) asset account =
        (if p.provider = account then p.market.spread asset p.base p.quote else 0) +
          credited rest asset account := by
      rw [credited, List.filter_cons]
      split <;> simp_all [credited]
    rw [List.flatMap_cons, Balances.changeOf_append, ih others, changeOf_single, first, base, quote,
      Int.natCast_add, Int.natCast_add, Market.spread_add]
    split_ifs <;> omega

end Payout

namespace Exchange

open Payout (basePot quotePot totalBase totalQuote due weightsOf)

variable {carrier : Carrier ρ} {x y : Exchange ρ} {market : Market} {pool : Pool}
    {weights : Nat × Nat}
  {tally : Payout.Tally} {rest : List (Account × Position)} {fault : Fault}

/-- A settlement of a market with this pool made these payouts and left this dust: on the books, in
the ledger and in the events. -/
structure Apportions (x : Exchange ρ) (market : Market) (pool : Pool) (payouts : List Payout)
    (dust : Nat × Nat) (y : Exchange ρ) : Prop where
  paid : ∀ p, p ∈ payouts ↔ p.market = market ∧ (p.base ≠ 0 ∨ p.quote ≠ 0) ∧
    ∃ position, (p.provider, position) ∈ x.store.positionsOf market ∧
      p.base = (basePot pool (x.store.positionsOf market)).share position.base ∧
      p.quote = (quotePot pool (x.store.positionsOf market)).share position.quote
  inOrder : (payouts.map (·.provider)).Pairwise fun a b => compare a b = .lt
  told : x.Delivers (payouts.map Payout.event) y
  balances : ∀ asset account, (y.balance asset account : Int) =
    x.balance asset account + Payout.credited payouts asset account -
      if account = x.config.feeAccount then
        market.spread asset (totalBase payouts) (totalQuote payouts)
      else 0
  base : (basePot pool (x.store.positionsOf market)).Splits (totalBase payouts) dust.1
  quote : (quotePot pool (x.store.positionsOf market)).Splits (totalQuote payouts) dust.2
  pools : ∀ m, y.store.pool? m =
    if m = market then some ⟨pool.baseReserve, pool.quoteReserve, 0, 0⟩ else x.store.pool? m
  positions : ∀ m, y.store.positionsOf m = x.store.positionsOf m

theorem Leads.apportions {payouts : List Payout} {dust : Nat × Nat} (sound : x.Sound)
    (held : x.store.pool? market = some pool) (leads : x.Leads [.settled market payouts dust] y) :
    x.Apportions market pool payouts dust y := by
  obtain ⟨pools, positions⟩ := leads.cleared
  have taken := leads.run.taken
  obtain ⟨-, found, reads, due_eq, baseWhole, quoteWhole⟩ := taken.allowed
  obtain rfl : found = pool := Option.some.inj (reads.symm.trans held)
  have due_eq : payouts = due market found (weightsOf found (x.store.positionsOf market))
    (x.store.positionsOf market) := due_eq
  obtain ⟨baseShares, quoteShares⟩ :=
    Payout.totals_due market found (weightsOf found (x.store.positionsOf market))
      (x.store.positionsOf market)
  have about : ∀ p ∈ payouts, p.market = market := by
    rw [due_eq]
    exact fun p paid => (Payout.mem_due_iff.1 paid).1
  have told := leads.follows.delivers
  rw [List.flatMap_singleton] at told
  constructor
  · rw [due_eq]
    exact fun p => Payout.mem_due_iff
  · have sorted := sound.store.sorted market
    rw [← Walk.map_fst_positionsOf] at sorted
    rw [due_eq]
    exact sorted.sublist (Payout.sublist_providers_due ..)
  · exact told
  · intro asset account
    have moved := (Balances.moveAll_effect sound.ledger taken.moved).2.2 account asset
    rw [Deal.movements, Payout.changeOf_movements x.config about] at moved
    exact moved.trans (Int.add_sub_assoc ..).symm
  · refine (basePot found _).splits ?_ baseWhole
    rw [due_eq, baseShares, basePot, List.map_map]
    rfl
  · refine (quotePot found _).splits ?_ quoteWhole
    rw [due_eq, quoteShares, quotePot, List.map_map]
    rfl
  · intro m
    rw [pools, held]
    rfl
  · exact positions

structure Within (c : Config) (market : Market) (pool : Pool) (weights : Nat × Nat)
    (tally : Payout.Tally) (rest : List (Account × Position)) : Prop where
  baseFits : c.Fits pool.baseFees
  quoteFits : c.Fits pool.quoteFees
  base : tally.base + totalBase (due market pool weights rest) ≤ pool.baseFees
  quote : tally.quote + totalQuote (due market pool weights rest) ≤ pool.quoteFees

theorem Within.payProvider (plain : carrier.Plain) (sound : x.Sound) {provider : Account}
    {position : Position}
    (within : Within x.config market pool weights tally ((provider, position) :: rest)) :
    Ends (payProvider carrier market pool weights provider position tally) x
      (fun fault => ∃ cause, fault = .transfer cause)
      fun after _ => Within x.config market pool weights after rest := by
  obtain ⟨baseFits, quoteFits, base, quote⟩ := within
  obtain ⟨baseDue, quoteDue⟩ := Payout.totals_due_cons market pool weights provider position rest
  rw [baseDue] at base
  rw [quoteDue] at quote
  have baseRoom := Config.fits_iff.1 baseFits
  have quoteRoom := Config.fits_iff.1 quoteFits
  refine .read
    (.computed (Payout.share_of_fits (by omega)) (.computed (Payout.share_of_fits (by omega)) ?_))
  generalize pool.baseFees * position.base / weights.1 = paidBase at base ⊢
  generalize pool.quoteFees * position.quote / weights.2 = paidQuote at quote ⊢
  split
  next nothing =>
    obtain ⟨rfl, rfl⟩ := nothing
    exact .pure ⟨baseFits, quoteFits, by omega, by omega⟩
  next =>
    refine .transfer plain sound (fun cause => ⟨cause, rfl⟩) fun l host _ sound' => ?_
    refine .transfer plain sound' (fun cause => ⟨cause, rfl⟩) fun l' host' _ _ => ?_
    refine .computed (Amount.add_eq_ok_iff.2 ⟨rfl, by omega⟩) ?_
    refine .computed (Amount.add_eq_ok_iff.2 ⟨rfl, by omega⟩) ?_
    exact .step (emit_eq ..)
      (.pure ⟨baseFits, quoteFits, by dsimp only; omega, by dsimp only; omega⟩)

theorem Ends.and_yields {α : Type} {m : Action (Exchange ρ) α} {fails : Fault → Prop}
    {first second : α → Exchange ρ → Prop} (ends : Ends m x fails first)
    (yields : Yields m x second) :
    Ends m x fails fun a y => first a y ∧ second a y := by
  rcases ends with stopped | ⟨a, y, done, reached⟩
  · exact .inl stopped
  · exact .inr ⟨a, y, done, reached, Ends.reached yields done⟩

theorem Within.payProviders (plain : carrier.Plain) {bound : Nat} {walk : Walk} (sound : x.Sound)
    (before : walk.Before x.store rest) (some : rest.length < bound)
    (within : Within x.config market pool weights tally rest) :
    Ends (payProviders carrier market pool weights bound walk tally) x
      (fun fault => ∃ cause, fault = .transfer cause)
      fun after _ => Within x.config market pool weights after [] := by
  induction bound generalizing walk rest x tally with
  | zero => omega
  | succ bound ih =>
    refine .read ?_
    cases rest with
    | nil =>
      rw [Walk.next_eq_none before sound.store]
      exact .pure within
    | cons item rest =>
      obtain ⟨walk', next, before'⟩ := Walk.next_eq_some before sound.store
      rw [next]
      refine ((within.payProvider plain sound).and_yields
        (yields_payProvider plain sound item.1 item.2)).bind fun after y ⟨within', _, pays⟩ => ?_
      have onward := ih pays.sound (by rw [pays.store]; exact before') (by simpa using some)
        (by rw [pays.config]; exact within')
      rwa [pays.config] at onward

/-- What may stop a settlement: the market's name, the sum of all contributions, or a transfer. -/
def MayStop (x : Exchange ρ) (market : Market) (fault : Fault) : Prop :=
  marketOf (.int market.base) (.int market.quote) = .error fault ∨
    Payout.totals x.config.cap (x.store.positionsOf market) = .error fault ∨
    ∃ cause, fault = .transfer cause

theorem payOut_ends (plain : carrier.Plain) (sound : x.Sound)
    (held : x.store.pool? market = some pool)
    (baseFits : x.config.Fits pool.baseFees) (quoteFits : x.config.Fits pool.quoteFees) :
    Ends (payOut carrier market) x (x.MayStop market) fun _ _ => True := by
  refine .lift (fun fault failed => .inl failed) fun checked named => ?_
  obtain ⟨rfl, valid⟩ := marketOf_self named
  refine .requirePool (fun absent => by rw [held] at absent; cases absent) fun found reads => ?_
  obtain rfl : found = pool := Option.some.inj (reads.symm.trans held)
  refine .read (.read (.lift (fun fault failed => .inr (.inl failed)) fun sums summed => ?_))
  obtain rfl := (Payout.totals_eq_ok_iff.1 summed).1
  have before := Walk.before_start x.store checked x.config.pageSize_pos
  obtain ⟨baseDue, quoteDue⟩ :=
    Payout.totals_due_le_fees checked found (x.store.positionsOf checked)
  have within : Within x.config checked found (weightsOf found (x.store.positionsOf checked)) {}
      (x.store.positionsOf checked) :=
        ⟨baseFits, quoteFits, by simpa using baseDue, by simpa using quoteDue⟩
  refine Ends.bind (((within.payProviders plain sound before (by omega)).and_yields
    (yields_payProviders plain sound before (by omega))).weaken
      (fun fault told => .inr (.inr told)) fun _ _ => id) ?_
  rintro after y ⟨within', -, pays⟩
  have baseRoom := Config.fits_iff.1 baseFits
  have quoteRoom := Config.fits_iff.1 quoteFits
  have basePaid := within'.base
  have quotePaid := within'.quote
  refine .computed (Amount.sub_eq_ok_iff.2 ⟨by omega, rfl, by omega⟩) ?_
  refine .computed (Amount.sub_eq_ok_iff.2 ⟨by omega, rfl, by omega⟩) ?_
  have held' : y.store.pool? checked = some found := by rw [pays.store]; exact held
  exact .step (putPool_eq held' _) (.pure trivial)

/-- Over a carrier that refuses what it likes, a settlement that succeeds pays each provider its
floored share of both sides, and nothing else; one that fails does so for the market's name, for the
sum of all contributions to a side, or for a transfer, and for no other computation. -/
theorem settle_exact (plain : carrier.Plain) (sound : x.Sound)
    (held : x.store.pool? market = some pool)
    (baseFits : x.config.Fits pool.baseFees) (quoteFits : x.config.Fits pool.quoteFees) :
    (∀ payouts dust y, settle carrier market x = (.ok (payouts, dust), y) →
      x.Apportions market pool payouts dust y) ∧
    ∀ fault y, settle carrier market x = (.error fault, y) → x.MayStop market fault := by
  constructor
  · intro payouts dust y done
    exact (leads_of_settle plain sound done).apportions sound held
  · intro fault y failed
    have body : Ends (payOut carrier market) x.opened (x.MayStop market) fun _ _ => True :=
      payOut_ends plain sound.opened held baseFits quoteFits
    exact (body.unit (journaled_payOut plain.journaled market) sound).told failed

def drained : Exchange Unit :=
  let funded := (morning.fund 1 Config.usual.feeAccount 10).fund 2 Config.usual.feeAccount 20
  { funded with
    store := ((({} : Store).writePool ⟨1, 2⟩ ⟨191824, 208523, 10, 20⟩ none).putPosition ⟨1, 2⟩ "bob"
      ⟨100000, 100000⟩).putPosition ⟨1, 2⟩ "alice" ⟨100000, 100000⟩ }

theorem sound_drained : drained.Sound where
  store := by
    have pool : (({} : Store).writePool ⟨1, 2⟩ ⟨191824, 208523, 10, 20⟩ none).Coherent :=
      Store.coherent_empty.writePool _ none
    exact (pool.putPosition _).putPosition _
  ledger := (sound_morning.ledger.put _ _ rfl).put _ _ rfl

/-- The base side is weighed against the contributions and leaves nothing over, the quote side
against the reserve. -/
theorem settle_exact_drained :
    let payouts : List Payout := [⟨⟨1, 2⟩, "alice", 5, 9⟩, ⟨⟨1, 2⟩, "bob", 5, 9⟩]
    ∃ y, settle .direct ⟨1, 2⟩ drained = (.ok (payouts, 0, 2), y) ∧
      drained.Apportions ⟨1, 2⟩ ⟨191824, 208523, 10, 20⟩ payouts (0, 2) y := by
  intro payouts
  have paid : (settle .direct ⟨1, 2⟩ drained).1.toOption = some (payouts, 0, 2) := by decide +kernel
  have held : drained.store.pool? ⟨1, 2⟩ = some ⟨191824, 208523, 10, 20⟩ := by decide +kernel
  cases done : settle .direct ⟨1, 2⟩ drained with
  | mk outcome y =>
    rw [done] at paid
    cases outcome with
    | error fault => cases paid
    | ok answer =>
      cases paid
      exact ⟨y, rfl, (settle_exact Carrier.plain_direct sound_drained held (by decide +kernel)
        (by decide +kernel)).1 _ _ _ done⟩

end Exchange

end LiquidityPools
