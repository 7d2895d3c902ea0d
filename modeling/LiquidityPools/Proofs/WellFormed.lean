import LiquidityPools.Proofs.Conservation

/-!
What every store that a host can come to looks like. Its markets are pairs of different assets that
markets may trade, all its amounts fit into the width of the configuration, and a position belongs
to a market with a pool and to an account that may call. Each deal restores this by the checks it
has passed; one that spends nothing has passed none on the curve, but then it does not change the
reserves. No deal takes a pool or a position out of the store.
-/

namespace LiquidityPools

def Config.Fits (c : Config) (amount : Nat) : Prop := amount < 2 ^ c.balanceBits

instance (c : Config) (amount : Nat) : Decidable (c.Fits amount) :=
  inferInstanceAs (Decidable (_ < _))

theorem Config.fits_iff {c : Config} {amount : Nat} : c.Fits amount ↔ amount ≤ c.cap := by
  have positive : 0 < 2 ^ c.balanceBits := Nat.two_pow_pos _
  rw [Fits, cap, Amount.capOf, Nat.one_shiftLeft]
  omega

structure Pool.Fits (c : Config) (p : Pool) : Prop where
  baseReserve : c.Fits p.baseReserve
  quoteReserve : c.Fits p.quoteReserve
  baseFees : c.Fits p.baseFees
  quoteFees : c.Fits p.quoteFees

structure Position.Fits (c : Config) (p : Position) : Prop where
  base : c.Fits p.base
  quote : c.Fits p.quote

theorem Quote.Priced.within {cap : Nat} {pool : Pool} {side : Side} {gross : Nat} {quote : Quote}
    (priced : Priced cap pool side gross quote) (base : pool.baseReserve ≤ cap)
    (counter : pool.quoteReserve ≤ cap) :
    quote.newBaseReserve ≤ cap ∧ quote.newQuoteReserve ≤ cap := by
  obtain ⟨-, room, along⟩ := Curve.swap_eq_ok_iff.1 priced.swapped
  obtain rfl := priced.onSide
  have newIn : (quote.side.orient quote.newBaseReserve quote.newQuoteReserve).1 = _ :=
    congrArg Curve.Swap.newReserveIn along
  have newOut : (quote.side.orient quote.newBaseReserve quote.newQuoteReserve).2 = _ :=
    congrArg Curve.Swap.newReserveOut along
  have below := Curve.left_le (quote.side.orient pool.baseReserve pool.quoteReserve).1
    (quote.side.orient pool.baseReserve pool.quoteReserve).2 quote.netAmount
  simp only [Curve.along] at newIn newOut
  cases side : quote.side with
  | buy =>
    simp only [side, Side.orient] at newIn newOut below room
    omega
  | sell =>
    simp only [side, Side.orient] at newIn newOut below room
    omega

namespace Store

structure WellFormed (c : Config) (s : Store) : Prop where
  pools : ∀ market pool, s.pool? market = some pool → market.Valid ∧ pool.Fits c
  positions : ∀ market provider position, s.position? market provider = some position →
    s.hasPool market = true ∧ c.MayCall provider ∧ position.Fits c

structure Keeps (s t : Store) : Prop where
  pools : ∀ market, s.hasPool market = true → t.hasPool market = true
  positions : ∀ market provider, s.hasPosition market provider = true →
    t.hasPosition market provider = true

variable {c : Config} {s t u : Store} {market : Market} {provider : Account} {position : Position}
  {pool : Pool}

theorem wellFormed_empty (c : Config) : WellFormed c {} := ⟨fun _ _ => nofun, fun _ _ _ => nofun⟩

theorem Keeps.refl (s : Store) : s.Keeps s := ⟨fun _ => id, fun _ _ => id⟩

theorem Keeps.trans (earlier : s.Keeps t) (later : t.Keeps u) : s.Keeps u where
  pools market held := later.pools market (earlier.pools market held)
  positions market provider held := later.positions market provider
    (earlier.positions market provider held)

section Views

theorem keeps_writePool (s : Store) (market : Market) (pool : Pool) (before : Option Pool) :
    s.Keeps (s.writePool market pool before) where
  pools other held := by
    rw [hasPool, pool?_writePool]
    split
    · rfl
    · exact held
  positions _ _ := id

theorem keeps_revise (s : Store) (market : Market) (f : Pool → Pool) :
    s.Keeps (s.revise market f) := by
  unfold revise
  split
  · exact keeps_writePool ..
  · exact .refl s

theorem keeps_putPosition (s : Store) (market : Market) (provider : Account) (position : Position) :
    s.Keeps (s.putPosition market provider position) where
  pools _ := id
  positions other account held := by
    rw [hasPosition, position?_putPosition]
    split
    · rfl
    · exact held

theorem keeps_keepPosition (s : Store) (market : Market) (provider : Account)
    (position : Position) :
    s.Keeps (s.keepPosition market provider position) := by
  unfold keepPosition
  split
  · exact .refl s
  · exact keeps_putPosition ..

theorem keeps_bare (s : Store) : s.Keeps s.bare := ⟨fun _ => id, fun _ _ => id⟩

end Views

namespace WellFormed

variable (wellFormed : s.WellFormed c)

include wellFormed

theorem bare : s.bare.WellFormed c := ⟨wellFormed.pools, wellFormed.positions⟩

theorem writePool (valid : market.Valid) (fits : pool.Fits c) (before : Option Pool) :
    (s.writePool market pool before).WellFormed c where
  pools other found held := by
    rw [pool?_writePool] at held
    split at held
    next same =>
      cases held
      exact ⟨same ▸ valid, fits⟩
    next => exact wellFormed.pools other found held
  positions other account recorded held := by
    obtain ⟨pooled, rest⟩ := wellFormed.positions other account recorded held
    exact ⟨(keeps_writePool ..).pools other pooled, rest⟩

theorem revise {f : Pool → Pool} (fits : ∀ pool, s.pool? market = some pool → (f pool).Fits c) :
    (s.revise market f).WellFormed c := by
  unfold Store.revise
  split
  next found held =>
    exact wellFormed.writePool (wellFormed.pools market found held).1
      (fits found held) _
  next => exact wellFormed

theorem putPosition (pooled : s.hasPool market = true) (may : c.MayCall provider)
    (fits : position.Fits c) : (s.putPosition market provider position).WellFormed c where
  pools := wellFormed.pools
  positions other account recorded held := by
    rw [position?_putPosition] at held
    split at held
    next same =>
      cases same
      cases held
      exact ⟨pooled, may, fits⟩
    next => exact wellFormed.positions other account recorded held

theorem keepPosition (pooled : s.hasPool market = true) (may : c.MayCall provider)
    (fits : position.Fits c) : (s.keepPosition market provider position).WellFormed c := by
  unfold Store.keepPosition
  split
  · exact wellFormed
  · exact wellFormed.putPosition pooled may fits

theorem position_fits (market : Market) (provider : Account) :
    (s.position market provider).Fits c := by
  unfold Store.position
  cases held : s.position? market provider with
  | none => exact ⟨Nat.two_pow_pos _, Nat.two_pow_pos _⟩
  | some position => exact (wellFormed.positions market provider position held).2.2

end WellFormed

end Store

namespace Books

variable {c : Config} {b b' : Books} {deal : Deal} {deals : List Deal}

theorem Takes.keeps (taken : b.Takes c deal b') : b.store.Keeps b'.store := by
  rw [taken.store]
  cases deal with
  | opened =>
    exact ((Store.keeps_writePool ..).trans (Store.keeps_putPosition ..)).trans (Store.keeps_bare _)
  | added | withdrawn =>
    exact ((Store.keeps_revise ..).trans (Store.keeps_keepPosition ..)).trans (Store.keeps_bare _)
  | traded | settled => exact (Store.keeps_revise ..).trans (Store.keeps_bare _)

theorem Takes.wellFormed (taken : b.Takes c deal b') (wellFormed : b.store.WellFormed c) :
    b'.store.WellFormed c := by
  have allowed := taken.allowed
  rw [taken.store]
  have zero : c.Fits 0 := Nat.two_pow_pos _
  cases deal with
  | opened caller market base quote =>
    obtain ⟨may, valid, ⟨-, baseFits⟩, ⟨-, quoteFits⟩, -⟩ := allowed
    have baseFits := Config.fits_iff.2 baseFits
    have quoteFits := Config.fits_iff.2 quoteFits
    refine ((wellFormed.writePool valid ⟨baseFits, quoteFits, zero, zero⟩ _).putPosition ?_ may
      ⟨baseFits, quoteFits⟩).bare
    rw [Store.hasPool, Store.pool?_writePool, if_pos rfl]
    rfl
  | added caller market base quote =>
    obtain ⟨may, -, pool, held, ⟨baseFits, quoteFits⟩, heldBase, heldQuote⟩ := allowed
    refine ((wellFormed.revise fun found held' => ?_).keepPosition ?_ may
      ⟨Config.fits_iff.2 heldBase, Config.fits_iff.2 heldQuote⟩).bare
    · obtain rfl := Option.some.inj (held.symm.trans held')
      obtain ⟨-, -, -, baseFees, quoteFees⟩ := wellFormed.pools market pool held
      exact ⟨Config.fits_iff.2 baseFits, Config.fits_iff.2 quoteFits, baseFees, quoteFees⟩
    · exact (Store.keeps_revise ..).pools market (by rw [Store.hasPool, held]; rfl)
  | withdrawn caller market base quote =>
    obtain ⟨may, -, pool, held, -⟩ := allowed
    obtain ⟨heldBase, heldQuote⟩ := wellFormed.position_fits market caller
    refine ((wellFormed.revise fun found held' => ?_).keepPosition ?_ may
      ⟨Nat.lt_of_le_of_lt (Nat.sub_le ..) heldBase,
        Nat.lt_of_le_of_lt (Nat.sub_le ..) heldQuote⟩).bare
    · obtain ⟨-, base, quote, baseFees, quoteFees⟩ := wellFormed.pools market found held'
      exact ⟨Nat.lt_of_le_of_lt (Nat.sub_le ..) base, Nat.lt_of_le_of_lt (Nat.sub_le ..) quote,
        baseFees, quoteFees⟩
    · exact (Store.keeps_revise ..).pools market (by rw [Store.hasPool, held]; rfl)
  | traded caller market amount quote =>
    obtain ⟨-, -, -, pool, held, price, feesFit⟩ := allowed
    refine (wellFormed.revise fun found held' => ?_).bare
    obtain rfl := Option.some.inj (held.symm.trans held')
    obtain ⟨-, base, counter, baseFees, quoteFees⟩ := wellFormed.pools market pool held
    obtain ⟨newBase, newQuote⟩ := (Quote.priced_of_price price).within (Config.fits_iff.1 base)
      (Config.fits_iff.1 counter)
    have newBase := Config.fits_iff.2 newBase
    have newQuote := Config.fits_iff.2 newQuote
    have feesFit := Config.fits_iff.2 feesFit
    unfold Exchange.afterTrade
    split
    · exact ⟨newBase, newQuote, baseFees, feesFit⟩
    · exact ⟨newBase, newQuote, feesFit, quoteFees⟩
  | settled market payouts dust =>
    refine (wellFormed.revise fun found held => ?_).bare
    obtain ⟨-, base, quote, -⟩ := wellFormed.pools market found held
    exact ⟨base, quote, zero, zero⟩

theorem Run.wellFormed (run : b.Run c deals b') (wellFormed : b.store.WellFormed c) :
    b'.store.WellFormed c ∧ b.store.Keeps b'.store := by
  induction run with
  | nil b => exact ⟨wellFormed, .refl _⟩
  | cons taken rest ih =>
    obtain ⟨after, kept⟩ := ih (taken.wellFormed wellFormed)
    exact ⟨after, taken.keeps.trans kept⟩

end Books

open Exchange Program

variable {ρ : Type} {carrier : Carrier ρ} {config : Config} {x y : Exchange ρ}

/-- What a host gets to see from a state on: it mints assets, runs programs, and opens units, inside
of which it goes on in the same way. -/
inductive Program.Onward (carrier : Carrier ρ) (x : Exchange ρ) : Exchange ρ → Prop
  | here : Onward carrier x x
  | mint {y : Exchange ρ} {asset : Asset} {account : Account} {amount : Int} {l : Ledger}
    (seen : Onward carrier x y) (minted : y.ledger.mint asset account amount = .ok l) :
    Onward carrier x { y with ledger := l }
  | opened {y : Exchange ρ} (seen : Onward carrier x y) : Onward carrier x y.opened
  | run {y : Exchange ρ} (seen : Onward carrier x y) (p : Program) :
    Onward carrier x (p.run carrier y).2

namespace Exchange

structure Committed (x : Exchange ρ) : Prop where
  store : x.store.journal = []
  ledger : x.ledger.journal = []

theorem committed_of_reachable (plain : carrier.Plain) (reached : Reachable carrier config x) :
    x.Committed := by
  induction reached with
  | start cap host => exact ⟨rfl, rfl⟩
  | mint reached minted ih =>
    obtain ⟨balances, -, rfl⟩ := Ledger.balances_of_mint minted
    exact ⟨ih.store, ih.ledger⟩
  | @run x reached p ih =>
    obtain ⟨sound, -, top, -⟩ := reached.sound plain.journaled
    obtain ⟨events, follows⟩ := p.orderly plain.journaled x sound
    obtain ⟨store, ledger⟩ := follows.outermost top
    exact ⟨store.trans ih.store, ledger.trans ih.ledger⟩

theorem wellFormed_run (plain : carrier.Plain) (sound : x.Sound)
    (wellFormed : x.store.WellFormed x.config) (p : Program) :
    (p.run carrier x).2.store.WellFormed x.config ∧ x.store.Keeps (p.run carrier x).2.store := by
  obtain ⟨deals, leads, -⟩ := p.commits plain sound
  obtain ⟨after, kept⟩ := leads.run.wellFormed wellFormed.bare
  exact ⟨⟨after.pools, after.positions⟩, ⟨kept.pools, kept.positions⟩⟩

theorem wellFormed_of_reachable (plain : carrier.Plain) (reached : Reachable carrier config x) :
    x.store.WellFormed config := by
  induction reached with
  | start cap host => exact Store.wellFormed_empty config
  | mint reached minted ih => exact ih
  | @run x reached p ih =>
    obtain ⟨sound, rfl, -⟩ := reached.sound plain.journaled
    exact (wellFormed_run plain sound ih p).1

theorem wellFormed_of_onward (plain : carrier.Plain) (sound : x.Sound)
    (wellFormed : x.store.WellFormed x.config) (seen : Onward carrier x y) :
    (y.Sound ∧ y.config = x.config) ∧ y.store.WellFormed x.config ∧ x.store.Keeps y.store := by
  induction seen with
  | here => exact ⟨⟨sound, rfl⟩, wellFormed, .refl _⟩
  | mint seen minted ih =>
    obtain ⟨⟨soundNow, same⟩, rest⟩ := ih
    obtain ⟨balances, added, rfl⟩ := Ledger.balances_of_mint minted
    exact ⟨⟨⟨soundNow.store, soundNow.ledger.add added⟩, same⟩, rest⟩
  | opened seen ih =>
    obtain ⟨⟨soundNow, same⟩, now, kept⟩ := ih
    exact ⟨⟨soundNow.opened, same⟩, ⟨now.pools, now.positions⟩, ⟨kept.pools, kept.positions⟩⟩
  | @run y seen p ih =>
    obtain ⟨⟨soundNow, same⟩, now, kept⟩ := ih
    obtain ⟨events, follows⟩ := p.orderly plain.journaled y soundNow
    rw [← same] at now
    obtain ⟨later, keptOn⟩ := wellFormed_run plain soundNow now p
    exact ⟨⟨follows.sound, follows.config.trans same⟩, same ▸ later, kept.trans keptOn⟩

/-- Whatever a host has done, its store is well-formed and nothing is left to be undone; and
whatever it goes on to do, also while units are open, its store stays well-formed and keeps every
pool and every position that was committed. -/
theorem wellFormed_and_kept (plain : carrier.Plain) (reached : Reachable carrier config x) :
    x.store.WellFormed config ∧ x.Committed ∧
      ∀ y, Onward carrier x y → y.store.WellFormed config ∧ x.store.Keeps y.store := by
  have wellFormed := wellFormed_of_reachable plain reached
  refine ⟨wellFormed, committed_of_reachable plain reached, fun y seen => ?_⟩
  obtain ⟨sound, rfl, -⟩ := reached.sound plain.journaled
  exact (wellFormed_of_onward plain sound wellFormed seen).2

theorem reachable_morning : Reachable .direct .usual morning := by
  have base : Balances.add {} "alice" 1 100000 = .ok (.put {} "alice" 1 100000) :=
    Balances.add_eq_ok_iff.2 ⟨by decide, rfl, by decide +kernel⟩
  have quote : Balances.add (.put {} "alice" 1 100000) "alice" 2 100000 =
      .ok Program.aliceBalances :=
    Balances.add_eq_ok_iff.2 ⟨by decide +kernel, rfl, by decide +kernel⟩
  have mintBase : Ledger.mint 1 "alice" 100000 {} = .ok ⟨.put {} "alice" 1 100000, []⟩ := by
    rw [Ledger.mint, base]
  have mintQuote : Ledger.mint 2 "alice" 100000 ⟨.put {} "alice" 1 100000, []⟩ =
      .ok ⟨Program.aliceBalances, []⟩ := by
    rw [Ledger.mint, quote]
  exact .mint (.mint (.start none ()) mintBase) mintQuote

def founding : Program :=
  .request (.create (.str "alice") (.int 1) (.int 2) (.int 50000) (.int 50000))

def leaving : Program :=
  .request (.withdraw (.str "alice") (.tuple [.int 1, .int 2]) (.int 50000) (.int 50000))

theorem kept_after_leaving :
    let x := (founding.run .direct morning).2
    let y := (leaving.run .direct x).2
    x.Committed ∧ y.store.position ⟨1, 2⟩ "alice" = .empty ∧
      y.store.hasPosition ⟨1, 2⟩ "alice" = true ∧ y.store.WellFormed .usual := by
  intro x y
  have recorded : x.store.hasPosition ⟨1, 2⟩ "alice" = true := by decide +kernel
  have empty : y.store.position ⟨1, 2⟩ "alice" = .empty := by decide +kernel
  obtain ⟨-, committed, onward⟩ :=
    wellFormed_and_kept Carrier.plain_direct (reachable_morning.run founding)
  obtain ⟨wellFormed, kept⟩ := onward y (.run .here leaving)
  exact ⟨committed, empty, kept.positions _ _ recorded, wellFormed⟩

end Exchange

end LiquidityPools
