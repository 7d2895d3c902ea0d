import LiquidityPools.Proofs.Ends
import LiquidityPools.Proofs.WellFormed

/-!
What an exchange owes, its ledger covers. Over the exchange's own ledger, without a cap on balances,
and with custody accounts that nobody else takes from, each custody account always holds at least
the reserves or the fee counters that it answers for; should one account answer for both, it holds
both.
-/

namespace LiquidityPools

namespace Balances

variable {b c : Balances}

theorem cap_of_move {m : Movement} (sound : b.Sound) (moved : b.move m = .ok c) :
    c.cap = b.cap := by
  unfold move at moved
  cases done : Ledger.move m.asset m.source m.dest m.amount ⟨b, []⟩ with
  | error fault => simp [done, Except.map] at moved
  | ok l =>
    rw [done] at moved
    cases moved
    rcases (Ledger.move_eq_ok_iff (l := ⟨b, []⟩) sound).1 done with ⟨-, rfl⟩ | ⟨-, -, rfl⟩
    · rfl
    · rfl

theorem cap_of_moveAll {movements : List Movement} (sound : b.Sound)
    (moved : b.moveAll movements = .ok c) : c.cap = b.cap := by
  induction movements generalizing b with
  | nil => cases moved; rfl
  | cons m rest ih =>
    obtain ⟨d, first, onward⟩ := Except.bind_eq_ok (by rwa [moveAll, List.foldlM_cons] at moved)
    have one : b.moveAll [m] = .ok d := moveAll_cons first rfl
    exact (ih (moveAll_effect sound one).1 onward).trans (cap_of_move sound first)

end Balances

namespace Books

variable {c : Config} {b b' : Books} {deal : Deal} {account : Account} {asset : Asset}

/-- What an account answers for: the pool account for the reserves, the fee account for the
counters. -/
def owed (c : Config) (b : Books) (account : Account) (asset : Asset) : Int :=
  (if account = c.poolAccount then b.store.reserves asset else 0) +
    if account = c.feeAccount then b.store.fees asset else 0

theorem owed_of_isOutside (outside : c.IsOutside account) : b.owed c account asset = 0 := by
  rw [owed, if_neg outside.1, if_neg outside.2, Int.add_zero]

/-- Books whose accounts hold what they answer for. -/
structure Solvent (c : Config) (b : Books) : Prop extends Custodial c b where
  uncapped : b.balances.cap = none
  wellFormed : b.store.WellFormed c
  covered : ∀ account asset, b.owed c account asset ≤ b.balances.get account asset

theorem Takes.covered (taken : b.Takes c deal b') (solvent : b.Solvent c) (account : Account)
    (asset : Asset) : b'.owed c account asset ≤ b'.balances.get account asset := by
  by_cases outside : c.IsOutside account
  · rw [owed_of_isOutside outside]
    exact Int.natCast_nonneg _
  · have held := solvent.covered account asset
    have change := taken.change_custody solvent.coherent solvent.outside outside asset
    have balance := (Balances.moveAll_effect solvent.sound taken.moved).2.2 account asset
    have reserves := taken.reserves asset
    have fees := taken.fees asset
    have dust : 0 ≤ deal.dust asset := by
      cases deal with
      | settled market payouts dust => exact spread_nonneg market asset dust.1 dust.2
      | _ => exact Int.le_refl 0
    unfold owed at held ⊢
    split_ifs at held change ⊢ <;> omega

theorem Takes.solvent (taken : b.Takes c deal b') (solvent : b.Solvent c) : b'.Solvent c where
  toCustodial := taken.custodial solvent.toCustodial
  uncapped := (Balances.cap_of_moveAll solvent.sound taken.moved).trans solvent.uncapped
  wellFormed := taken.wellFormed solvent.wellFormed
  covered := taken.covered solvent

theorem Solvent.reserves_le (solvent : b.Solvent c) (asset : Asset) :
    b.store.reserves asset ≤ b.balances.get c.poolAccount asset := by
  have held := solvent.covered c.poolAccount asset
  have fees := b.store.fees_nonneg asset
  rw [owed, if_pos rfl] at held
  split_ifs at held <;> omega

theorem Solvent.fees_le (solvent : b.Solvent c) (asset : Asset) :
    b.store.fees asset ≤ b.balances.get c.feeAccount asset := by
  have held := solvent.covered c.feeAccount asset
  have reserves := b.store.reserves_nonneg asset
  rw [owed, if_pos rfl] at held
  split_ifs at held <;> omega

end Books

variable {ρ : Type} {config : Config} {x : Exchange ρ}

/-- What a host makes of a new exchange that moves assets on its own ledger, without a cap on
balances: it mints assets, has accounts outside custody send some, opens units and runs programs. It
takes nothing from the custody accounts by its own hand. -/
inductive Program.Entrusted (config : Config) : Exchange ρ → Prop
  | start (host : ρ) : Entrusted config (Exchange.fresh config {} host)
  | mint {x : Exchange ρ} {asset : Asset} {account : Account} {amount : Int} {l : Ledger}
    (reached : Entrusted config x) (gives : 0 ≤ amount ∨ config.IsOutside account)
    (minted : x.ledger.mint asset account amount = .ok l) : Entrusted config { x with ledger := l }
  | send {x : Exchange ρ} {asset : Asset} {source dest : Account} {amount : Nat} {l : Ledger}
    (reached : Entrusted config x) (own : config.IsOutside source)
    (sent : x.ledger.move asset source dest amount = .ok l) :
      Entrusted config { x with ledger := l }
  | opened {x : Exchange ρ} (reached : Entrusted config x) : Entrusted config x.opened
  | run {x : Exchange ρ} (reached : Entrusted config x) (p : Program) :
    Entrusted config (p.run .direct x).2

namespace Exchange

structure Solvent (x : Exchange ρ) : Prop where
  sound : x.Sound
  books : x.books.Solvent x.config

structure Covers (x : Exchange ρ) (market : Market) (pool : Pool) : Prop where
  baseReserve : pool.baseReserve ≤ x.balance market.base x.config.poolAccount
  quoteReserve : pool.quoteReserve ≤ x.balance market.quote x.config.poolAccount
  baseFees : pool.baseFees ≤ x.balance market.base x.config.feeAccount
  quoteFees : pool.quoteFees ≤ x.balance market.quote x.config.feeAccount

namespace Solvent

theorem covers {market : Market} {pool : Pool} (solvent : x.Solvent)
    (held : x.store.pool? market = some pool) : x.Covers market pool := by
  have reserves (asset : Asset) := Int.le_trans (Store.spread_le_reserves held asset)
    (solvent.books.reserves_le asset)
  have fees (asset : Asset) := Int.le_trans (Store.spread_le_fees held asset)
    (solvent.books.fees_le asset)
  have inReserves := market.le_spread pool.baseReserve pool.quoteReserve
  have inFees := market.le_spread pool.baseFees pool.quoteFees
  exact
    { baseReserve := Int.ofNat_le.1 (Int.le_trans inReserves.1 (reserves market.base))
      quoteReserve := Int.ofNat_le.1 (Int.le_trans inReserves.2 (reserves market.quote))
      baseFees := Int.ofNat_le.1 (Int.le_trans inFees.1 (fees market.base))
      quoteFees := Int.ofNat_le.1 (Int.le_trans inFees.2 (fees market.quote)) }

theorem roomy (solvent : x.Solvent) : x.Roomy := ⟨solvent.sound, solvent.books.uncapped⟩

theorem opened (solvent : x.Solvent) : x.opened.Solvent := ⟨solvent.sound.opened, solvent.books⟩

theorem of_leads {y : Exchange ρ} {deals : List Deal} (leads : x.Leads deals y)
    (solvent : x.Solvent) : y.Solvent where
  sound := leads.follows.sound
  books := by
    rw [leads.follows.config]
    exact leads.run.keeps (fun _ _ _ solvent taken => taken.solvent solvent) solvent.books

theorem of_ledger {l : Ledger} (solvent : x.Solvent) (sound : l.Sound)
    (uncapped : l.balances.cap = none) (holds : ∀ account asset, x.config.IsOutside account ∨
      x.balance asset account ≤ l.balance asset account) :
    Solvent { x with ledger := l } where
  sound := ⟨solvent.sound.store, sound⟩
  books :=
    { coherent := solvent.books.coherent, sound, outside := solvent.books.outside, uncapped
      wellFormed := solvent.books.wellFormed
      covered := by
        intro account asset
        rcases holds account asset with outside | enough
        · rw [Books.owed_of_isOutside outside]
          exact Int.natCast_nonneg _
        · exact Int.le_trans (solvent.books.covered account asset) (Int.ofNat_le.2 enough) }

theorem minted {asset : Asset} {account : Account} {amount : Int} {l : Ledger} (solvent : x.Solvent)
    (gives : 0 ≤ amount ∨ x.config.IsOutside account)
    (minted : x.ledger.mint asset account amount = .ok l) : Solvent { x with ledger := l } := by
  obtain ⟨balances, added, rfl⟩ := Ledger.balances_of_mint minted
  obtain ⟨nonneg, -, written⟩ := Balances.add_eq_ok_iff.1 added
  refine solvent.of_ledger (solvent.sound.ledger.add added) (written ▸ solvent.books.uncapped)
    fun other held => ?_
  by_cases same : other = account
  · subst same
    refine gives.symm.imp_right fun grows => ?_
    show x.ledger.balances.get other held ≤ balances.get other held
    rw [written, Balances.get_put]
    split
    next here =>
      cases here
      omega
    next => exact Nat.le_refl _
  · refine .inr ?_
    show x.ledger.balances.get other held ≤ balances.get other held
    rw [written, Balances.get_put, if_neg (by simp [same])]

theorem sent {asset : Asset} {source dest : Account} {amount : Nat} {l : Ledger}
    (solvent : x.Solvent)
    (own : x.config.IsOutside source) (sent : x.ledger.move asset source dest amount = .ok l) :
    Solvent { x with ledger := l } := by
  obtain ⟨sound, -, -, changes⟩ := Ledger.move_effect solvent.sound.ledger sent
  have uncapped : l.balances.cap = none :=
    (Balances.cap_of_move solvent.sound.ledger (Balances.move_of_ledger sent)).trans
      solvent.books.uncapped
  refine solvent.of_ledger sound uncapped fun account held => ?_
  by_cases same : account = source
  · exact .inl (same ▸ own)
  · have change := changes held account
    rw [Movement.change_of_ne_source same] at change
    refine .inr (Int.ofNat_le.1 ?_)
    show (x.ledger.balance held account : Int) ≤ l.balance held account
    split_ifs at change <;> omega

end Solvent

theorem solvent_of_entrusted (entrusted : Program.Entrusted config x) :
    x.Solvent ∧ x.config = config ∧ x.inFlight = [] := by
  induction entrusted with
  | start host =>
    have sound : (fresh config {} host).Sound := sound_fresh (.empty none) config host
    refine ⟨⟨sound,
      ⟨custodial_books sound fun _ _ => nofun, rfl, Store.wellFormed_empty config, ?_⟩⟩, rfl, rfl⟩
    intro account asset
    have nothing : (fresh config {} host).books.owed config account asset = 0 := by
      rw [Books.owed]
      exact (congrArg₂ (· + ·) (ite_self _) (ite_self _)).trans (Int.add_zero 0)
    exact Int.le_trans (Int.le_of_eq nothing) (Int.natCast_nonneg _)
  | mint reached gives minted ih =>
    obtain ⟨solvent, rfl, idle⟩ := ih
    exact ⟨solvent.minted gives minted, rfl, idle⟩
  | send reached own sent ih =>
    obtain ⟨solvent, rfl, idle⟩ := ih
    exact ⟨solvent.sent own sent, rfl, idle⟩
  | opened reached ih =>
    obtain ⟨solvent, config, idle⟩ := ih
    exact ⟨solvent.opened, config, idle⟩
  | run reached p ih =>
    obtain ⟨solvent, config, idle⟩ := ih
    obtain ⟨deals, leads, -⟩ := p.commits Carrier.plain_direct solvent.sound
    exact ⟨.of_leads leads solvent, leads.follows.config.trans config,
      leads.follows.inFlight.trans idle⟩

theorem depth_of_entrusted (entrusted : Program.Entrusted config x) :
    x.store.depth = x.openUnits.length := by
  induction entrusted with
  | start host => rfl
  | mint reached gives minted ih => exact ih
  | send reached own sent ih => exact ih
  | opened reached ih => exact congrArg (· + 1) ih
  | run reached p ih =>
    obtain ⟨deals, leads, -⟩ :=
      p.commits Carrier.plain_direct (solvent_of_entrusted reached).1.sound
    rw [leads.follows.depth, ih, leads.follows.openUnits, openUnits_deliver, List.length_modifyHead]

def fund (x : Exchange ρ) (asset : Asset) (account : Account) (amount : Nat) : Exchange ρ :=
  { x with
    ledger :=
      { x.ledger with
        balances := x.ledger.balances.put account asset (x.balance asset account + amount) } }

end Exchange

theorem Program.Entrusted.fund (entrusted : Program.Entrusted config x) (asset : Asset)
    (account : Account)
    (amount : Nat) : Program.Entrusted config (x.fund asset account amount) := by
  have room :=
    Balances.exceeded?_of_uncapped (Exchange.solvent_of_entrusted entrusted).1.roomy.uncapped
  have added : x.ledger.balances.add account asset amount =
      .ok (x.fund asset account amount).ledger.balances :=
    Balances.add_eq_ok_iff.2 ⟨by omega, room _, rfl⟩
  have minted : x.ledger.mint asset account amount = .ok (x.fund asset account amount).ledger := by
    rw [Ledger.mint, added]
    rfl
  exact .mint entrusted (.inl (Int.natCast_nonneg amount)) minted

end LiquidityPools
