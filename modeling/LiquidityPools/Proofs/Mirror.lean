import LiquidityPools.Proofs.Snapshot
import LiquidityPools.Proofs.Verdict
import Mathlib.Algebra.BigOperators.Group.List.Basic
import Mathlib.Data.List.Nodup

/-!
The mirror of an exchange: each market turned round, with the sides of its pool and of its positions
exchanged, over the same ledger. A mirror answers for the same assets, so it is solvent if the
exchange is, and a write that is turned round writes the mirror of what is written.
-/

namespace LiquidityPools

namespace Table

variable {κ α β : Type} [Ord κ] [Std.TransOrd κ] [Std.LawfulEqOrd κ]

def rekey (f : κ → κ) (g : α → β) (t : Table κ α) : Table κ β :=
  t.entries.foldr (fun e made => made.insert (f e.1) (g e.2)) ∅

variable [DecidableEq κ] {f : κ → κ} {g : α → β}

theorem get?_rekey (involutive : ∀ k, f (f k) = k) (t : Table κ α) (k : κ) :
    (t.rekey f g).get? k = (t.get? (f k)).map g := by
  obtain ⟨entries, sorted⟩ := t
  show (entries.foldr (fun e made => made.insert (f e.1) (g e.2)) ∅ : Table κ β).get? k =
    (find (f k) entries).map g
  induction entries with
  | nil => rfl
  | cons e rest ih =>
    obtain ⟨first, others⟩ := List.pairwise_cons.1 sorted
    rw [List.foldr_cons, get?_insert, ih others]
    split
    next here =>
      have found : find (f k) (e :: rest) = some e.2 := by
        rw [here, involutive, find_eq_some_iff sorted]
        exact List.mem_cons_self
      rw [found, Option.map_some]
    next elsewhere =>
      have apart : f k ≠ e.1 := fun same => elsewhere (by rw [← same, involutive])
      congr 1
      refine Option.ext fun a => ?_
      rw [find_eq_some_iff others, find_eq_some_iff sorted, List.mem_cons]
      refine ⟨.inr, fun member => member.resolve_left fun same => apart ?_⟩
      rw [← same]

omit [Std.TransOrd κ] [DecidableEq κ] in
theorem nodup_entries (t : Table κ α) : t.entries.Nodup :=
  List.Nodup.of_map Prod.fst (nodup_of_sorted t.sorted_keys)

omit [DecidableEq κ] in
/-- A table that answers under other keys with other values has these entries, in some order. -/
theorem perm_of_get? (involutive : ∀ k, f (f k) = k) (injective : g.Injective) {s : Table κ α}
    {t : Table κ β} (same : ∀ k, t.get? (f k) = (s.get? k).map g) :
    t.entries.Perm (s.entries.map (Prod.map f g)) := by
  have apart : (Prod.map f g).Injective := Function.Injective.prodMap
    (fun a b same => by rw [← involutive a, same, involutive]) injective
  refine (List.perm_ext_iff_of_nodup t.nodup_entries (s.nodup_entries.map apart)).2 fun ⟨k, b⟩ => ?_
  rw [← get?_eq_some_iff, ← involutive k, same, Option.map_eq_some_iff, List.mem_map]
  constructor
  · rintro ⟨a, held, rfl⟩
    exact ⟨(f k, a), get?_eq_some_iff.1 held, rfl⟩
  · rintro ⟨⟨j, a⟩, member, turned⟩
    simp only [Prod.map_apply, Prod.mk.injEq] at turned
    obtain ⟨key, rfl⟩ := turned
    rw [involutive] at key
    rw [← key, involutive]
    exact ⟨a, get?_eq_some_iff.2 member, rfl⟩

omit [DecidableEq κ] in
theorem sum_of_get? (involutive : ∀ k, f (f k) = k) (injective : g.Injective) {s : Table κ α}
    {t : Table κ β} (same : ∀ k, t.get? (f k) = (s.get? k).map g) {w : κ → α → Int}
    {v : κ → β → Int} (counts : ∀ k a, v (f k) (g a) = w k a) : t.sum v = s.sum w := by
  rw [sum, ((perm_of_get? involutive injective same).map _).sum_eq, List.map_map, sum]
  exact congrArg List.sum (List.map_congr_left fun e _ => counts e.1 e.2)

end Table

theorem Market.flip_inj {m n : Market} : m.flip = n.flip ↔ m = n :=
  ⟨fun same => by rw [← m.flip_flip, same, n.flip_flip], congrArg _⟩

theorem Market.flip_injective : Function.Injective Market.flip := fun _ _ => flip_inj.1

theorem Market.valid_flip {m : Market} : m.flip.Valid ↔ m.Valid := by
  unfold Valid flip
  constructor
  · exact fun ⟨base, quote, differ⟩ => ⟨quote, base, differ.symm⟩
  · exact fun ⟨base, quote, differ⟩ => ⟨quote, base, differ.symm⟩

@[simp] theorem Pool.flip_flip (p : Pool) : p.flip.flip = p := rfl

theorem Position.isEmpty_flip (p : Position) : p.flip.isEmpty = p.isEmpty := Bool.and_comm ..

def Undo.flip : Undo → Undo
  | .pool market before => .pool market.flip (before.map Pool.flip)
  | .position market provider before => .position market.flip provider (before.map Position.flip)

namespace Store

def mirror (s : Store) : Store where
  pools := s.pools.rekey Market.flip Pool.flip
  positions := s.positions.rekey (Prod.map Market.flip id) Position.flip
  providers := s.providers.rekey Market.flip id
  journal := s.journal.map Undo.flip
  depth := s.depth

/-- The second store holds what the first does, each market turned round. -/
structure Mirrors (s t : Store) : Prop where
  pools : ∀ market, t.pool? market.flip = (s.pool? market).map Pool.flip
  positions : ∀ market provider,
    t.position? market.flip provider = (s.position? market provider).map Position.flip

variable {s t : Store}

theorem mirrors_mirror (s : Store) : s.Mirrors s.mirror where
  pools market := Table.get?_rekey Market.flip_flip s.pools market.flip
  positions market provider :=
    Table.get?_rekey (fun _ => rfl) s.positions (market.flip, provider)

theorem providersOf_mirror (s : Store) (market : Market) :
    s.mirror.providersOf market.flip = s.providersOf market := by
  rw [providersOf, mirror, Table.get?_rekey Market.flip_flip, Market.flip_flip, Option.map_id, id,
    providersOf]

theorem Coherent.mirror (coherent : s.Coherent) : s.mirror.Coherent where
  mem_iff market provider := by
    rw [← market.flip_flip, providersOf_mirror, coherent.mem_iff, hasPosition, hasPosition,
      s.mirrors_mirror.positions, Option.isSome_map]
  sorted market := by
    rw [← market.flip_flip, providersOf_mirror]
    exact coherent.sorted _
  kept market := by
    rw [Store.mirror, Table.get?_rekey Market.flip_flip, Option.map_id, id]
    exact coherent.kept _

namespace Mirrors

theorem bare_eq (mirrors : s.Mirrors t) (coherent : s.Coherent) (coherent' : t.Coherent) :
    t.bare = s.mirror.bare := by
  refine Store.bare_eq coherent' coherent.mirror ?_ ?_
  · refine Table.ext_get? fun market => ?_
    have left := mirrors.pools market.flip
    have right := s.mirrors_mirror.pools market.flip
    rw [Market.flip_flip] at left right
    exact left.trans right.symm
  · refine Table.ext_get? fun (market, provider) => ?_
    have left := mirrors.positions market.flip provider
    have right := s.mirrors_mirror.positions market.flip provider
    rw [Market.flip_flip] at left right
    exact left.trans right.symm

section Views

variable (mirrors : s.Mirrors t)

include mirrors

theorem hasPool (market : Market) : t.hasPool market.flip = s.hasPool market := by
  rw [Store.hasPool, mirrors.pools, Option.isSome_map, Store.hasPool]

theorem hasPosition (market : Market) (provider : Account) :
    t.hasPosition market.flip provider = s.hasPosition market provider := by
  rw [Store.hasPosition, mirrors.positions, Option.isSome_map, Store.hasPosition]

theorem position (market : Market) (provider : Account) :
    t.position market.flip provider = (s.position market provider).flip := by
  rw [Store.position, mirrors.positions, Store.position]
  cases s.position? market provider <;> rfl

theorem positionsOf (coherent : s.Coherent) (coherent' : t.Coherent) (market : Market) :
    t.positionsOf market.flip = (s.positionsOf market).map (Prod.map id Position.flip) := by
  have listed : t.providersOf market.flip = s.providersOf market := by
    rw [← s.providersOf_mirror]
    show t.bare.providersOf market.flip = s.mirror.bare.providersOf market.flip
    rw [mirrors.bare_eq coherent coherent']
  rw [Store.positionsOf, listed, Store.positionsOf, List.map_map]
  refine List.map_congr_left fun provider _ => ?_
  rw [Function.comp_apply, withPosition, withPosition, mirrors.position]
  rfl

end Views

section Writes

variable {market : Market} {provider : Account} {position : Position} {pool : Pool}

theorem writePool (mirrors : s.Mirrors t) (before before' : Option Pool) :
    (s.writePool market pool before).Mirrors (t.writePool market.flip pool.flip before') where
  pools other := by
    simp only [pool?_writePool, Market.flip_inj, mirrors.pools]
    split <;> rfl
  positions := mirrors.positions

theorem putPosition (mirrors : s.Mirrors t) :
    (s.putPosition market provider position).Mirrors
      (t.putPosition market.flip provider position.flip) where
  pools := mirrors.pools
  positions other account := by
    simp only [position?_putPosition, Prod.mk.injEq, Market.flip_inj, mirrors.positions]
    split <;> rfl

theorem keepPosition (mirrors : s.Mirrors t) :
    (s.keepPosition market provider position).Mirrors
      (t.keepPosition market.flip provider position.flip) := by
  unfold Store.keepPosition
  rw [Position.isEmpty_flip, mirrors.hasPosition]
  split
  · exact mirrors
  · exact mirrors.putPosition

theorem revise (mirrors : s.Mirrors t) {f g : Pool → Pool}
    (same : ∀ pool, g pool.flip = (f pool).flip) :
    (s.revise market f).Mirrors (t.revise market.flip g) := by
  unfold Store.revise
  rw [mirrors.pools]
  cases s.pool? market with
  | none => exact mirrors
  | some pool =>
    simp only [Option.map_some, same]
    exact mirrors.writePool _ _

theorem bare (mirrors : s.Mirrors t) : s.bare.Mirrors t.bare := ⟨mirrors.pools, mirrors.positions⟩

end Writes

end Mirrors

end Store

section Solvent

variable {c : Config} {asset : Asset}

theorem Market.spread_flip (m : Market) (asset : Asset) (base quote : Int) :
    m.flip.spread asset quote base = m.spread asset base quote := Int.add_comm ..

theorem Pool.Fits.flip {p : Pool} (fits : p.Fits c) : p.flip.Fits c :=
  ⟨fits.quoteReserve, fits.baseReserve, fits.quoteFees, fits.baseFees⟩

theorem Pool.flip_injective : Function.Injective Pool.flip :=
  fun p q same => by rw [← p.flip_flip, same, q.flip_flip]

namespace Store

variable {s : Store}

theorem reserves_mirror (s : Store) (asset : Asset) : s.mirror.reserves asset = s.reserves asset :=
  Table.sum_of_get? Market.flip_flip Pool.flip_injective s.mirrors_mirror.pools
    fun m _ => m.spread_flip asset _ _

theorem fees_mirror (s : Store) (asset : Asset) : s.mirror.fees asset = s.fees asset :=
  Table.sum_of_get? Market.flip_flip Pool.flip_injective s.mirrors_mirror.pools
    fun m _ => m.spread_flip asset _ _

theorem WellFormed.mirror (wellFormed : s.WellFormed c) : s.mirror.WellFormed c where
  pools market pool held := by
    rw [← market.flip_flip, s.mirrors_mirror.pools] at held
    obtain ⟨found, known, rfl⟩ := Option.map_eq_some_iff.1 held
    obtain ⟨valid, fits⟩ := wellFormed.pools _ found known
    exact ⟨Market.valid_flip.1 valid, fits.flip⟩
  positions market provider position held := by
    rw [← market.flip_flip, s.mirrors_mirror.positions] at held
    obtain ⟨found, known, rfl⟩ := Option.map_eq_some_iff.1 held
    obtain ⟨pooled, may, fits⟩ := wellFormed.positions _ provider found known
    rw [← market.flip_flip, s.mirrors_mirror.hasPool]
    exact ⟨pooled, may, fits.quote, fits.base⟩

end Store

def Books.mirror (b : Books) : Books := ⟨b.store.mirror, b.balances⟩

theorem Books.Solvent.mirror {b : Books} (solvent : b.Solvent c) : b.mirror.Solvent c where
  coherent := solvent.coherent.mirror
  sound := solvent.sound
  outside market provider held := by
    refine solvent.outside market.flip provider ?_
    rw [← b.store.mirrors_mirror.hasPosition]
    exact held
  uncapped := solvent.uncapped
  wellFormed := solvent.wellFormed.mirror
  covered account asset := by
    rw [Books.owed, Books.mirror, Store.reserves_mirror, Store.fees_mirror]
    exact solvent.covered account asset

namespace Exchange

variable {ρ : Type} {x : Exchange ρ}

def mirror (x : Exchange ρ) : Exchange ρ := { x with store := x.store.mirror }

theorem Solvent.mirror (solvent : x.Solvent) : x.mirror.Solvent :=
  ⟨⟨solvent.sound.store.mirror, solvent.sound.ledger⟩, Books.Solvent.mirror solvent.books⟩

end Exchange

end Solvent

namespace Except

variable {ε α β γ δ : Type} {m : Except ε α} {m' : Except ε β} {n : Except ε β}

theorem toOption_eq_some_iff {a : α} : m.toOption = some a ↔ m = .ok a := by
  cases m with
  | error e => exact ⟨nofun, nofun⟩
  | ok b => simp [Except.toOption]

theorem bind_alike {f : α → Except ε γ} {f' : β → Except ε δ} {g : α → β} {h : γ → δ}
    (start : m'.toOption = m.toOption.map g)
    (alike : ∀ a, (f' (g a)).toOption = (f a).toOption.map h) :
    (m' >>= f').toOption = (m >>= f).toOption.map h := by
  cases m with
  | error e =>
    cases m' with
    | error e' => rfl
    | ok b => cases start
  | ok a =>
    cases m' with
    | error e' => cases start
    | ok b =>
      cases start
      exact alike a

theorem map_toOption_bind {f : α → Except ε β} {f' : α → Except ε γ} {g : β → γ}
    (alike : ∀ a, (f' a).toOption = (f a).toOption.map g) :
    (m >>= f').toOption = (m >>= f).toOption.map g := by
  have start : m.toOption = m.toOption.map id := by rw [Option.map_id, id]
  exact bind_alike start alike

/-- Only the fault depends on which of two computations is made first. -/
theorem toOption_bind_comm (f : α → β → Except ε γ) :
    (m >>= fun a => n >>= f a).toOption = (n >>= fun b => m >>= (f · b)).toOption := by
  cases m with
  | error e =>
    cases n with
    | error e' => rfl
    | ok b => rfl
  | ok a =>
    cases n with
    | error e' => rfl
    | ok b => rfl

end Except

def Quote.flip (q : Quote) : Quote :=
  { q with
    side := q.side.flip, newBaseReserve := q.newQuoteReserve, newQuoteReserve := q.newBaseReserve }

namespace Quote

variable {cap : Int} {pool : Pool} {side : Side} {gross : Int} {rate : FeeRate} {quote : Quote}

/-- Only the words of a fault depend on how the market is turned. -/
theorem price_flip (cap : Int) (pool : Pool) (side : Side) (gross : Int) (rate : FeeRate) :
    (price cap pool.flip side.flip gross rate).toOption =
      (price cap pool side gross rate).toOption.map flip := by
  have turned : side.flip.orient pool.flip.baseReserve pool.flip.quoteReserve =
      side.orient pool.baseReserve pool.quoteReserve := by cases side <;> rfl
  unfold price
  rw [turned]
  split
  next => rfl
  next =>
    dsimp only
    split
    next => rfl
    next =>
      split
      all_goals
        refine Except.map_toOption_bind fun fee => Except.map_toOption_bind fun net => ?_
        refine Except.map_toOption_bind fun swap => ?_
        cases side <;> rfl

end Quote

section Verdicts

variable (c : Config) (b : Books) (caller : Account) (market : Market) (base quote : Nat)

namespace Books

theorem short_mirror :
    b.mirror.Short caller market.flip quote base ↔ b.Short caller market base quote := or_comm

theorem opening_mirror :
    b.mirror.opening caller market.flip quote base =
      (b.opening caller market base quote).map Pool.flip := by
  simp only [opening, short_mirror]
  simp only [mirror, b.store.mirrors_mirror.hasPool]
  split_ifs <;> rfl

theorem adding_mirror :
    b.mirror.adding c caller market.flip quote base =
      (b.adding c caller market base quote).map Position.flip := by
  simp only [adding, short_mirror]
  simp only [mirror, b.store.mirrors_mirror.pools, b.store.mirrors_mirror.position]
  cases b.store.pool? market with
  | none => rfl
  | some pool =>
    have same : ((pool.quoteReserve + quote ≤ c.cap ∧ pool.baseReserve + base ≤ c.cap) ∧
        (b.store.position market caller).quote + quote ≤ c.cap ∧
        (b.store.position market caller).base + base ≤ c.cap) ↔
      ((pool.baseReserve + base ≤ c.cap ∧ pool.quoteReserve + quote ≤ c.cap) ∧
        (b.store.position market caller).base + base ≤ c.cap ∧
        (b.store.position market caller).quote + quote ≤ c.cap) :=
      and_congr and_comm and_comm
    simp only [Option.map_some, Pool.flip, Position.flip, same]
    split_ifs <;> rfl

theorem trading_mirror (side : Side) (amount least : Nat) :
    b.mirror.trading c caller market.flip side.flip amount least =
      (b.trading c caller market side amount least).map Quote.flip := by
  have spent : (side.flip.orient market.flip.base market.flip.quote).1 =
      (side.orient market.base market.quote).1 := by cases side <;> rfl
  simp only [trading, spent]
  simp only [mirror, b.store.mirrors_mirror.pools]
  cases b.store.pool? market with
  | none => rfl
  | some pool =>
    have fees : Exchange.spentFees side.flip pool.flip = Exchange.spentFees side pool := by
      cases side <;> rfl
    simp only [Option.map_some, Quote.price_flip, fees]
    split_ifs
    · rfl
    · cases (Quote.price c.cap pool side amount c.feeRate).toOption with
      | none => rfl
      | some quote =>
        simp only [Option.map_some, Quote.flip]
        split_ifs <;> rfl

end Books

theorem Store.withdrawal_mirror (s : Store) :
    (s.mirror.withdrawal caller market.flip quote base).mapError Fault.kind =
      ((s.withdrawal caller market base quote).mapError Fault.kind).map Position.flip := by
  simp only [withdrawal, s.mirrors_mirror.pools, s.mirrors_mirror.position]
  cases s.pool? market with
  | none => rfl
  | some pool =>
    have same :
        ((s.position market caller).quote < quote ∨ (s.position market caller).base < base) ↔
        ((s.position market caller).base < base ∨
          (s.position market caller).quote < quote) := or_comm
    simp only [Option.map_some, Pool.flip, Position.flip, same]
    split_ifs <;> rfl

end Verdicts

section Deals

namespace Event

def Kind.mirror : Kind → Kind
  | .bought => .sold
  | .sold => .bought
  | kind => kind

def Kind.names : Kind → List String
  | .bought => ["quote_spent", "fee", "base_received"]
  | .sold => ["base_spent", "fee", "quote_received"]
  | _ => ["base_amount", "quote_amount"]

def nameMirror : String → String
  | "base_amount" => "quote_amount"
  | "quote_amount" => "base_amount"
  | "base_spent" => "quote_spent"
  | "quote_spent" => "base_spent"
  | "base_received" => "quote_received"
  | "quote_received" => "base_received"
  | name => name

def mirror (e : Event) : Event where
  kind := e.kind.mirror
  account := e.account
  market := e.market.flip
  amounts := e.kind.mirror.names.map fun name => (name, e.amount (nameMirror name))

variable (account : Account) (market : Market)

theorem mirror_bought (spent fee received : Nat) :
    (bought account market spent fee received).mirror =
      sold account market.flip spent fee received :=
  rfl

theorem mirror_sold (spent fee received : Nat) :
    (sold account market spent fee received).mirror =
      bought account market.flip spent fee received :=
  rfl

end Event

def Payout.flip (p : Payout) : Payout := ⟨p.market.flip, p.provider, p.quote, p.base⟩

theorem Payout.event_flip (p : Payout) : p.flip.event = p.event.mirror := rfl

namespace Deal

def mirror : Deal → Deal
  | .opened caller market base quote => .opened caller market.flip quote base
  | .added caller market base quote => .added caller market.flip quote base
  | .withdrawn caller market base quote => .withdrawn caller market.flip quote base
  | .traded caller market amount quote => .traded caller market.flip amount quote.flip
  | .settled market payouts dust => .settled market.flip (payouts.map Payout.flip) dust.swap

theorem events_mirror (deal : Deal) : deal.mirror.events = deal.events.map Event.mirror := by
  cases deal with
  | opened | added | withdrawn => rfl
  | traded caller market amount quote =>
    obtain ⟨side⟩ := quote
    cases side with
    | buy => exact congrArg ([·]) (Event.mirror_bought ..).symm
    | sell => exact congrArg ([·]) (Event.mirror_sold ..).symm
  | settled market payouts dust =>
    simp only [mirror, events, List.map_map]
    exact List.map_congr_left fun p _ => p.event_flip

theorem movements_mirror (c : Config) (deal : Deal) :
    (deal.mirror.movements c).Perm (deal.movements c) := by
  cases deal with
  | opened | added | withdrawn => exact .swap ..
  | traded caller market amount quote =>
    obtain ⟨side⟩ := quote
    cases side <;> rfl
  | settled market payouts dust =>
    simp only [mirror, movements, List.flatMap_map]
    refine List.Perm.flatMap_left _ fun p _ => ?_
    exact .swap ..

def turns : Deal → Pool → Pool
  | .opened _ _ base quote, _ => { baseReserve := base, quoteReserve := quote }
  | .added _ _ base quote, pool =>
    { pool with baseReserve := pool.baseReserve + base, quoteReserve := pool.quoteReserve + quote }
  | .withdrawn _ _ base quote, pool =>
    { pool with baseReserve := pool.baseReserve - base, quoteReserve := pool.quoteReserve - quote }
  | .traded _ _ _ quote, pool =>
    Exchange.afterTrade pool quote (Exchange.spentFees quote.side pool + quote.fee)
  | .settled .., pool => pool.withoutFees

theorem turns_mirror (deal : Deal) (pool : Pool) :
    deal.mirror.turns pool.flip = (deal.turns pool).flip := by
  cases deal with
  | traded caller market amount quote =>
    obtain ⟨side⟩ := quote
    cases side <;> rfl
  | opened | added | withdrawn | settled => rfl

theorem write_mirror {s t : Store} (mirrors : s.Mirrors t) (deal : Deal) :
    (deal.write s).Mirrors (deal.mirror.write t) := by
  have revised : (s.revise deal.market deal.turns).Mirrors
      (t.revise deal.market.flip deal.mirror.turns) := mirrors.revise deal.turns_mirror
  cases deal with
  | opened caller market base quote => exact (mirrors.writePool none none).putPosition.bare
  | added caller market base quote | withdrawn caller market base quote =>
    simp only [write, mirror, mirrors.position]
    exact revised.keepPosition.bare
  | traded caller market amount quote => exact revised.bare
  | settled market payouts dust => exact revised.bare

end Deal

end Deals

end LiquidityPools
