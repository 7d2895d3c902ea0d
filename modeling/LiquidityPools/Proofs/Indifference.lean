import LiquidityPools.Exchange.Call
import LiquidityPools.Proofs.Blind
import LiquidityPools.Proofs.Conservation
import LiquidityPools.Proofs.Snapshot

/-!
Whether an empty position is recorded makes no difference. Two exchanges that differ in recorded
empty positions, in their journals and in what they had told before are alike from then on: whatever
a host has both of them do, both end it in the same way, tell the same events and are alike again.
-/

namespace LiquidityPools

variable {ρ α β : Type}

/-- Where the histories of two exchanges part: what each had told in the place where the next event
goes, and what the places around it hold. -/
structure Parting where
  first : List Event
  second : List Event
  outer : List (List Event)

def Parting.Tell (p : Parting) (places places' : List (List Event)) : Prop :=
  ∃ inner told,
    places = inner ++ (p.first ++ told) :: p.outer ∧
      places' = inner ++ (p.second ++ told) :: p.outer

namespace Parting.Tell

variable {p : Parting} {l l' : List (List Event)}

theorem cons (tell : p.Tell l l') (events : List Event) : p.Tell (events :: l) (events :: l') := by
  obtain ⟨inner, told, rfl, rfl⟩ := tell
  exact ⟨events :: inner, told, rfl, rfl⟩

theorem append (tell : p.Tell l l') (events : List Event) :
    p.Tell (l.modifyHead (· ++ events)) (l'.modifyHead (· ++ events)) := by
  obtain ⟨inner, told, rfl, rfl⟩ := tell
  cases inner with
  | nil => exact ⟨[], told ++ events, by simp, by simp⟩
  | cons innermost rest => exact ⟨(innermost ++ events) :: rest, told, by simp, by simp⟩

theorem length_eq (tell : p.Tell l l') : l'.length = l.length := by
  obtain ⟨inner, told, rfl, rfl⟩ := tell
  simp

theorem head_eq {events events' : List Event} {outer outer' : List (List Event)}
    (before : p.Tell outer outer') (tell : p.Tell (events :: outer) (events' :: outer')) :
    events' = events := by
  obtain ⟨older, earlier, rfl, rfl⟩ := before
  obtain ⟨inner, told, first, second⟩ := tell
  cases inner with
  | nil =>
    have lengths := congrArg List.length first
    simp at lengths
    omega
  | cons innermost rest => exact (List.cons.inj second).1.trans (List.cons.inj first).1.symm

end Parting.Tell

theorem Ledger.move_of_balances {l k : Ledger} (same : k.balances = l.balances) (asset : Asset)
    (source dest : Account) (amount : Nat) :
    (k.move asset source dest amount).map (·.balances) =
      (l.move asset source dest amount).map (·.balances) := by
  obtain ⟨balances, journal⟩ := l
  obtain ⟨_, journal'⟩ := k
  cases same
  unfold move
  split
  next => rfl
  next =>
    have held : balance ⟨balances, journal'⟩ asset source =
        balance ⟨balances, journal⟩ asset source := rfl
    rw [held]
    split
    next => rfl
    next =>
      cases balances.add dest asset amount with
      | error cause => rfl
      | ok credited =>
        dsimp only
        cases credited.subtract source asset amount with
        | error cause => rfl
        | ok left => rfl

namespace Exchange

def places (x : Exchange ρ) : List (List Event) := x.openUnits ++ [x.log]

theorem places_of_delivers {x y : Exchange ρ} {events : List Event}
    (delivers : x.Delivers events y) :
    y.places = x.places.modifyHead (· ++ events) := by
  rw [places, delivers.log, delivers.openUnits, log_deliver, openUnits_deliver, places]
  cases x.openUnits <;> simp

/-- The exchanges differ at most in recorded empty positions, in their journals, in the carrier's
state and in what they had told before their histories parted. -/
structure Alike (p : Parting) (x z : Exchange ρ) : Prop where
  config : z.config = x.config
  pools : z.store.pools = x.store.pools
  position : ∀ market account, z.store.position market account = x.store.position market account
  balances : z.ledger.balances = x.ledger.balances
  inFlight : z.inFlight = x.inFlight
  tell : p.Tell x.places z.places
  sound : x.Sound
  sound' : z.Sound

namespace Alike

variable {p : Parting} {x z y w : Exchange ρ}

theorem pool? (alike : x.Alike p z) (market : Market) :
    z.store.pool? market = x.store.pool? market := by
  rw [Store.pool?, alike.pools, Store.pool?]

theorem balance (alike : x.Alike p z) (asset : Asset) (account : Account) :
    z.balance asset account = x.balance asset account := by
  rw [Exchange.balance, Ledger.balance, alike.balances, Exchange.balance, Ledger.balance]

theorem pendingMarkets (alike : x.Alike p z) (after : Option Market) :
    z.pendingMarkets after = x.pendingMarkets after := by
  simp only [Exchange.pendingMarkets, Store.markets, Store.pool?, alike.pools]

theorem openUnits_nil (alike : x.Alike p z) : z.openUnits = [] ↔ x.openUnits = [] := by
  have lengths := alike.tell.length_eq
  simp only [places, List.length_append, List.length_singleton] at lengths
  rw [← List.length_eq_zero_iff, ← List.length_eq_zero_iff]
  omega

theorem opened (alike : x.Alike p z) : x.opened.Alike p z.opened where
  config := alike.config
  pools := alike.pools
  position := alike.position
  balances := alike.balances
  inFlight := alike.inFlight
  tell := alike.tell.cons []
  sound := alike.sound.opened
  sound' := alike.sound'.opened

theorem withHost (alike : x.Alike p z) (host host' : ρ) :
    Alike p { x with host } { z with host := host' } :=
  ⟨alike.config, alike.pools, alike.position, alike.balances, alike.inFlight, alike.tell,
    ⟨alike.sound.store, alike.sound.ledger⟩, ⟨alike.sound'.store, alike.sound'.ledger⟩⟩

theorem withStores (alike : x.Alike p z) {s t : Store} (pools : t.pools = s.pools)
    (position : ∀ market account, t.position market account = s.position market account)
    (coherent : s.Coherent) (coherent' : t.Coherent) :
    Alike p { x with store := s } { z with store := t } :=
  ⟨alike.config, pools, position, alike.balances, alike.inFlight, alike.tell,
    ⟨coherent, alike.sound.ledger⟩, ⟨coherent', alike.sound'.ledger⟩⟩

theorem writePool (alike : x.Alike p z) (market : Market) (pool : Pool)
    (before before' : Option Pool) :
    Alike p { x with store := x.store.writePool market pool before }
      { z with store := z.store.writePool market pool before' } :=
  alike.withStores (congrArg (·.insert market pool) alike.pools) alike.position
    (alike.sound.store.writePool pool before) (alike.sound'.store.writePool pool before')

theorem putPosition (alike : x.Alike p z) (market : Market) (provider : Account)
    (position : Position) :
    Alike p { x with store := x.store.putPosition market provider position }
      { z with store := z.store.putPosition market provider position } := by
  refine alike.withStores alike.pools (fun m a => ?_) (alike.sound.store.putPosition position)
    (alike.sound'.store.putPosition position)
  rw [Store.position_putPosition, Store.position_putPosition, alike.position]

theorem keepPosition (alike : x.Alike p z) (market : Market) (provider : Account)
    (position : Position) :
    Alike p { x with store := x.store.keepPosition market provider position }
      { z with store := z.store.keepPosition market provider position } := by
  refine alike.withStores ?_ (fun m a => ?_) alike.sound.store.keepPosition
    alike.sound'.store.keepPosition
  · rw [Store.pools_keepPosition, Store.pools_keepPosition, alike.pools]
  · rw [Store.position_keepPosition, Store.position_keepPosition, alike.position]

theorem withLedgers (alike : x.Alike p z) {l k : Ledger} (balances : k.balances = l.balances)
    (sound : l.Sound) (sound' : k.Sound) : Alike p { x with ledger := l } { z with ledger := k } :=
  ⟨alike.config, alike.pools, alike.position, balances, alike.inFlight, alike.tell,
    ⟨alike.sound.store, sound⟩, ⟨alike.sound'.store, sound'⟩⟩

theorem closed {events events' : List Event} (alike : x.Alike p z) (inner : y.Alike p w)
    (above : x.opened.Above events y) (above' : z.opened.Above events' w) :
    events' = events ∧ (x.closed y events).Alike p (z.closed w events') := by
  have follows := Follows.of_opened above
  have follows' := Follows.of_opened above'
  have placed : y.places = events :: x.places := by
    rw [places, above.openUnits, above.log]
    rfl
  have placed' : w.places = events' :: z.places := by
    rw [places, above'.openUnits, above'.log]
    rfl
  have same : events' = events := by
    have tell := inner.tell
    rw [placed, placed'] at tell
    exact alike.tell.head_eq tell
  have books := books_closed x y events
  have books' := books_closed z w events'
  refine ⟨same,
    { config := follows'.config.trans (alike.config.trans follows.config.symm)
      pools := ?_
      position := fun m a => ?_
      balances := ?_
      inFlight := follows'.inFlight.trans (alike.inFlight.trans follows.inFlight.symm)
      tell := ?_
      sound := follows.sound
      sound' := follows'.sound }⟩
  · show (z.closed w events').books.store.pools = (x.closed y events).books.store.pools
    rw [books, books']
    exact inner.pools
  · show (z.closed w events').books.store.position m a =
      (x.closed y events).books.store.position m a
    rw [books, books']
    exact inner.position m a
  · show (z.closed w events').books.balances = (x.closed y events).books.balances
    rw [books, books']
    exact inner.balances
  · rw [places_of_delivers follows.delivers, places_of_delivers follows'.delivers, same]
    exact alike.tell.append events

end Alike

/-- Done to alike exchanges, the step ends in the same way and leaves alike exchanges. -/
def Indifferent (m : Action (Exchange ρ) α) : Prop :=
  ∀ (p : Parting) (x z : Exchange ρ), x.Alike p z → (m z).1 = (m x).1 ∧ (m x).2.Alike p (m z).2

namespace Indifferent

variable {m : Action (Exchange ρ) α} {f : α → Action (Exchange ρ) β} {p : Parting}
    {x z : Exchange ρ}

theorem pure (a : α) : Indifferent (Pure.pure a : Action (Exchange ρ) α) :=
  fun _ _ _ alike => ⟨rfl, alike⟩

theorem fail (fault : Fault) : Indifferent (Action.fail fault : Action (Exchange ρ) α) :=
  fun _ _ _ alike => ⟨rfl, alike⟩

theorem lift (outcome : Except Fault α) : Indifferent (liftM outcome : Action (Exchange ρ) α) :=
  fun _ _ _ alike => ⟨rfl, alike⟩

theorem bind (first : Indifferent m) (next : ∀ a, Indifferent (f a)) : Indifferent (m >>= f) := by
  intro p x z alike
  obtain ⟨same, after⟩ := first p x z alike
  rw [Action.bind_apply, Action.bind_apply]
  cases ran : m x with
  | mk outcome y =>
    cases ran' : m z with
    | mk outcome' w =>
      rw [ran, ran'] at same after
      obtain rfl : outcome' = outcome := same
      cases outcome' with
      | error fault => exact ⟨rfl, after⟩
      | ok a => exact next a p y w after

theorem map (indifferent : Indifferent m) (g : α → β) : Indifferent (g <$> m) :=
  indifferent.bind fun a => .pure (g a)

theorem attempt (indifferent : Indifferent m) : Indifferent (Action.attempt m) := by
  intro p x z alike
  obtain ⟨same, after⟩ := indifferent p x z alike
  exact ⟨congrArg Except.ok same, after⟩

theorem read {look : Exchange ρ → α}
    (same : ∀ {p : Parting} {x z : Exchange ρ}, x.Alike p z → f (look z) = f (look x))
    (next : ∀ a, Indifferent (f a)) : Indifferent (Action.read look >>= f) := by
  intro p x z alike
  rw [Action.bind_read, Action.bind_read, same alike]
  exact next _ p x z alike

theorem collect (indifferent : Indifferent m) (journaled : Journaled m) :
    Indifferent (collect m) := by
  intro p x z alike
  obtain ⟨same, inner⟩ := indifferent p x.opened z.opened alike.opened
  obtain ⟨events, above, fate⟩ := journaled.collect alike.sound
  obtain ⟨events', above', fate'⟩ := journaled.collect alike.sound'
  rcases fate with ⟨fault, failed, ended⟩ | ⟨a, done, ended⟩
  · rcases fate' with ⟨fault', failed', ended'⟩ | ⟨a', done', -⟩
    · rw [failed, failed'] at same
      obtain rfl : fault' = fault := Except.error.inj same
      rw [ended, ended']
      exact ⟨rfl, alike.withHost _ _⟩
    · rw [failed, done'] at same
      cases same
  · rcases fate' with ⟨fault', failed', -⟩ | ⟨a', done', ended'⟩
    · rw [done, failed'] at same
      cases same
    · rw [done, done'] at same
      obtain rfl : a' = a := Except.ok.inj same
      obtain ⟨rfl, closed⟩ := alike.closed inner above above'
      rw [ended, ended']
      exact ⟨rfl, closed⟩

theorem unit (indifferent : Indifferent m) (journaled : Journaled m) : Indifferent (unit m) :=
  (indifferent.collect journaled).map Prod.fst

section Steps

variable {market : Market} {asset : Asset} {account source dest : Account} {amount : Nat}

theorem requirePool : Indifferent (requirePool market : Action (Exchange ρ) Pool) := by
  intro p x z alike
  rw [requirePool_same, requirePool_same]
  refine ⟨?_, alike⟩
  unfold Exchange.requirePool
  rw [alike.pool?]
  cases x.store.pool? market <;> rfl

theorem requireBalance :
    Indifferent (requireBalance asset account amount : Action (Exchange ρ) Unit) := by
  intro p x z alike
  rw [requireBalance_same, requireBalance_same]
  refine ⟨?_, alike⟩
  unfold Exchange.requireBalance
  rw [alike.balance]
  dsimp only
  split <;> rfl

theorem insertPool (pool : Pool) :
    Indifferent (insertPool market pool : Action (Exchange ρ) Unit) := by
  intro p x z alike
  simp only [Exchange.insertPool, Lens.change, storePlace, Store.insertPool, alike.pool?]
  cases x.store.pool? market with
  | some before => exact ⟨rfl, alike⟩
  | none => exact ⟨rfl, alike.writePool market pool none none⟩

theorem putPool (pool : Pool) : Indifferent (putPool market pool : Action (Exchange ρ) Unit) := by
  intro p x z alike
  simp only [Exchange.putPool, Lens.change, storePlace, Store.putPool, alike.pool?]
  cases x.store.pool? market with
  | none => exact ⟨rfl, alike⟩
  | some before => exact ⟨rfl, alike.writePool market pool (some before) (some before)⟩

theorem recordPosition (position : Position) :
    Indifferent (Action.modify (storePlace.modify (Store.putPosition market account position)) :
      Action (Exchange ρ) Unit) :=
  fun _ _ _ alike => ⟨rfl, alike.putPosition market account position⟩

/-- An empty position may be recorded on one side and left out on the other. -/
theorem putPosition (position : Position) :
    Indifferent (putPosition market account position : Action (Exchange ρ) Unit) := by
  intro p x z alike
  rw [putPosition_eq, putPosition_eq]
  exact ⟨rfl, alike.keepPosition market account position⟩

theorem emit (event : Event) : Indifferent (emit event : Action (Exchange ρ) Unit) := by
  intro p x z alike
  rw [emit_eq, emit_eq]
  refine ⟨rfl, alike.config, alike.pools, alike.position, alike.balances, alike.inFlight, ?_,
    ⟨alike.sound.store, alike.sound.ledger⟩, ⟨alike.sound'.store, alike.sound'.ledger⟩⟩
  have tell := alike.tell
  rw [places, places] at tell
  show p.Tell (x.openUnits.modifyHead _ ++ [x.log]) (z.openUnits.modifyHead _ ++ [z.log])
  by_cases none : x.openUnits = []
  · rw [none, alike.openUnits_nil.2 none] at tell ⊢
    exact tell
  · obtain ⟨unit, units, here⟩ := List.exists_cons_of_ne_nil none
    obtain ⟨unit', units', here'⟩ := List.exists_cons_of_ne_nil (mt alike.openUnits_nil.1 none)
    rw [here, here'] at tell ⊢
    exact tell.append [event]

theorem transfer :
    Indifferent (Carrier.direct.transfer asset source dest amount : Action (Exchange ρ) Unit) := by
  intro p x z alike
  have same := Ledger.move_of_balances alike.balances asset source dest amount
  simp only [Carrier.direct, Lens.change, ledgerPlace]
  cases moved : x.ledger.move asset source dest amount with
  | error fault =>
    cases moved' : z.ledger.move asset source dest amount with
    | error fault' =>
      rw [moved, moved'] at same
      exact ⟨congrArg Except.error (Except.error.inj same), alike⟩
    | ok k =>
      rw [moved, moved'] at same
      cases same
  | ok l =>
    cases moved' : z.ledger.move asset source dest amount with
    | error fault' =>
      rw [moved, moved'] at same
      cases same
    | ok k =>
      rw [moved, moved'] at same
      exact ⟨rfl, alike.withLedgers (Except.ok.inj same)
        (Ledger.move_effect alike.sound.ledger moved).1
        (Ledger.move_effect alike.sound'.ledger moved').1⟩

end Steps

section Bodies

variable (caller : Account) (market : Market) (base quote : Nat)

theorem openPool :
    Indifferent (openPool .direct caller market base quote : Action (Exchange ρ) Pool) := by
  refine .read (fun alike => ?_) fun taken => ?_
  · rw [Store.hasPool, alike.pool?, Store.hasPool]
  dsimp only
  split
  · exact .fail _
  refine .bind .requireBalance fun _ => .bind .requireBalance fun _ => ?_
  refine .read (fun alike => by rw [alike.config]) fun custody => ?_
  refine .bind .transfer fun _ => .bind .transfer fun _ => ?_
  refine .bind (.insertPool _) fun _ => .bind (.recordPosition _) fun _ => ?_
  exact .bind (.emit _) fun _ => .pure _

theorem addLiquidity :
    Indifferent (addLiquidity .direct caller market base quote : Action (Exchange ρ) Position) := by
  refine .bind .requirePool fun pool => .bind .requireBalance fun _ =>
    .bind .requireBalance fun _ => ?_
  refine .read (fun alike => by rw [cap, alike.config, cap]) fun cap => ?_
  refine .bind (.lift _) fun _ => .bind (.lift _) fun _ => ?_
  refine .read (fun alike => by rw [alike.position]) fun held => ?_
  refine .bind (.lift _) fun _ => .bind (.lift _) fun _ => ?_
  refine .read (fun alike => by rw [alike.config]) fun custody => ?_
  refine .bind .transfer fun _ => .bind .transfer fun _ => ?_
  refine .bind (.putPool _) fun _ => .bind (.putPosition _) fun _ => ?_
  exact .bind (.emit _) fun _ => .pure _

theorem removeLiquidity :
    Indifferent
      (removeLiquidity .direct caller market base quote : Action (Exchange ρ) Position) := by
  refine .bind .requirePool fun pool => .read (fun alike => by rw [alike.position]) fun held => ?_
  dsimp only
  split
  · exact .fail _
  refine .read (fun alike => by rw [cap, alike.config, cap]) fun cap => ?_
  refine .bind (.lift _) fun _ => .bind (.lift _) fun _ => ?_
  refine .bind (.lift _) fun _ => .bind (.lift _) fun _ => ?_
  refine .read (fun alike => by rw [alike.config]) fun custody => ?_
  refine .bind .transfer fun _ => .bind .transfer fun _ => ?_
  refine .bind (.putPool _) fun _ => .bind (.putPosition _) fun _ => ?_
  exact .bind (.emit _) fun _ => .pure _

theorem swap (side : Side) (amount least : Nat) :
    Indifferent (swap .direct side caller market amount least : Action (Exchange ρ) Quote) := by
  refine .bind .requirePool fun pool => .bind .requireBalance fun _ => ?_
  refine .read (fun alike => by rw [alike.config]) fun config => .bind (.lift _) fun quote => ?_
  dsimp only
  split
  · exact .fail _
  refine .bind (.lift _) fun collected => ?_
  refine .bind .transfer fun _ => .bind .transfer fun _ => ?_
  refine .bind .transfer fun _ => .bind (.putPool _) fun _ => ?_
  exact .bind (.emit _) fun _ => .pure _

end Bodies

end Indifferent

end Exchange

section Contributing

def Position.Contributes (item : Account × Position) : Bool := !item.2.isEmpty

theorem Position.eq_empty_of_isEmpty {position : Position} (idle : position.isEmpty = true) :
    position = .empty := by
  obtain ⟨base, quote⟩ := position
  obtain ⟨rfl, rfl⟩ : base = 0 ∧ quote = 0 := by simpa [isEmpty] using idle
  rfl

theorem Store.contributing_eq {s t : Store} (coherent : s.Coherent) (coherent' : t.Coherent)
    {market : Market} (same : ∀ account, t.position market account = s.position market account) :
    (t.positionsOf market).filter Position.Contributes =
      (s.positionsOf market).filter Position.Contributes := by
  have listed (u : Store) (sound : u.Coherent) (account : Account) :
      account ∈ (u.providersOf market).filter (fun a => !(u.position market a).isEmpty) ↔
        (u.position market account).isEmpty = false := by
    rw [List.mem_filter, sound.mem_iff, Bool.not_eq_true', and_iff_right_iff_imp]
    intro filled
    by_contra absent
    have none : u.position? market account = none := by simpa [hasPosition] using absent
    rw [position, none] at filled
    cases filled
  have providers : (t.providersOf market).filter (fun a => !(t.position market a).isEmpty) =
      (s.providersOf market).filter (fun a => !(s.position market a).isEmpty) :=
    Table.eq_of_sorted ((coherent'.sorted market).sublist List.filter_sublist)
      ((coherent.sorted market).sublist List.filter_sublist) fun account => by
        rw [listed t coherent', listed s coherent, same]
  rw [positionsOf, positionsOf, List.filter_map, List.filter_map]
  refine (congrArg (List.map (t.withPosition market)) providers).trans ?_
  refine List.map_congr_left fun account _ => ?_
  rw [withPosition, withPosition, same]

namespace Payout

theorem addContribution_empty {cap : Int} {sums : ℕ × ℕ}
    (fits : (sums.1 : Int) ≤ cap ∧ (sums.2 : Int) ≤ cap)
    (account : Account) : addContribution cap sums (account, .empty) = .ok sums :=
  addContribution_eq_ok_iff.2 ⟨rfl, fits⟩

theorem foldlM_contributing {cap : Int} {sums : ℕ × ℕ}
    (fits : (sums.1 : Int) ≤ cap ∧ (sums.2 : Int) ≤ cap) (positions : List (Account × Position)) :
    positions.foldlM (addContribution cap) sums =
      (positions.filter Position.Contributes).foldlM (addContribution cap) sums := by
  induction positions generalizing sums with
  | nil => rfl
  | cons item rest ih =>
    obtain ⟨account, position⟩ := item
    cases idle : position.isEmpty with
    | true =>
      obtain rfl := Position.eq_empty_of_isEmpty idle
      rw [List.filter_cons_of_neg (by simp [Position.Contributes, idle]), List.foldlM_cons,
        addContribution_empty fits]
      exact ih fits
    | false =>
      rw [List.filter_cons_of_pos (by simp [Position.Contributes, idle]), List.foldlM_cons,
        List.foldlM_cons]
      cases added : addContribution cap sums (account, position) with
      | error fault => rfl
      | ok next => exact ih (addContribution_eq_ok_iff.1 added).2

theorem totals_contributing (cap : ℕ) (positions : List (Account × Position)) :
    totals cap positions = totals cap (positions.filter Position.Contributes) :=
  foldlM_contributing ⟨Int.natCast_nonneg cap, Int.natCast_nonneg cap⟩ positions

end Payout

namespace Exchange

open Payout (Tally)

variable {carrier : Carrier ρ} {market : Market} {pool : Pool} {weights : ℕ × ℕ} {tally : Tally}

theorem payProvider_empty (account : Account) :
    payProvider carrier market pool weights account .empty tally = pure tally := by
  have share (cap : Int) (collected weight : ℕ) : Payout.share cap collected 0 weight = .ok 0 :=
    if_pos (.inr (.inl rfl))
  funext x
  rw [payProvider, Action.bind_read, Position.empty, share, Action.bind_lift, share,
    Action.bind_lift, if_pos ⟨rfl, rfl⟩]

theorem payAll_contributing (positions : List (Account × Position)) :
    payAll carrier market pool weights positions tally =
      payAll carrier market pool weights (positions.filter Position.Contributes) tally := by
  induction positions generalizing tally with
  | nil => rfl
  | cons item rest ih =>
    obtain ⟨account, position⟩ := item
    cases idle : position.isEmpty with
    | true =>
      obtain rfl := Position.eq_empty_of_isEmpty idle
      rw [List.filter_cons_of_neg (by simp [Position.Contributes, idle]), payAll, List.foldlM_cons,
        payProvider_empty, pure_bind]
      exact ih
    | false =>
      rw [List.filter_cons_of_pos (by simp [Position.Contributes, idle]), payAll, List.foldlM_cons,
        payAll, List.foldlM_cons]
      exact congrArg (payProvider carrier market pool weights account position tally >>= ·)
        (funext fun _ => ih)

namespace Indifferent

theorem payProvider (provider : Account) (position : Position) (tally : Tally) :
    Indifferent (payProvider .direct market pool weights provider position tally :
      Action (Exchange ρ) Tally) := by
  refine .read (fun alike => by rw [alike.config]) fun config => ?_
  refine .bind (.lift _) fun base => .bind (.lift _) fun quote => ?_
  split
  · exact .pure _
  refine .bind .transfer fun _ => .bind .transfer fun _ => ?_
  refine .bind (.lift _) fun _ => .bind (.lift _) fun _ => ?_
  exact .bind (.emit _) fun _ => .pure _

theorem payAll (positions : List (Account × Position)) (tally : Tally) :
    Indifferent
      (payAll .direct market pool weights positions tally : Action (Exchange ρ) Tally) := by
  induction positions generalizing tally with
  | nil => exact .pure tally
  | cons item rest ih =>
    rw [Exchange.payAll, List.foldlM_cons]
    exact .bind (payProvider item.1 item.2 tally) ih

theorem payOutAll (market : Market) :
    Indifferent (payOutAll .direct market : Action (Exchange ρ) (List Payout × ℕ × ℕ)) := by
  refine .bind (.lift _) fun market => .bind .requirePool fun pool => ?_
  refine .read (fun alike => by rw [alike.config]) fun config =>
    .read (fun {p x z} alike => ?_) fun positions => ?_
  · have same := Store.contributing_eq alike.sound.store alike.sound'.store (alike.position market)
    simp only [Payout.totals_contributing _ (Store.positionsOf _ market),
      payAll_contributing (Store.positionsOf _ market), same]
  refine .bind (.lift _) fun totals => .bind (.payAll positions _) fun tally => ?_
  refine .bind (.lift _) fun baseDust => .bind (.lift _) fun quoteDust => ?_
  exact .bind (.putPool _) fun _ => .pure _

theorem settle (market : Market) :
    Indifferent (settle .direct market : Action (Exchange ρ) (List Payout × ℕ × ℕ)) := by
  refine .unit (fun p x z alike => ?_) (journaled_payOut Carrier.plain_direct.journaled market)
  rw [payOut_eq_payOutAll Carrier.plain_direct alike.sound,
    payOut_eq_payOutAll Carrier.plain_direct alike.sound']
  exact payOutAll market p x z alike

end Indifferent

end Exchange

end Contributing

namespace Exchange

open Payout (Report)

namespace Indifferent

section Runs

theorem modifyFlight (change : List Market → List Market) :
    Indifferent (Action.modify fun x : Exchange ρ => { x with inFlight := change x.inFlight }) :=
  fun _ _ _ alike => ⟨rfl, alike.config, alike.pools, alike.position, alike.balances,
    congrArg change alike.inFlight, alike.tell, ⟨alike.sound.store, alike.sound.ledger⟩,
    ⟨alike.sound'.store, alike.sound'.ledger⟩⟩

theorem settleInFlight (market : Market) :
    Indifferent (settleInFlight .direct market :
      Action (Exchange ρ) (Except Fault (List Payout × ℕ × ℕ))) := by
  refine .bind (.modifyFlight (market :: ·)) fun _ =>
    .bind (Indifferent.settle market).attempt fun outcome => ?_
  exact .bind (.modifyFlight (List.filter (· ≠ market))) fun _ => .pure outcome

theorem settleAll (markets : List Market) (report : Report) :
    Indifferent (settleAll .direct markets report : Action (Exchange ρ) Report) := by
  induction markets generalizing report with
  | nil => exact .pure report
  | cons market rest ih =>
    refine .bind (.settleInFlight market) fun outcome => ?_
    cases outcome with
    | ok paid => exact ih _
    | error fault =>
      dsimp only
      split
      · exact ih _
      · exact .fail fault

theorem distribute (after : Option Market) (most : Option ℕ) :
    Indifferent (distribute .direct after most : Action (Exchange ρ) Report) := by
  refine .read (fun alike => by rw [alike.pendingMarkets]) fun pending => ?_
  refine .read (fun alike => by rw [alike.inFlight]) fun busy => ?_
  dsimp only
  split
  · exact .fail _
  exact .bind (.settleAll _ _) fun report => .pure _

theorem distributeOf (after : Option Market) (most : Value) :
    Indifferent (distributeOf .direct after most : Action (Exchange ρ) Report) := by
  refine .read (fun alike => by rw [alike.config]) fun config => ?_
  exact .bind (.lift _) fun most => .distribute after most

theorem distributeOrFail (after : Option Market) (most : Value) :
    Indifferent (distributeOrFail .direct after most : Action (Exchange ρ) Report) := by
  refine .bind (.distributeOf after most) fun report => ?_
  split
  · exact .pure report
  · exact .fail _

end Runs

section Untyped

theorem createOf (caller base quote baseAmount quoteAmount : Value) :
    Indifferent
      (createOf .direct caller base quote baseAmount quoteAmount : Action (Exchange ρ) Pool) := by
  refine .read (fun alike => by rw [alike.config]) fun config => .bind (.lift _) fun caller => ?_
  refine .bind (.lift _) fun market => .bind (.lift _) fun b => .bind (.lift _) fun q => ?_
  dsimp only
  split
  · exact .fail _
  · exact .unit (.openPool caller market b q)
      (journaled_openPool Carrier.plain_direct.journaled caller market b q)

theorem depositOf (caller market baseAmount quoteAmount : Value) :
    Indifferent
      (depositOf .direct caller market baseAmount quoteAmount : Action (Exchange ρ) Position) := by
  refine .read (fun alike => by rw [alike.config]) fun config => .bind (.lift _) fun caller => ?_
  refine .bind (.lift _) fun market => .bind (.lift _) fun b => .bind (.lift _) fun q => ?_
  exact .unit (.addLiquidity caller market b q)
    (journaled_addLiquidity Carrier.plain_direct.journaled caller market b q)

theorem withdrawOf (caller market baseAmount quoteAmount : Value) :
    Indifferent
      (withdrawOf .direct caller market baseAmount quoteAmount : Action (Exchange ρ) Position) := by
  refine .read (fun alike => by rw [alike.config]) fun config => .bind (.lift _) fun caller => ?_
  refine .bind (.lift _) fun market => .bind (.lift _) fun b => .bind (.lift _) fun q => ?_
  exact .unit (.removeLiquidity caller market b q)
    (journaled_removeLiquidity Carrier.plain_direct.journaled caller market b q)

theorem tradeOf (side : Side) (caller market amount least : Value) :
    Indifferent (tradeOf .direct side caller market amount least : Action (Exchange ρ) Quote) := by
  refine .read (fun alike => by rw [alike.config]) fun config => .bind (.lift _) fun caller => ?_
  refine .bind (.lift _) fun market => .bind (.lift _) fun amount => .bind (.lift _) fun least => ?_
  exact .unit (.swap caller market side amount least)
    (journaled_swap Carrier.plain_direct.journaled caller market side amount least)

theorem perform (caller : Value) (args : Arguments) (name : CallName) :
    Indifferent (perform .direct caller args name : Action (Exchange ρ) Unit) := by
  cases name with
  | createMarketPool =>
    refine .bind (.lift _) fun base => .bind (.lift _) fun quote => ?_
    refine .bind (.lift _) fun baseAmount => .bind (.lift _) fun quoteAmount => ?_
    exact .bind (.createOf caller base quote baseAmount quoteAmount) fun _ => .pure ()
  | depositLiquidity =>
    refine .bind (.lift _) fun market => .bind (.lift _) fun base => .bind (.lift _) fun quote => ?_
    exact .bind (.depositOf caller market base quote) fun _ => .pure ()
  | withdrawLiquidity =>
    refine .bind (.lift _) fun market => .bind (.lift _) fun base => .bind (.lift _) fun quote => ?_
    exact .bind (.withdrawOf caller market base quote) fun _ => .pure ()
  | buy =>
    refine .bind (.lift _) fun market => .bind (.lift _) fun amount =>
      .bind (.lift _) fun least => ?_
    exact .bind (.tradeOf .buy caller market amount least) fun _ => .pure ()
  | sell =>
    refine .bind (.lift _) fun market => .bind (.lift _) fun amount =>
      .bind (.lift _) fun least => ?_
    exact .bind (.tradeOf .sell caller market amount least) fun _ => .pure ()

theorem callOrFail (caller call : Value) :
    Indifferent (callOrFail .direct caller call : Action (Exchange ρ) (List Event)) := by
  have performed (args : Arguments) (name : CallName) :
      Indifferent
        (Exchange.collect (Exchange.perform .direct caller args name : Action (Exchange ρ) Unit)) :=
    (Indifferent.perform caller args name).collect
      (orderly_perform Carrier.plain_direct.journaled caller args name).journaled
  unfold Exchange.callOrFail
  split
  · split
    · split
      · exact (performed _ _).map _
      · exact .fail _
    · exact .fail _
  · exact .fail _

theorem call (caller data : Value) :
    Indifferent (call .direct caller data : Action (Exchange ρ) CallResult) := by
  refine .bind (Indifferent.callOrFail caller data).attempt fun outcome => ?_
  cases outcome with
  | ok events => exact .pure _
  | error fault =>
    dsimp only
    split
    · exact .pure _
    · exact .fail fault

end Untyped

theorem mint (asset : Asset) (account : Account) (amount : Int) :
    Indifferent
      (ledgerPlace.change (Ledger.mint asset account amount) : Action (Exchange ρ) Unit) := by
  intro p x z alike
  simp only [Lens.change, ledgerPlace, Ledger.mint, alike.balances]
  cases added : x.ledger.balances.add account asset amount with
  | error cause => exact ⟨rfl, alike⟩
  | ok balances =>
    have sound : balances.Sound := alike.sound.ledger.add added
    exact ⟨rfl, alike.withLedgers rfl sound sound⟩

end Indifferent

/-- What a host can have an exchange do, inside units and outside: operations, payout runs,
transfers of its own and looks at pools, positions and balances, one after the other, each decided
on by what the ones before answered, with faults caught or passed on, and with units around any of
it. -/
inductive Hosted : {α : Type} → Action (Exchange ρ) α → Prop
  | create (caller base quote baseAmount quoteAmount : Value) :
    Hosted (createOf .direct caller base quote baseAmount quoteAmount)
  | deposit (caller market baseAmount quoteAmount : Value) :
    Hosted (depositOf .direct caller market baseAmount quoteAmount)
  | withdraw (caller market baseAmount quoteAmount : Value) :
    Hosted (withdrawOf .direct caller market baseAmount quoteAmount)
  | trade (side : Side) (caller market amount least : Value) :
    Hosted (tradeOf .direct side caller market amount least)
  | call (caller data : Value) : Hosted (call .direct caller data)
  | callOrFail (caller data : Value) : Hosted (callOrFail .direct caller data)
  | settle (market : Market) : Hosted (settle .direct market)
  | distribute (after : Option Market) (most : Value) : Hosted (distributeOf .direct after most)
  | distributeOrFail (after : Option Market) (most : Value) :
      Hosted (distributeOrFail .direct after most)
  | send (asset : Asset) (source dest : Account) (amount : ℕ) :
    Hosted (Carrier.direct.transfer asset source dest amount)
  | pool (market : Market) : Hosted (Action.read (·.store.pool? market))
  | position (market : Market) (account : Account) :
      Hosted (Action.read (·.store.position market account))
  | balance (asset : Asset) (account : Account) : Hosted (Action.read (·.balance asset account))
  | pure {α : Type} (a : α) : Hosted (Pure.pure a)
  | fail {α : Type} (fault : Fault) : Hosted (Action.fail fault : Action (Exchange ρ) α)
  | bind {α β : Type} {m : Action (Exchange ρ) α} {f : α → Action (Exchange ρ) β} (first : Hosted m)
    (next : ∀ a, Hosted (f a)) : Hosted (m >>= f)
  | attempt {α : Type} {m : Action (Exchange ρ) α} (body : Hosted m) : Hosted (Action.attempt m)
  | collect {α : Type} {m : Action (Exchange ρ) α} (body : Hosted m) : Hosted (collect m)

inductive Managed : {α : Type} → Action (Exchange ρ) α → Prop
  | hosted {α : Type} {m : Action (Exchange ρ) α} (hosted : Hosted m) : Managed m
  | mint (asset : Asset) (account : Account) (amount : Int) :
    Managed (ledgerPlace.change (Ledger.mint asset account amount))
  | bind {α β : Type} {m : Action (Exchange ρ) α} {f : α → Action (Exchange ρ) β}
      (first : Managed m)
    (next : ∀ a, Managed (f a)) : Managed (m >>= f)
  | attempt {α : Type} {m : Action (Exchange ρ) α} (body : Managed m) : Managed (Action.attempt m)

theorem Journaled.attempt {m : Action (Exchange ρ) α} (journaled : Journaled m) :
    Journaled (Action.attempt m) := fun x sound inside => journaled x sound inside

theorem Hosted.journaled {m : Action (Exchange ρ) α} (hosted : Hosted m) : Journaled m := by
  have direct := Carrier.plain_direct (ρ := ρ).journaled
  induction hosted with
  | create => exact (allOrNothing_createOf direct ..).orderly.journaled
  | deposit => exact (allOrNothing_depositOf direct ..).orderly.journaled
  | withdraw => exact (allOrNothing_withdrawOf direct ..).orderly.journaled
  | trade => exact (allOrNothing_tradeOf direct ..).orderly.journaled
  | call => exact (allOrNothing_call direct ..).orderly.journaled
  | callOrFail => exact (allOrNothing_callOrFail direct ..).orderly.journaled
  | settle market => exact (allOrNothing_settle direct market).orderly.journaled
  | distribute after most => exact (orderly_distributeOf direct after most).journaled
  | distributeOrFail after most => exact (orderly_distributeOrFail direct after most).journaled
  | send asset source dest amount => exact direct asset source dest amount
  | pool | position | balance => exact journaled_read _
  | pure a => exact journaled_pure a
  | fail fault => exact journaled_fail fault
  | bind _ _ ih ih' => exact ih.bind ih'
  | attempt _ ih => exact ih.attempt
  | collect _ ih => exact (allOrNothing_collect ih).orderly.journaled

theorem Hosted.indifferent {m : Action (Exchange ρ) α} (hosted : Hosted m) : Indifferent m := by
  induction hosted with
  | create caller base quote baseAmount quoteAmount =>
    exact .createOf caller base quote baseAmount quoteAmount
  | deposit caller market baseAmount quoteAmount =>
    exact .depositOf caller market baseAmount quoteAmount
  | withdraw caller market baseAmount quoteAmount =>
    exact .withdrawOf caller market baseAmount quoteAmount
  | trade side caller market amount least => exact .tradeOf side caller market amount least
  | call caller data => exact .call caller data
  | callOrFail caller data => exact .callOrFail caller data
  | settle market => exact .settle market
  | distribute after most => exact .distributeOf after most
  | distributeOrFail after most => exact .distributeOrFail after most
  | send => exact .transfer
  | pool market => exact fun p x z alike => ⟨congrArg Except.ok (alike.pool? market), alike⟩
  | position market account =>
    exact fun p x z alike => ⟨congrArg Except.ok (alike.position market account), alike⟩
  | balance asset account =>
    exact fun p x z alike => ⟨congrArg Except.ok (alike.balance asset account), alike⟩
  | pure a => exact .pure a
  | fail fault => exact .fail fault
  | bind _ _ ih ih' => exact ih.bind ih'
  | attempt _ ih => exact ih.attempt
  | collect body ih => exact ih.collect body.journaled

theorem Managed.indifferent {m : Action (Exchange ρ) α} (managed : Managed m) : Indifferent m := by
  induction managed with
  | hosted hosted => exact hosted.indifferent
  | mint asset account amount => exact .mint asset account amount
  | bind _ _ ih ih' => exact ih.bind ih'
  | attempt _ ih => exact ih.attempt

end Exchange

end LiquidityPools
