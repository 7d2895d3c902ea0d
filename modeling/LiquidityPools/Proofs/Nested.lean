import LiquidityPools.Proofs.Chronicle
import LiquidityPools.Proofs.Sweep

/-!
No market is paid twice, however payout runs are nested. The markets in flight are those that are
being settled, so a run that is asked for meanwhile and would take one up is refused. A settlement
pays out of the counters that it found, and no other settlement of that market can have touched
them: one that ended before left nothing in them, and one that is still going on would be in flight.
-/

namespace LiquidityPools

open Payout (Settled)

variable {ρ α β : Type}

namespace Payout.Settled

def movements (c : Config) (s : Settled) : List Movement := s.payouts.flatMap (Payout.movements c)

def paidBase (s : Settled) : Nat := totalBase s.payouts

def paidQuote (s : Settled) : Nat := totalQuote s.payouts

def dustBase (s : Settled) : Nat := s.dust.1

def dustQuote (s : Settled) : Nat := s.dust.2

def sumOn (f : Settled → Nat) (market : Market) (settled : List Settled) : Nat :=
  ((settled.filter (·.market = market)).map f).sum

variable {f g : Settled → Nat} {market : Market} {first second : List Settled}

theorem sumOn_append :
    sumOn f market (first ++ second) = sumOn f market first + sumOn f market second := by
  simp [sumOn, List.filter_append]

theorem sumOn_add :
    sumOn (fun s => f s + g s) market first = sumOn f market first + sumOn g market first := by
  induction first with
  | nil => rfl
  | cons s rest ih =>
    simp only [sumOn, List.filter_cons] at ih ⊢
    split
    · simp only [List.map_cons, List.sum_cons, ih]
      omega
    · exact ih

theorem sumOn_of_none (none : ∀ s ∈ first, s.market ≠ market) : sumOn f market first = 0 := by
  have nothing : first.filter (·.market = market) = [] := by simpa using none
  rw [sumOn, nothing]
  rfl

end Payout.Settled

namespace Exchange

structure Empties (settled : List Settled) (market : Market) (pool : Pool) : Prop where
  base : Settled.sumOn (fun s => s.paidBase + s.dustBase) market settled = pool.baseFees
  quote : Settled.sumOn (fun s => s.paidQuote + s.dustQuote) market settled = pool.quoteFees

/-- `y` comes from `x` by these settlements and, beside them, these movements: the settlements have
emptied the counters of their markets, and no other pool has changed. -/
structure Settles (x : Exchange ρ) (settled : List Settled) (own : List Movement) (y : Exchange ρ) :
    Prop where
  sound : y.Sound
  config : y.config = x.config
  inFlight : y.inFlight = x.inFlight
  untouched : ∀ m, (∀ s ∈ settled, s.market ≠ m) → y.store.pool? m = x.store.pool? m
  cleared : ∀ m, (∃ s ∈ settled, s.market = m) → ∃ pool, x.store.pool? m = some pool ∧
    y.store.pool? m = some pool.withoutFees ∧ Empties settled m pool
  balances : ∀ asset account, (y.balance asset account : Int) = x.balance asset account +
    Balances.changeOf (settled.flatMap (·.movements x.config) ++ own) asset account

namespace Settles

variable {x y z : Exchange ρ} {first second : List Settled} {own more : List Movement}

theorem refl (sound : x.Sound) : x.Settles [] [] x where
  sound
  config := rfl
  inFlight := rfl
  untouched _ _ := rfl
  cleared := by simp
  balances := by simp [Balances.changeOf]

theorem cleared_trans (earlier : x.Settles first own y) (later : y.Settles second more z)
    {m : Market}
    (settled : ∃ s ∈ first ++ second, s.market = m) : ∃ pool, x.store.pool? m = some pool ∧
      z.store.pool? m = some pool.withoutFees ∧ Empties (first ++ second) m pool := by
  by_cases before : ∃ s ∈ first, s.market = m
  · obtain ⟨pool, held, emptied, sums⟩ := earlier.cleared m before
    refine ⟨pool, held, ?_⟩
    by_cases again : ∃ s ∈ second, s.market = m
    · -- The counters were empty, so the later settlements paid nothing.
      obtain ⟨_, held', emptied', sums'⟩ := later.cleared m again
      cases emptied.symm.trans held'
      refine ⟨emptied', ?_, ?_⟩
      · rw [Settled.sumOn_append, sums.base, sums'.base]
        rfl
      · rw [Settled.sumOn_append, sums.quote, sums'.quote]
        rfl
    · have spared : ∀ s ∈ second, s.market ≠ m := by simpa using again
      refine ⟨(later.untouched m spared).trans emptied, ?_, ?_⟩
      · rw [Settled.sumOn_append, sums.base, Settled.sumOn_of_none spared, Nat.add_zero]
      · rw [Settled.sumOn_append, sums.quote, Settled.sumOn_of_none spared, Nat.add_zero]
  · have spared : ∀ s ∈ first, s.market ≠ m := by simpa using before
    have after : ∃ s ∈ second, s.market = m := by
      obtain ⟨s, member, here⟩ := settled
      exact ⟨s, (List.mem_append.1 member).resolve_left fun early => spared s early here, here⟩
    obtain ⟨pool, held, emptied, sums⟩ := later.cleared m after
    refine ⟨pool, (earlier.untouched m spared).symm.trans held, emptied, ?_, ?_⟩
    · rw [Settled.sumOn_append, sums.base, Settled.sumOn_of_none spared, Nat.zero_add]
    · rw [Settled.sumOn_append, sums.quote, Settled.sumOn_of_none spared, Nat.zero_add]

theorem trans (earlier : x.Settles first own y) (later : y.Settles second more z) :
    x.Settles (first ++ second) (own ++ more) z where
  sound := later.sound
  config := later.config.trans earlier.config
  inFlight := later.inFlight.trans earlier.inFlight
  untouched m spared := by
    obtain ⟨before, after⟩ := List.forall_mem_append.1 spared
    exact (later.untouched m after).trans (earlier.untouched m before)
  cleared _ := cleared_trans earlier later
  balances asset account := by
    have before := earlier.balances asset account
    have after := later.balances asset account
    rw [earlier.config] at after
    simp only [List.flatMap_append, Balances.changeOf_append] at before after ⊢
    omega

theorem aside (settles : x.Settles first own y) (host : ρ) (openUnits : List (List Event)) :
    x.Settles first own { y with host, openUnits } :=
  ⟨⟨settles.sound.store, settles.sound.ledger⟩, settles.config, settles.inFlight, settles.untouched,
    settles.cleared, settles.balances⟩

theorem direct {asset : Asset} {source dest : Account} {amount : Nat} (sound : x.Sound)
    (done : Carrier.direct.transfer asset source dest amount x = (.ok (), y)) :
    x.Settles [] [⟨asset, source, dest, amount⟩] y := by
  obtain ⟨l, host, moved, rfl⟩ := Carrier.plain_direct.carried sound done
  obtain ⟨ledger, -, -, changes⟩ := Ledger.move_effect sound.ledger moved
  refine ⟨⟨sound.store, ledger⟩, rfl, rfl, fun _ _ => rfl, by simp, fun other account => ?_⟩
  simpa [Balances.changeOf, balance] using changes other account

theorem close {s : Settled} {pool : Pool} (settles : x.Settles first (s.movements x.config) y)
    (spared : ∀ earlier ∈ first, earlier.market ≠ s.market)
    (held : x.store.pool? s.market = some pool) (base : s.paidBase + s.dustBase = pool.baseFees)
    (quote : s.paidQuote + s.dustQuote = pool.quoteFees) (left : Option Pool) :
    x.Settles (first ++ [s]) []
      { y with store := y.store.writePool s.market pool.withoutFees left } where
  sound := ⟨settles.sound.store.writePool _ _, settles.sound.ledger⟩
  config := settles.config
  inFlight := settles.inFlight
  untouched m elsewhere := by
    obtain ⟨before, here⟩ := List.forall_mem_append.1 elsewhere
    have apart : m ≠ s.market := fun same => here s (List.mem_singleton_self s) same.symm
    exact (Store.pool?_writePool ..).trans ((if_neg apart).trans (settles.untouched m before))
  -- the market itself is emptied just now, any other one was before
  cleared m settled := by
    by_cases here : m = s.market
    · cases here
      have alone (f : Settled → Nat) : Settled.sumOn f s.market (first ++ [s]) = f s := by
        rw [Settled.sumOn_append, Settled.sumOn_of_none spared, Nat.zero_add]
        simp [Settled.sumOn]
      exact ⟨pool, held, (Store.pool?_writePool ..).trans (if_pos rfl), (alone _).trans base,
        (alone _).trans quote⟩
    · have elsewhere : ∀ last ∈ [s], last.market ≠ m := by simpa using fun same => here same.symm
      have before : ∃ earlier ∈ first, earlier.market = m := by
        obtain ⟨earlier, member, same⟩ := settled
        exact ⟨earlier, (List.mem_append.1 member).resolve_right fun last => elsewhere _ last same,
          same⟩
      obtain ⟨pool', held', emptied, sums⟩ := settles.cleared m before
      have nothing (f : Settled → Nat) : Settled.sumOn f m (first ++ [s]) =
          Settled.sumOn f m first := by
        rw [Settled.sumOn_append, Settled.sumOn_of_none elsewhere, Nat.add_zero]
      exact ⟨pool', held', (Store.pool?_writePool ..).trans ((if_neg here).trans emptied),
        (nothing _).trans sums.base, (nothing _).trans sums.quote⟩
  balances asset account := by
    rw [List.flatMap_append, List.flatMap_singleton, List.append_nil]
    exact settles.balances asset account

theorem landed {market : Market} (settles : (x.taking market).Settles first own y)
    (fresh : market ∉ x.inFlight) :
    x.Settles first own { y with inFlight := y.inFlight.filter (· ≠ market) } where
  sound := ⟨settles.sound.store, settles.sound.ledger⟩
  config := settles.config
  inFlight := by
    rw [settles.inFlight]
    exact filter_taking fresh
  untouched := settles.untouched
  cleared := settles.cleared
  balances := settles.balances

theorem closed {events : List Event} (settles : x.opened.Settles first [] y)
    (above : x.opened.Above events y) : x.Settles first [] (x.closed y events) := by
  have follows := Follows.of_opened above
  have books := books_closed x y events
  have pools (m : Market) : (x.closed y events).store.pool? m = y.store.pool? m :=
    congrArg (fun b : Books => b.store.pool? m) books
  refine ⟨follows.sound, follows.config, follows.inFlight, fun m spared => ?_, fun m settled => ?_,
    fun asset account => ?_⟩
  · rw [pools]
    exact settles.untouched m spared
  · rw [pools]
    exact settles.cleared m settled
  · have same : (x.closed y events).balance asset account = y.balance asset account :=
      congrArg (fun b : Books => b.balances.get account asset) books
    rw [same]
    exact settles.balances asset account

end Settles

end Exchange

namespace Scene

/-- No settlement is started inside one of the same market, and a run over a market that is being
settled is refused and changes nothing. -/
def Guarded : Scene ρ → Prop
  | .run stack batch before outcome after => (∃ m ∈ batch, m ∈ stack) →
    outcome = .error (.payoutRunning (batch.filter (· ∈ stack))) ∧ after = before
  | .settlement stack market _ _ => market ∉ stack

theorem guarded_within {well : Bool} {scene : Scene ρ} :
    (scene.within well).Guarded ↔ scene.Guarded := by
  cases scene <;> exact Iff.rfl

theorem stack_within (well : Bool) (scene : Scene ρ) : (scene.within well).stack = scene.stack := by
  cases scene <;> rfl

theorem kept_append (first second : List (Scene ρ)) :
    kept (first ++ second) = kept first ++ kept second := List.filterMap_append

theorem kept_within_true (scenes : List (Scene ρ)) :
    kept (scenes.map (within true)) = kept scenes := by
  rw [kept, List.filterMap_map]
  refine congrArg (List.filterMap · scenes) (funext fun scene => ?_)
  cases scene with
  | run => rfl
  | settlement stack market outcome lasts => simp [within]

theorem kept_within_false (scenes : List (Scene ρ)) : kept (scenes.map (within false)) = [] := by
  rw [kept, List.filterMap_map, List.filterMap_eq_nil_iff]
  intro scene _
  cases scene with
  | run => rfl
  | settlement stack market outcome lasts => cases outcome <;> simp [within, settled?]

theorem spared_of_guarded {scenes : List (Scene ρ)} {stack : List Market}
    (guarded : ∀ scene ∈ scenes, scene.Guarded ∧ stack ⊆ scene.stack) {m : Market}
    (inside : m ∈ stack) :
    ∀ s ∈ kept scenes, s.market ≠ m := by
  rintro s member rfl
  obtain ⟨scene, member, settled⟩ := List.mem_filterMap.1 member
  obtain ⟨apart, within⟩ := guarded scene member
  cases scene with
  | run => cases settled
  | settlement stack' market outcome lasts =>
    unfold settled? at settled
    split at settled
    next same =>
      cases settled
      cases same
      exact apart (within inside)
    next => cases settled

end Scene

namespace Chronicle

variable {m m' : Action (Exchange ρ) α} {f : α → Action (Exchange ρ) β} {stack : List Market}
  {x : Exchange ρ} {t : Chronicle m} {next : ∀ a, Chronicle (f a)}
  {first other : Except Fault α → List Settled → Exchange ρ → Prop}
  {last : Except Fault β → List Settled → Exchange ρ → Prop}

/-- Run on this state, inside the settlements of these markets, the step has guarded scenes, and it
ends in this way by those of its settlements that last. -/
structure Ends (t : Chronicle m) (stack : List Market) (x : Exchange ρ)
    (ends : Except Fault α → List Settled → Exchange ρ → Prop) : Prop where
  guarded : ∀ scene ∈ t.scenes stack x, scene.Guarded ∧ stack ⊆ scene.stack
  reached : ends (m x).1 (Scene.kept (t.scenes stack x)) (m x).2

namespace Ends

theorem silent (reached : ∀ outcome y, m x = (outcome, y) → first outcome [] y) :
    (Chronicle.silent m).Ends stack x first :=
  ⟨by simp [Chronicle.silent], reached _ _ rfl⟩

theorem weaken (ends : t.Ends stack x first)
    (weaker : ∀ outcome kept y, first outcome kept y → other outcome kept y) :
    t.Ends stack x other :=
  ⟨ends.guarded, weaker _ _ _ ends.reached⟩

theorem sparing (ends : t.Ends stack x first) :
    t.Ends stack x fun outcome kept y => first outcome kept y ∧
      ∀ m ∈ stack, ∀ s ∈ kept, s.market ≠ m :=
  ⟨ends.guarded, ends.reached, fun _ inside => Scene.spared_of_guarded ends.guarded inside⟩

theorem attempt {ends : Except Fault (Except Fault α) → List Settled → Exchange ρ → Prop}
    (body : t.Ends stack x fun outcome => ends (.ok outcome)) : t.attempt.Ends stack x ends :=
  ⟨body.guarded, body.reached⟩

theorem bind (earlier : t.Ends stack x first)
    (stopped : ∀ fault kept y, first (.error fault) kept y → last (.error fault) kept y)
    (later : ∀ a kept y, first (.ok a) kept y →
      (next a).Ends stack y fun outcome more z => last outcome (kept ++ more) z) :
    (t.bind next).Ends stack x last := by
  obtain ⟨guarded, reached⟩ := earlier
  cases ran : m x with
  | mk outcome y =>
    rw [ran] at reached
    have scenes : (t.bind next).scenes stack x = match outcome with
        | .ok a => t.scenes stack x ++ (next a).scenes stack y
        | .error _ => t.scenes stack x := by
      simp only [Chronicle.bind, ran]
      cases outcome <;> rfl
    cases outcome with
    | error fault =>
      constructor
      · rwa [scenes]
      · rw [scenes, Action.bind_error ran]
        exact stopped fault _ y reached
    | ok a =>
      obtain ⟨guarded', reached'⟩ := later a _ y reached
      constructor
      · rw [scenes]
        exact List.forall_mem_append.2 ⟨guarded, guarded'⟩
      · rw [scenes, Action.bind_ok ran, Scene.kept_append]
        exact reached'

theorem look (same : (m x).2 = x) (stopped : ∀ fault, last (.error fault) [] x)
    (later : ∀ a, (m x).1 = .ok a → (next a).Ends stack x last) :
    ((Chronicle.silent m).bind next).Ends stack x last := by
  have looked : (Chronicle.silent m).Ends stack x fun outcome kept y =>
      (m x).1 = outcome ∧ kept = [] ∧ y = x :=
    .silent fun outcome y done => by rw [done] at same ⊢; exact ⟨rfl, rfl, same⟩
  refine .bind looked ?_ ?_
  · rintro fault _ _ ⟨-, rfl, rfl⟩
    exact stopped fault
  · rintro a _ _ ⟨done, rfl, rfl⟩
    exact later a done

theorem onward (earlier : t.Ends stack x fun _ kept y => x.Settles kept [] y)
    (later : ∀ a y, y.Sound → y.inFlight = x.inFlight →
      (next a).Ends stack y fun _ kept z => y.Settles kept [] z) :
    (t.bind next).Ends stack x fun _ kept z => x.Settles kept [] z :=
  .bind earlier (fun _ _ _ => id) fun a _ y settles =>
    (later a y settles.sound settles.inFlight).weaken fun _ _ _ more => settles.trans more

theorem running {body : Action (Exchange ρ) Payout.Report} {told : Chronicle body}
    {batch : Exchange ρ → List Market}
    {ends : Except Fault Payout.Report → List Settled → Exchange ρ → Prop}
    (inner : told.Ends stack x ends) (refused : (∃ m ∈ batch x, m ∈ stack) →
      body x = (.error (.payoutRunning ((batch x).filter (· ∈ stack))), x)) :
    (Chronicle.running batch told).Ends stack x ends where
  guarded := by
    refine List.forall_mem_cons.2 ⟨⟨fun busy => ?_, List.Subset.refl stack⟩, inner.guarded⟩
    rw [refused busy]
    exact ⟨rfl, rfl⟩
  reached := inner.reached

theorem either {c : Prop} [Decidable c] {no : Chronicle m'} (yes : c → t.Ends stack x first)
    (otherwise : ¬ c → no.Ends stack x first) :
    (t.either no : Chronicle (if c then m else m')).Ends stack x first := by
  by_cases h : c
  · obtain ⟨guarded, reached⟩ := yes h
    constructor
    · simpa only [Chronicle.either, if_pos h] using guarded
    · simpa only [Chronicle.either, if_pos h] using reached
  · obtain ⟨guarded, reached⟩ := otherwise h
    constructor
    · simpa only [Chronicle.either, if_neg h] using guarded
    · simpa only [Chronicle.either, if_neg h] using reached

end Ends

end Chronicle

section Payouts

open Exchange Chronicle

/-- Whatever a transfer does first, it settles what lasts of its scenes, and then moves the
asset. -/
def Carrier.Told.Faithful {carrier : Carrier ρ} (told : carrier.Told) : Prop :=
  ∀ asset source dest amount {stack x}, x.Sound → x.inFlight = stack →
    (told asset source dest amount).Ends stack x fun outcome kept y =>
      outcome = .ok () → x.Settles kept [⟨asset, source, dest, amount⟩] y

variable {carrier : Carrier ρ} {told : carrier.Told} {stack : List Market} {x : Exchange ρ}
  {market : Market} {pool : Pool} {weights : Nat × Nat}

theorem ends_payProvider (faithful : told.Faithful) (sound : x.Sound) (inside : x.inFlight = stack)
    {provider : Account} {position : Position} {tally : Payout.Tally} :
    (Chronicle.payProvider told market pool weights provider position tally).Ends stack x
      fun outcome kept y => ∀ after, outcome = .ok after →
        ∃ paid, after = tally.plus paid ∧
          x.Settles kept (paid.flatMap (Payout.movements x.config)) y := by
  refine .look rfl (fun _ _ => nofun) ?_
  rintro _ ⟨⟩
  refine .look rfl (fun _ _ => nofun) fun base _ => .look rfl (fun _ _ => nofun) fun quote _ => ?_
  refine .either (fun nothing => .silent ?_) fun something => ?_
  · rintro _ _ ⟨⟩ _ ⟨⟩
    exact ⟨[], (Payout.Tally.plus_nil _).symm, .refl sound⟩
  · refine .bind (faithful _ _ _ _ sound inside) (fun _ _ _ _ _ => nofun) fun _ kept y moved => ?_
    have first := moved rfl
    refine .bind (faithful _ _ _ _ first.sound (first.inFlight.trans inside))
      (fun _ _ _ _ _ => nofun)
      fun _ kept' z moved' => .silent ?_
    rintro _ w done after rfl
    have both := first.trans (moved' rfl)
    obtain ⟨paidBase, baseSum, done⟩ := Action.bind_lift_eq_ok done
    obtain ⟨paidQuote, quoteSum, done⟩ := Action.bind_lift_eq_ok done
    rw [Action.bind_ok (emit_eq ..)] at done
    obtain ⟨rfl, -⟩ := Amount.add_eq_ok_iff.1 baseSum
    obtain ⟨rfl, -⟩ := Amount.add_eq_ok_iff.1 quoteSum
    cases done
    refine ⟨[⟨market, provider, base, quote⟩], rfl, ?_⟩
    rw [List.append_nil]
    exact both.aside z.host _

theorem ends_payProviders (faithful : told.Faithful) {bound : Nat} {walk : Walk}
    {tally : Payout.Tally} (sound : x.Sound) (inside : x.inFlight = stack) :
    (Chronicle.payProviders told market pool weights bound walk tally).Ends stack x
      fun outcome kept y => ∀ after, outcome = .ok after →
        ∃ paid, after = tally.plus paid ∧
          x.Settles kept (paid.flatMap (Payout.movements x.config)) y := by
  induction bound generalizing x walk tally with
  | zero =>
    refine .silent ?_
    rintro _ _ ⟨⟩ _ ⟨⟩
    exact ⟨[], (Payout.Tally.plus_nil _).symm, .refl sound⟩
  | succ bound ih =>
    refine .look rfl (fun _ _ => nofun) ?_
    rintro ahead -
    cases ahead with
    | none =>
      refine .silent ?_
      rintro _ _ ⟨⟩ _ ⟨⟩
      exact ⟨[], (Payout.Tally.plus_nil _).symm, .refl sound⟩
    | some item =>
      refine .bind (ends_payProvider faithful sound inside) (fun _ _ _ _ _ => nofun)
        fun tally' kept y paidOne => ?_
      obtain ⟨first, rfl, settles⟩ := paidOne tally' rfl
      refine (ih settles.sound (settles.inFlight.trans inside)).weaken
        fun outcome more z paidRest after done => ?_
      obtain ⟨rest, rfl, settles'⟩ := paidRest after done
      refine ⟨first ++ rest, (Payout.Tally.plus_append ..).symm, ?_⟩
      rw [settles.config] at settles'
      rw [List.flatMap_append]
      exact settles.trans settles'

theorem ends_payOut (faithful : told.Faithful) (sound : x.Sound) (inside : x.inFlight = stack)
    (being : market ∈ stack) :
    (Chronicle.payOut told market).Ends stack x fun outcome kept y => ∀ paid, outcome = .ok paid →
      x.Settles (kept ++ [⟨market, paid.1, paid.2⟩]) [] y := by
  refine .look rfl (fun _ _ => nofun) fun checked named => ?_
  obtain ⟨rfl, -⟩ := marketOf_self named
  have looks : (requirePool checked x).2 = x := by unfold requirePool; split <;> rfl
  refine .look looks (fun _ _ => nofun) fun pool found => ?_
  have held : x.store.pool? checked = some pool := by
    unfold requirePool at found
    split at found
    next here => cases found; exact here
    next => cases found
  refine .look rfl (fun _ _ => nofun) fun config read => ?_
  cases read
  refine .look rfl (fun _ _ => nofun) fun positions _ =>
    .look rfl (fun _ _ => nofun) fun sums _ => ?_
  refine .bind (ends_payProviders faithful sound inside).sparing (fun _ _ _ _ _ => nofun)
    fun tally kept y paid => .silent ?_
  obtain ⟨paying, spared⟩ := paid
  rintro _ w done paid rfl
  obtain ⟨payouts, rfl, settles⟩ := paying tally rfl
  obtain ⟨baseDust, baseLeft, done⟩ := Action.bind_lift_eq_ok done
  obtain ⟨quoteDust, quoteLeft, done⟩ := Action.bind_lift_eq_ok done
  obtain ⟨left, -, done⟩ := putPool_bind_eq_ok done
  cases done
  rw [Payout.Tally.empty_plus] at baseLeft quoteLeft ⊢
  obtain ⟨baseCovered, rfl, -⟩ := Amount.sub_eq_ok_iff.1 baseLeft
  obtain ⟨quoteCovered, rfl, -⟩ := Amount.sub_eq_ok_iff.1 quoteLeft
  rw [List.append_nil]
  exact settles.close (s := ⟨checked, payouts, _, _⟩) (spared checked being) held
    (Nat.add_sub_cancel' baseCovered) (Nat.add_sub_cancel' quoteCovered) (some left)

variable (journaled : carrier.Journaled) (faithful : told.Faithful)

include journaled faithful

theorem ends_settle (sound : x.Sound) (inside : x.inFlight = market :: stack)
    (fresh : market ∉ stack) :
    (Chronicle.settle told market).Ends stack x fun _ kept y => x.Settles kept [] y := by
  have body := ends_payOut faithful sound.opened inside List.mem_cons_self
  have within (well : Bool) (scene : Scene ρ)
      (member : scene ∈ ((Chronicle.payOut told market).scenes (market :: stack) x.opened).map
        (Scene.within well)) :
      scene.Guarded ∧ stack ⊆ scene.stack := by
    obtain ⟨inner, listed, rfl⟩ := List.mem_map.1 member
    obtain ⟨guarded, inside⟩ := body.guarded inner listed
    rw [Scene.guarded_within, Scene.stack_within]
    exact ⟨guarded, fun m above => inside (List.mem_cons_of_mem market above)⟩
  constructor
  · exact List.forall_mem_append.2 ⟨within _, by simpa [Scene.Guarded, Scene.stack] using fresh⟩
  · have scenes : Scene.kept ((Chronicle.settle told market).scenes stack x) =
        Scene.kept (((Chronicle.payOut told market).scenes (market :: stack) x.opened).map
          (Scene.within (Exchange.settle carrier market x).1.isOk)) ++
        Scene.kept [.settlement stack market (Exchange.settle carrier market x).1
          (Exchange.settle carrier market x).1.isOk] := Scene.kept_append ..
    obtain ⟨events, above, ⟨fault, -, restored⟩ | ⟨paid, done, closed⟩⟩ :=
      (journaled_payOut journaled market).collect sound
    · have ran : Exchange.settle carrier market x = (.error fault, _) :=
        Action.bind_error restored _
      have nothing := Scene.kept_within_false
        ((Chronicle.payOut told market).scenes (market :: stack) x.opened)
      rw [ran] at scenes ⊢
      rw [scenes, Except.isOk, Except.toBool, nothing]
      exact (Settles.refl sound).aside _ _
    · have ran : Exchange.settle carrier market x = (.ok paid, _) := Action.bind_ok closed _
      have settles := body.reached paid done
      rw [ran] at scenes ⊢
      rw [scenes, Except.isOk, Except.toBool, Scene.kept_within_true]
      exact settles.closed above

theorem ends_settleInFlight (sound : x.Sound) (inside : x.inFlight = stack)
    (fresh : market ∉ stack) :
    (Chronicle.settleInFlight told market).Ends stack x fun _ kept y => x.Settles kept [] y := by
  have taken : (Chronicle.silent (Action.modify (taking market))).Ends stack x fun outcome kept y =>
      outcome = .ok () ∧ kept = [] ∧ y = x.taking market := .silent <| by
    rintro _ _ ⟨⟩
    exact ⟨rfl, rfl, rfl⟩
  refine .bind taken (by rintro _ _ _ ⟨⟨⟩, -⟩) ?_
  rintro _ _ _ ⟨-, rfl, rfl⟩
  have within : (x.taking market).inFlight = market :: stack := congrArg (market :: ·) inside
  have settles : (Chronicle.attempt (.settle told market)).Ends stack (x.taking market)
      fun outcome kept y =>
      (∃ ended, outcome = .ok ended) ∧ (x.taking market).Settles kept [] y :=
    .attempt ((ends_settle journaled faithful (sound.taking market) within fresh).weaken
      fun ended _ _ settles => ⟨⟨ended, rfl⟩, settles⟩)
  refine .bind settles (by rintro _ _ _ ⟨⟨_, ⟨⟩⟩, -⟩) fun _ kept y settled => .silent ?_
  rintro _ _ ⟨⟩
  rw [List.append_nil]
  exact settled.2.landed (inside ▸ fresh)

theorem ends_settleAll {markets : List Market} {report : Payout.Report} (sound : x.Sound)
    (inside : x.inFlight = stack) (fresh : ∀ m ∈ markets, m ∉ stack) :
    (Chronicle.settleAll told markets report).Ends stack x fun _ kept y => x.Settles kept [] y := by
  induction markets generalizing x report with
  | nil =>
    refine .silent ?_
    rintro _ _ ⟨⟩
    exact .refl sound
  | cons market rest ih =>
    have later : ∀ m ∈ rest, m ∉ stack := fun m member => fresh m (List.mem_cons_of_mem _ member)
    refine .onward
      (ends_settleInFlight journaled faithful sound inside (fresh market List.mem_cons_self))
      fun outcome y sound' inside' => ?_
    cases outcome with
    | ok paid => exact ih sound' (inside'.trans inside) later
    | error fault =>
      refine .either (fun own => ih sound' (inside'.trans inside) later) fun foreign => .silent ?_
      rintro _ _ ⟨⟩
      exact .refl sound'

theorem ends_distribute (after : Option Market) (most : Option Nat) (sound : x.Sound)
    (inside : x.inFlight = stack) :
    (Chronicle.distribute told after most).Ends stack x fun _ kept y => x.Settles kept [] y := by
  cases inside
  refine .running (.look rfl (fun _ => .refl sound) ?_) fun busy => distribute_busy carrier busy
  rintro _ ⟨⟩
  refine .look rfl (fun _ => .refl sound) ?_
  rintro _ ⟨⟩
  refine .either (fun busy => .silent ?_) fun idle => ?_
  · rintro _ _ ⟨⟩
    exact .refl sound
  · have fresh : ∀ m ∈ batchOf (x.pendingMarkets after) most, m ∉ x.inFlight := by simpa using idle
    refine (ends_settleAll journaled faithful sound rfl fresh).onward
      fun report y sound' inside' => .silent ?_
    rintro _ _ ⟨⟩
    exact .refl sound'

theorem ends_distributeOf (after : Option Market) (most : Value) (sound : x.Sound)
    (inside : x.inFlight = stack) :
    (Chronicle.distributeOf told after most).Ends stack x fun _ kept y => x.Settles kept [] y := by
  refine .look rfl (fun _ => .refl sound) fun config _ => ?_
  refine .look rfl (fun _ => .refl sound) fun most _ => ?_
  exact ends_distribute journaled faithful after most sound inside

theorem ends_recall (r : Recall ρ) (sound : x.Sound) (inside : x.inFlight = stack) :
    (Chronicle.ofRecall told r).Ends stack x fun _ kept y => x.Settles kept [] y := by
  induction r generalizing x with
  | done =>
    refine .silent ?_
    rintro _ _ ⟨⟩
    exact .refl sound
  | refuse fault =>
    refine .silent ?_
    rintro _ _ ⟨⟩
    exact .refl sound
  | remember host next ih =>
    have kept :
        (Chronicle.silent (Action.modify fun x : Exchange ρ => { x with host })).Ends stack x
        fun _ kept y => x.Settles kept [] y := .silent <| by
      rintro _ _ ⟨⟩
      exact (Settles.refl sound).aside host x.openUnits
    exact kept.onward fun _ y sound' inside' => ih sound' (inside'.trans inside)
  | distribute after most next ih =>
    refine (ends_distributeOf journaled faithful after most sound inside).attempt.onward
      fun outcome y sound' inside' => .look rfl (fun _ => .refl sound') fun z _ => ?_
    exact ih outcome z sound' (inside'.trans inside)

end Payouts

theorem Chronicle.faithful_recalling (plan : Carrier.Plan ρ) (depth : Nat) :
    (Chronicle.recalling plan depth).Faithful := by
  induction depth with
  | zero =>
    intro asset source dest amount stack x sound _
    refine .silent ?_
    rintro _ y done rfl
    exact .direct sound done
  | succ depth ih =>
    intro asset source dest amount stack x sound inside
    rw [Chronicle.recalling]
    refine .look rfl (fun _ => nofun) fun asked _ => ?_
    refine .bind (ends_recall (Carrier.journaled_recalling plan depth) ih asked sound inside)
      (fun _ _ _ _ => nofun) fun _ kept y settles => .silent ?_
    rintro _ z done rfl
    exact settles.trans (.direct settles.sound done)

section Outermost

open Exchange (distributeOf)

variable (plan : Carrier.Plan ρ) (depth : Nat) (after : Option Market) (most : Value)

def payoutScenes (x : Exchange ρ) : List (Scene ρ) :=
  (Chronicle.distributeOf (Chronicle.recalling plan depth) after most).scenes [] x

/-- Over a carrier that asks for payout runs, to any depth, no settlement is started inside one of
the same market: the run that would start it is refused and changes nothing. Whether the outermost
run ends well or not, it leaves no market in flight. What the lasting settlements of a market paid
is at most what its counters held when the run was asked for, and with the dust that they left it is
just that. All that the run changes in balances are the payouts of those settlements, and the pools
of other markets stay as they were. -/
theorem never_paid_twice {x : Exchange ρ} (sound : x.Sound) (idle : x.inFlight = []) :
    let scenes := payoutScenes plan depth after most x
    let lasting := Scene.kept scenes
    let y := (distributeOf (.recalling plan depth) after most x).2
    (∀ scene ∈ scenes, scene.Guarded) ∧ y.inFlight = [] ∧
      (∀ market pool, x.store.pool? market = some pool →
        (Settled.sumOn Settled.paidBase market lasting ≤ pool.baseFees ∧
          Settled.sumOn Settled.paidQuote market lasting ≤ pool.quoteFees) ∧
        ((∃ s ∈ lasting, s.market = market) →
          Settled.sumOn Settled.paidBase market lasting +
            Settled.sumOn Settled.dustBase market lasting =
              pool.baseFees ∧
            Settled.sumOn Settled.paidQuote market lasting +
              Settled.sumOn Settled.dustQuote market lasting =
              pool.quoteFees)) ∧
      (∀ s ∈ lasting, x.store.hasPool s.market = true) ∧
      (∀ market, (∀ s ∈ lasting, s.market ≠ market) → y.store.pool? market = x.store.pool? market) ∧
      ∀ asset account, (y.balance asset account : Int) = x.balance asset account +
        Balances.changeOf (lasting.flatMap (·.movements x.config)) asset account := by
  obtain ⟨guarded, settles⟩ := ends_distributeOf (Carrier.journaled_recalling plan depth)
    (Chronicle.faithful_recalling plan depth) after most sound idle
  refine ⟨fun scene member => (guarded scene member).1, settles.inFlight.trans idle,
    fun market pool held => ?_, fun s member => ?_, settles.untouched, fun asset account => ?_⟩
  -- a market without a lasting settlement paid nothing, and that is within any counter
  · by_cases settled : ∃ s ∈ Scene.kept (payoutScenes plan depth after most x), s.market = market
    · obtain ⟨found, held', -, base, quote⟩ := settles.cleared market settled
      cases held.symm.trans held'
      have base := Settled.sumOn_add.symm.trans base
      have quote := Settled.sumOn_add.symm.trans quote
      exact ⟨⟨Nat.le.intro base, Nat.le.intro quote⟩, fun _ => ⟨base, quote⟩⟩
    · have none : ∀ s ∈ Scene.kept (payoutScenes plan depth after most x), s.market ≠ market := by
        simpa using settled
      refine ⟨?_, fun some => absurd some settled⟩
      rw [Settled.sumOn_of_none none, Settled.sumOn_of_none none]
      exact ⟨Nat.zero_le _, Nat.zero_le _⟩
  · obtain ⟨pool, held, -⟩ := settles.cleared s.market ⟨s, member, rfl⟩
    rw [Store.hasPool, held]
    rfl
  · have changes := settles.balances asset account
    rwa [List.append_nil] at changes

/-- While the first market is being settled, asks for a run over it, and then for a run over those
that come after it. -/
def hasty : Carrier.Plan Unit := fun _ _ _ _ x =>
  if x.inFlight = [⟨1, 2⟩] then
    .distribute none .null fun _ _ => .distribute (some ⟨1, 2⟩) .null fun _ _ => .done
  else .done

/-- The first market cannot be paid, and takes the settlement of the second one back with it; the
second one is then settled again. -/
theorem paid_once_hasty :
    let lasting := Scene.kept (payoutScenes hasty 2 none .null twoMarkets)
    (∃ s ∈ lasting, s.market = ⟨2, 1⟩) ∧
      Settled.sumOn Settled.paidBase ⟨2, 1⟩ lasting +
        Settled.sumOn Settled.dustBase ⟨2, 1⟩ lasting = 7 := by
  intro lasting
  have held : twoMarkets.store.pool? ⟨2, 1⟩ = some ⟨20000, 20000, 7, 0⟩ := by decide +kernel
  have cleared : (distributeOf (.recalling hasty 2) none .null twoMarkets).2.store.pool? ⟨2, 1⟩ =
      some ⟨20000, 20000, 0, 0⟩ := by decide +kernel
  obtain ⟨-, -, sums, -, untouched, -⟩ :=
    never_paid_twice hasty 2 none .null sound_twoMarkets rfl
  have settled : ∃ s ∈ lasting, s.market = ⟨2, 1⟩ := by
    by_contra none
    have same := untouched ⟨2, 1⟩ (by simpa using none)
    rw [cleared, held] at same
    cases same
  exact ⟨settled, ((sums _ _ held).2 settled).1⟩

end Outermost

end LiquidityPools
