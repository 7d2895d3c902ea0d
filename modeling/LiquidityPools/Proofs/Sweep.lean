import Mathlib.Data.List.Nodup
import LiquidityPools.Proofs.Clearing
import LiquidityPools.Proofs.Snapshot

/-!
Sweeps: payout runs of bounded size, each resumed where the one before stopped, until none is left
to resume. Between two runs a host may do anything but pay out, so that fees come in and pools are
opened on both sides of the cursor. Still no market is taken up twice, and none that had fees when
the sweep began is missed: the markets ahead of the cursor keep their fees until the sweep gets to
them.
-/

namespace LiquidityPools

variable {ρ : Type}

section Accrual

/-- The market keeps its pool, and its counters do not go down. -/
def Store.Accrues (market : Market) (s t : Store) : Prop :=
  ∀ pool, s.pool? market = some pool → ∃ later, t.pool? market = some later ∧
    pool.baseFees ≤ later.baseFees ∧ pool.quoteFees ≤ later.quoteFees

namespace Store.Accrues

variable {market other : Market} {s t u : Store}

theorem refl (market : Market) (s : Store) : s.Accrues market s :=
  fun pool held => ⟨pool, held, Nat.le_refl _, Nat.le_refl _⟩

theorem trans (earlier : s.Accrues market t) (later : t.Accrues market u) : s.Accrues market u := by
  intro pool held
  obtain ⟨middle, held', base, quote⟩ := earlier pool held
  obtain ⟨last, held'', base', quote'⟩ := later middle held'
  exact ⟨last, held'', Nat.le_trans base base', Nat.le_trans quote quote'⟩

theorem of_pools (same : t.pool? market = s.pool? market) : s.Accrues market t := by
  rw [Accrues, same]
  exact refl market s

theorem revise {f : Pool → Pool}
    (grows : market = other → ∀ pool, pool.baseFees ≤ (f pool).baseFees ∧
      pool.quoteFees ≤ (f pool).quoteFees) : s.Accrues market (s.revise other f) := by
  intro pool held
  rw [pool?_revise]
  split
  next here => exact ⟨f pool, by rw [← here, held]; rfl, grows here pool⟩
  next => exact ⟨pool, held, Nat.le_refl _, Nat.le_refl _⟩

theorem hasFees (accrues : s.Accrues market t) {pool : Pool} (held : s.pool? market = some pool)
    (fees : pool.hasFees = true) : ∃ later, t.pool? market = some later ∧ later.hasFees = true := by
  obtain ⟨later, held', base, quote⟩ := accrues pool held
  refine ⟨later, held', ?_⟩
  simp only [Pool.hasFees, Bool.or_eq_true, decide_eq_true_eq] at fees ⊢
  omega

end Store.Accrues

theorem Books.Takes.accrues {c : Config} {b b' : Books} {deal : Deal} (taken : b.Takes c deal b')
    {market : Market} (spared : market ∉ deal.dust?.map Prod.fst) :
    b.store.Accrues market b'.store := by
  rw [taken.store]
  have allowed := taken.allowed
  cases deal with
  | opened caller other base quote =>
    intro pool held
    have apart : market ≠ other := by
      rintro rfl
      rw [allowed.2.2.2.2] at held
      cases held
    refine ⟨pool, ?_, Nat.le_refl _, Nat.le_refl _⟩
    exact (b.store.pool?_writePool other market _ none).trans ((if_neg apart).trans held)
  | added caller other base quote =>
    refine Store.Accrues.trans (.revise fun _ pool => ?_) (.of_pools (Store.pool?_keepPosition ..))
    exact ⟨Nat.le_refl _, Nat.le_refl _⟩
  | withdrawn caller other base quote =>
    refine Store.Accrues.trans (.revise fun _ pool => ?_) (.of_pools (Store.pool?_keepPosition ..))
    exact ⟨Nat.le_refl _, Nat.le_refl _⟩
  | traded caller other amount quote =>
    refine .revise fun _ pool => ?_
    unfold Exchange.afterTrade
    cases quote.side with
    | buy => exact ⟨Nat.le_refl _, Nat.le_add_right _ _⟩
    | sell => exact ⟨Nat.le_add_right _ _, Nat.le_refl _⟩
  | settled other payouts dust =>
    exact .revise fun here => absurd (by simp [Deal.dust?, here]) spared

theorem Books.Run.accrues {c : Config} {b b' : Books} {deals : List Deal} (run : b.Run c deals b')
    {market : Market} (spared : ∀ deal ∈ deals, market ∉ deal.dust?.map Prod.fst) :
    b.store.Accrues market b'.store := by
  induction run with
  | nil b => exact .refl market b.store
  | cons taken rest ih =>
    have first := taken.accrues (spared _ List.mem_cons_self)
    exact first.trans (ih fun deal member => spared deal (List.mem_cons_of_mem _ member))

theorem Exchange.Leads.accrues {x y : Exchange ρ} {deals : List Deal} (leads : x.Leads deals y)
    {market : Market} (spared : ∀ deal ∈ deals, market ∉ deal.dust?.map Prod.fst) :
    x.store.Accrues market y.store :=
  leads.run.accrues spared

end Accrual

section Interludes

def Program.paysNothing : Program → Bool
  | .request (.settle _) | .distribute _ _ | .distributeOrFail _ _ => false
  | .seq first second => first.paysNothing && second.paysNothing
  | .attempt body | .unit body => body.paysNothing
  | .done | .fail _ | .request _ => true

theorem Program.reports_of_paysNothing (carrier : Carrier ρ) {p : Program}
    (nothing : p.paysNothing = true) (x : Exchange ρ) : p.reports carrier x = [] := by
  induction p generalizing x with
  | done => rfl
  | fail fault => rfl
  | request r =>
    cases r with
    | settle market => cases nothing
    | _ => rfl
  | distribute after most => cases nothing
  | distributeOrFail after most => cases nothing
  | seq first second ih ih' =>
    obtain ⟨earlier, later⟩ := Bool.and_eq_true_iff.1 nothing
    rw [reports, ih earlier, ih' later, ite_self]
    rfl
  | attempt body ih => exact ih nothing x
  | unit body ih => rw [reports, ih nothing, ite_self]

theorem Program.accrues {carrier : Carrier ρ} (plain : carrier.Plain) {p : Program}
    (nothing : p.paysNothing = true) {x : Exchange ρ} (sound : x.Sound) (market : Market) :
    x.store.Accrues market (p.run carrier x).2.store := by
  obtain ⟨deals, leads, left⟩ := p.commits plain sound
  rw [reports_of_paysNothing carrier nothing, List.flatMap_nil, List.filterMap_eq_nil_iff] at left
  exact leads.accrues fun deal member => by simp [left deal member]

end Interludes

section Pending

def Market.Beyond (cursor : Option Market) (m : Market) : Prop :=
  ∀ c ∈ cursor, compare c m = .lt

namespace Exchange

variable {x : Exchange ρ} {after : Option Market} {m : Market}

theorem sorted_pendingMarkets (x : Exchange ρ) (after : Option Market) :
    (x.pendingMarkets after).Pairwise fun a b => compare a b = .lt := by
  refine List.Pairwise.filter _ ?_
  cases after with
  | none => exact x.store.pools.sorted_keys
  | some cursor => exact x.store.pools.sorted_keys.sublist (List.dropWhile_sublist _)

theorem mem_pendingMarkets_beyond :
    m ∈ x.pendingMarkets after ↔
      (∃ pool, x.store.pool? m = some pool ∧ pool.hasFees = true) ∧ m.Beyond after := by
  rw [← mem_pendingMarkets]
  cases after with
  | none => simp [Market.Beyond]
  | some cursor =>
    simp only [pendingMarkets, Store.markets, List.mem_filter, Market.Beyond, Option.mem_some_iff,
      forall_eq', Table.dropWhile_eq_filter x.store.pools.sorted_keys, decide_eq_true_eq]
    exact and_right_comm

end Exchange

end Pending

section Runs

namespace Payout

def Report.processed (r : Report) : List Market :=
  (r.paidMarkets ++ r.failures.map (·.market)).mergeSort fun a b => (compare a b).isLE

theorem Settlement.market_of_deal? {s : Settlement} {deal : Deal} (settled : s.deal? = some deal) :
    deal.dust?.map Prod.fst = some s.market := by
  obtain ⟨market, outcome⟩ := s
  cases outcome with
  | error fault => cases settled
  | ok paid =>
    cases settled
    rfl

theorem Report.perm_addAll (r : Report) (settlements : List Settlement) :
    ((r.addAll settlements).paidMarkets ++ (r.addAll settlements).failures.map (·.market)).Perm
      (r.paidMarkets ++ r.failures.map (·.market) ++ settlements.map (·.market)) := by
  induction settlements generalizing r with
  | nil => simp [addAll]
  | cons s rest ih =>
    refine (ih (r.add s)).trans ?_
    rw [List.map_cons, List.append_cons _ s.market]
    refine List.Perm.append_right _ ?_
    obtain ⟨market, outcome⟩ := s
    cases outcome with
    | error fault => simp [add]
    | ok paid =>
      simp only [add, List.append_assoc]
      exact (List.perm_append_comm).append_left _

theorem Report.apart_addAll {settlements : List Settlement}
    (distinct : (settlements.map (·.market)).Nodup) :
    ∀ m ∈ (Report.addAll {} settlements).paidMarkets,
      m ∉ (Report.addAll {} settlements).failures.map (·.market) := by
  have nodup := (Report.perm_addAll {} settlements).nodup_iff.2 distinct
  exact fun m paid failed => (List.nodup_append.1 nodup).2.2 m paid m failed rfl

theorem Report.processed_addAll {settlements : List Settlement}
    (sorted : (settlements.map (·.market)).Pairwise fun a b => compare a b = .lt) :
    (Report.addAll {} settlements).processed = settlements.map (·.market) := by
  have within : (settlements.map (·.market)).Pairwise fun a b => (compare a b).isLE = true :=
    sorted.imp fun below => by rw [below]; rfl
  refine List.Perm.eq_of_pairwise (fun a b _ _ below above => ?_) ?_ within ?_
  · exact Std.LawfulEqCmp.eq_of_compare (Std.OrientedCmp.isLE_antisymm below above)
  · refine List.pairwise_mergeSort (fun _ _ _ => Std.TransCmp.isLE_trans) (fun a b => ?_) _
    have swapped : compare a b = (compare b a).swap := Std.OrientedCmp.eq_swap
    rw [swapped]
    cases compare b a <;> rfl
  · exact (List.mergeSort_perm _ _).trans (Report.perm_addAll {} settlements)

end Payout

structure Leg (ρ : Type) where
  start : Exchange ρ
  after : Option Market
  most : Nat
  report : Payout.Report

namespace Leg

def pending (leg : Leg ρ) : List Market := leg.start.pendingMarkets leg.after

/-- The run takes up exactly the first pending markets after its cursor, and hands on the last of
them just if it leaves others. It lists those that it paid, and those that it could not, in the
order in which they were pending. -/
structure Exact (leg : Leg ρ) : Prop where
  processed : leg.report.processed = leg.pending.take leg.most
  paid : leg.report.paidMarkets.Sublist (leg.pending.take leg.most)
  failed : (leg.report.failures.map (·.market)).Sublist (leg.pending.take leg.most)
  ended : leg.report.nextCursor = none ↔ leg.pending.drop leg.most = []
  resumes : ∀ cursor ∈ leg.report.nextCursor, leg.report.processed.getLast? = some cursor

theorem sorted_pending (leg : Leg ρ) : leg.pending.Pairwise fun a b => compare a b = .lt :=
  Exchange.sorted_pendingMarkets leg.start leg.after

namespace Exact

variable {leg : Leg ρ}

theorem increasing (exact : leg.Exact) :
    leg.report.processed.Pairwise fun a b => compare a b = .lt := by
  rw [exact.processed]
  exact leg.sorted_pending.sublist (List.take_sublist _ _)

theorem beyond (exact : leg.Exact) : ∀ m ∈ leg.report.processed, m.Beyond leg.after := by
  rw [exact.processed]
  exact fun m taken => (Exchange.mem_pendingMarkets_beyond.1 (List.mem_of_mem_take taken)).2

theorem ahead (exact : leg.Exact) {cursor m : Market} (handed : leg.report.nextCursor = some cursor)
    (pending : m ∈ leg.pending) (left : m ∉ leg.report.processed) : compare cursor m = .lt := by
  have last := List.mem_of_getLast? (exact.resumes cursor handed)
  have order := leg.sorted_pending
  rw [exact.processed] at last left
  rw [← List.take_append_drop leg.most leg.pending] at order pending
  have dropped := (List.mem_append.1 pending).resolve_left left
  exact (List.pairwise_append.1 order).2.2 cursor last m dropped

theorem not_ahead (exact : leg.Exact) {cursor m : Market}
    (handed : leg.report.nextCursor = some cursor)
    (taken : m ∈ leg.report.processed) : m = cursor ∨ compare m cursor = .lt := by
  obtain ⟨before, whole⟩ := List.getLast?_eq_some_iff.1 (exact.resumes cursor handed)
  have order := exact.increasing
  rw [whole] at taken order
  rcases List.mem_append.1 taken with earlier | here
  · exact .inr ((List.pairwise_append.1 order).2.2 m earlier cursor (List.mem_singleton_self _))
  · exact .inl (List.mem_singleton.1 here)

end Exact

end Leg

theorem cursor_eq_none_iff {pending : List Market} {most : Nat} (positive : 0 < most) :
    (if (pending.take most).length < pending.length then (pending.take most).getLast? else none) =
      none ↔
      pending.drop most = [] := by
  rw [List.length_take, List.drop_eq_nil_iff]
  split
  next left =>
    have some : pending.take most ≠ [] := by
      rw [← List.length_pos_iff, List.length_take]
      omega
    simp only [List.getLast?_eq_none_iff, some, false_iff]
    omega
  next => simp only [true_iff]; omega

namespace Exchange

theorem run_exact {carrier : Carrier ρ} (plain : carrier.Plain) {x : Exchange ρ} (sound : x.Sound)
    (idle : x.inFlight = []) (after : Option Market) {most : Nat} (positive : 0 < most) :
    ∃ report y, distributeOf carrier after (.int most) x = (.ok report, y) ∧
      (y.Sound ∧ y.inFlight = []) ∧ (Leg.mk x after most report).Exact ∧
      ∀ m, m ∉ report.processed → x.store.Accrues m y.store := by
  have asked : mostOf x.config (.int most) = .ok (some most) := by simp [mostOf, positive]
  obtain ⟨settlements, y, taken, done, leads⟩ :=
    distribute_idle plain sound after (some most) (by simp [idle])
  have sorted : (settlements.map (·.market)).Pairwise fun a b => compare a b = .lt := by
    rw [taken]
    exact (sorted_pendingMarkets x after).sublist (List.take_sublist _ _)
  have processed := Payout.Report.processed_addAll sorted
  have paid := Payout.Settlement.sublist_paid settlements
  have failed := Payout.Settlement.sublist_failed settlements
  rw [taken] at paid failed
  refine ⟨_, y, (distributeOf_eq carrier after asked).trans done,
    ⟨leads.follows.sound, leads.follows.inFlight.trans idle⟩, ⟨?_, ?_, ?_, ?_, ?_⟩,
    fun m spared => leads.accrues fun deal member named => spared ?_⟩
  · exact processed.trans taken
  · exact Payout.Report.paidMarkets_addAll {} settlements ▸ paid
  · exact Payout.Report.failures_addAll {} settlements ▸ failed
  · exact cursor_eq_none_iff positive
  · intro cursor handed
    have last := (Option.ite_none_right_eq_some.1 handed).2
    exact (congrArg List.getLast? (processed.trans taken)).trans last
  · obtain ⟨s, member, settled⟩ := List.mem_filterMap.1 member
    rw [Payout.Settlement.market_of_deal? settled, Option.mem_some_iff] at named
    rw [← named]
    exact (congrArg (s.market ∈ ·) processed).mpr (List.mem_map_of_mem member)

end Exchange

end Runs

section Sweeps

structure Stage where
  most : Nat
  positive : 0 < most
  interlude : Program
  unpaid : interlude.paysNothing = true

/-- Runs payouts from a cursor on, until one hands on no cursor or there are no more stages. What
fails between two runs is dropped. -/
def sweep (carrier : Carrier ρ) : List Stage → Option Market → Action (Exchange ρ) (List (Leg ρ))
  | [], _ => pure []
  | stage :: stages, after => do
    let start ← Action.read id
    let report ← Exchange.distributeOf carrier after (.int stage.most)
    let leg : Leg ρ := ⟨start, after, stage.most, report⟩
    match report.nextCursor with
    | none => pure [leg]
    | some cursor =>
      let _ ← Action.attempt (stage.interlude.run carrier)
      let legs ← sweep carrier stages (some cursor)
      pure (leg :: legs)

/-- The markets that the runs took up, in order. -/
def processedBy (legs : List (Leg ρ)) : List Market := legs.flatMap (·.report.processed)

def Swept (legs : List (Leg ρ)) : Prop :=
  legs.getLast?.any (fun last => last.report.nextCursor.isNone) = true

theorem swept_cons {leg : Leg ρ} {legs : List (Leg ρ)} (left : leg.report.nextCursor ≠ none) :
    Swept (leg :: legs) ↔ Swept legs := by
  cases legs with
  | nil => simp [Swept, left]
  | cons next rest => simp [Swept, List.getLast?_cons_cons]

structure Sweeps (x : Exchange ρ) (after : Option Market) (legs : List (Leg ρ)) : Prop where
  exact : ∀ leg ∈ legs, leg.Exact
  increasing : (processedBy legs).Pairwise fun a b => compare a b = .lt
  beyond : ∀ m ∈ processedBy legs, m.Beyond after
  covers : Swept legs → ∀ m ∈ x.pendingMarkets after, m ∈ processedBy legs

namespace Sweeps

variable {x y : Exchange ρ} {after : Option Market} {leg : Leg ρ} {legs : List (Leg ρ)}

theorem nil (x : Exchange ρ) (after : Option Market) : Sweeps x after [] where
  exact := by simp
  increasing := .nil
  beyond := by simp [processedBy]
  covers := by simp [Swept]

theorem last (exact : leg.Exact) (ended : leg.report.nextCursor = none) :
    Sweeps leg.start leg.after [leg] where
  exact := by simpa using exact
  increasing := by simpa [processedBy] using exact.increasing
  beyond := by simpa [processedBy] using exact.beyond
  covers := by
    intro _ m pending
    have all : leg.report.processed = leg.pending := by
      rw [exact.processed, ← List.append_nil (leg.pending.take _), ← exact.ended.1 ended,
        List.take_append_drop]
    simpa [processedBy, all, Leg.pending] using pending

/-- What a run leaves, the rest of the sweep takes up: it is ahead of the cursor, and keeps its
fees. -/
theorem cons {cursor : Market} (exact : leg.Exact) (left : leg.report.nextCursor = some cursor)
    (kept : ∀ m, m ∉ leg.report.processed → leg.start.store.Accrues m y.store)
    (rest : Sweeps y (some cursor) legs) : Sweeps leg.start leg.after (leg :: legs) := by
  have ahead {m : Market} (later : m ∈ processedBy legs) : compare cursor m = .lt :=
    rest.beyond m later cursor rfl
  refine ⟨List.forall_mem_cons.2 ⟨exact, rest.exact⟩, ?_, fun m member => ?_,
    fun swept m pending => ?_⟩
  · refine List.pairwise_append.2 ⟨exact.increasing, rest.increasing, fun a taken b later => ?_⟩
    rcases exact.not_ahead left taken with rfl | before
    · exact ahead later
    · exact Std.TransCmp.lt_trans before (ahead later)
  · rcases List.mem_append.1 member with taken | later
    · exact exact.beyond m taken
    · have last := List.mem_of_getLast? (exact.resumes cursor left)
      exact fun c given => Std.TransCmp.lt_trans (exact.beyond cursor last c given) (ahead later)
  · by_cases taken : m ∈ leg.report.processed
    · exact List.mem_append_left _ taken
    · have unfinished : Swept legs := (swept_cons (by simp [left])).1 swept
      obtain ⟨⟨pool, held, fees⟩, -⟩ := Exchange.mem_pendingMarkets_beyond.1 pending
      have onward : m.Beyond (some cursor) := by
        rintro c ⟨⟩
        exact exact.ahead left pending taken
      have still : m ∈ y.pendingMarkets (some cursor) :=
        Exchange.mem_pendingMarkets_beyond.2 ⟨(kept m taken).hasFees held fees, onward⟩
      exact List.mem_append_right _ (rest.covers unfinished m still)

end Sweeps

variable {carrier : Carrier ρ} {x : Exchange ρ}

theorem sweeps_of_idle (plain : carrier.Plain) (sound : x.Sound) (idle : x.inFlight = [])
    (stages : List Stage) (after : Option Market) :
    ∃ legs y, sweep carrier stages after x = (.ok legs, y) ∧ Sweeps x after legs := by
  induction stages generalizing x after with
  | nil => exact ⟨[], x, rfl, .nil x after⟩
  | cons stage stages ih =>
    obtain ⟨report, y, done, ⟨sound', idle'⟩, exact, kept⟩ :=
      Exchange.run_exact plain sound idle after stage.positive
    rw [sweep, Action.bind_read, Action.bind_ok done]
    cases handed : report.nextCursor with
    | none => exact ⟨_, y, rfl, .last exact handed⟩
    | some cursor =>
      obtain ⟨events, follows⟩ := stage.interlude.orderly plain.journaled y sound'
      have onward := fun m => Program.accrues plain stage.unpaid sound' m
      cases ran : stage.interlude.run carrier y with
      | mk outcome z =>
        rw [ran] at follows onward
        obtain ⟨legs, w, swept, rest⟩ :=
          ih follows.sound (follows.inFlight.trans idle') (some cursor)
        have caught : Action.attempt (stage.interlude.run carrier) y = (.ok outcome, z) := by
          rw [Action.attempt, ran]
        refine ⟨_, w, ?_, .cons exact handed (fun m left => (kept m left).trans (onward m)) rest⟩
        exact (Action.bind_ok caught _).trans ((Action.bind_ok swept _).trans rfl)

/-- Over a carrier that refuses what it likes, with payout runs of any sizes and anything but
payouts between them, a sweep goes through. Each run takes up exactly the first pending markets
after its cursor, those that it pays and those that it fails each in their order, and hands on a
cursor just if it leaves some; no market is taken up twice; and once a run hands on none, each
market after the first cursor that had fees when the sweep began was taken up once. -/
theorem sweep_exact (plain : carrier.Plain) (sound : x.Sound) (idle : x.inFlight = [])
    (stages : List Stage) (after : Option Market) :
    ∃ legs y, sweep carrier stages after x = (.ok legs, y) ∧ (∀ leg ∈ legs, leg.Exact) ∧
      ((processedBy legs).Pairwise fun a b => compare a b = .lt) ∧
      (Swept legs → ∀ m pool, x.store.pool? m = some pool → pool.hasFees = true → m.Beyond after →
        (processedBy legs).count m = 1) := by
  obtain ⟨legs, y, done, sweeps⟩ := sweeps_of_idle plain sound idle stages after
  refine ⟨legs, y, done, sweeps.exact, sweeps.increasing, fun swept m pool held fees ahead => ?_⟩
  have distinct : (processedBy legs).Nodup := Table.nodup_of_sorted sweeps.increasing
  have pending := Exchange.mem_pendingMarkets_beyond.2 ⟨⟨pool, held, fees⟩, ahead⟩
  exact List.count_eq_one_of_mem distinct (sweeps.covers swept m pending)

def twoMarkets : Exchange Unit :=
  let pool : Pool := ⟨20000, 20000, 7, 0⟩
  let pools := (({} : Store).writePool ⟨1, 2⟩ pool none).writePool ⟨2, 1⟩ pool none
  let funded :=
    (Exchange.morning.fund 2 Config.usual.feeAccount 7).fund 2 Config.usual.poolAccount 40000
  { funded with
    store := (pools.putPosition ⟨1, 2⟩ "alice" ⟨20000, 20000⟩).putPosition ⟨2, 1⟩ "alice"
      ⟨20000, 20000⟩ }

theorem sound_twoMarkets : twoMarkets.Sound where
  store := by
    have first : (({} : Store).writePool ⟨1, 2⟩ ⟨20000, 20000, 7, 0⟩ none).Coherent :=
      Store.coherent_empty.writePool _ none
    have pools : ((({} : Store).writePool ⟨1, 2⟩ ⟨20000, 20000, 7, 0⟩ none).writePool ⟨2, 1⟩
        ⟨20000, 20000, 7, 0⟩ none).Coherent := first.writePool _ none
    exact (pools.putPosition _).putPosition _
  ledger := (Exchange.sound_morning.ledger.put _ _ rfl).put _ _ rfl

def withholding : Carrier.Refusal := fun asset source _ amount =>
  asset = 1 && source = Config.usual.feeAccount && 0 < amount

def oneByOne : List Stage :=
  let trade : Program :=
    .request (.trade .sell (.str "alice") (.tuple [.int 1, .int 2]) (.int 500) (.int 0))
  [⟨1, by decide, trade, rfl⟩, ⟨1, by decide, .done, rfl⟩]

/-- The first market is taken up once, though it cannot be paid and collects fees again. -/
theorem sweep_twoMarkets :
    ∃ legs y, sweep (.refusing withholding) oneByOne none twoMarkets = (.ok legs, y) ∧ Swept legs ∧
      (processedBy legs).count ⟨1, 2⟩ = 1 ∧ (processedBy legs).count ⟨2, 1⟩ = 1 := by
  obtain ⟨legs, y, done, -, -, once⟩ :=
    sweep_exact (Carrier.plain_refusing withholding) sound_twoMarkets rfl oneByOne none
  have swept :
      ((sweep (.refusing withholding) oneByOne none twoMarkets).1.toOption.bind List.getLast?).any
      (fun last => last.report.nextCursor.isNone) = true := by decide +kernel
  rw [done] at swept
  have first : twoMarkets.store.pool? ⟨1, 2⟩ = some ⟨20000, 20000, 7, 0⟩ := by decide +kernel
  have second : twoMarkets.store.pool? ⟨2, 1⟩ = some ⟨20000, 20000, 7, 0⟩ := by decide +kernel
  exact ⟨legs, y, done, swept, once swept _ _ first rfl nofun, once swept _ _ second rfl nofun⟩

end Sweeps

end LiquidityPools
