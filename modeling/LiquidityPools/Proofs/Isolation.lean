import LiquidityPools.Proofs.Blind
import LiquidityPools.Proofs.FullRun

/-!
Payout runs over a carrier that refuses some transfers by a fixed rule. Markets share the fee
account and the providers' balances, and one may be refused after some of its providers were paid;
still a market that fails makes no difference to the others. The run leaves the exchange as it would
be had only the paid markets been settled, one by one.
-/

namespace LiquidityPools

variable {ρ : Type}

namespace Payout

theorem Settlement.events_paid (ss : List Settlement) :
    (ss.filterMap (·.deal?)).flatMap Deal.events =
      ((ss.filterMap (·.deal?)).flatMap Deal.payouts).map Payout.event := by
  induction ss with
  | nil => rfl
  | cons s rest ih =>
    obtain ⟨market, outcome⟩ := s
    cases outcome with
    | error fault => exact ih
    | ok paid =>
      refine (congrArg (paid.1.map Payout.event ++ ·) ih).trans ?_
      exact List.map_append.symm

end Payout

namespace Exchange

open Payout (Settlement Report)

variable {refuses : Carrier.Refusal} {x y z : Exchange ρ} {ss : List Settlement}

inductive Course (refuses : Carrier.Refusal) : Exchange ρ → List Settlement → Exchange ρ → Prop
  | nil (x : Exchange ρ) : Course refuses x [] x
  | failed {x y : Exchange ρ} {market : Market} {fault : Fault} {ss : List Settlement}
    (settled : settle (.refusing refuses) market x = (.error fault, x)) (own : fault.isOwn = true)
    (rest : Course refuses x ss y) : Course refuses x (⟨market, .error fault⟩ :: ss) y
  | paid {x y z : Exchange ρ} {market : Market} {payouts : List Payout} {dust : Nat × Nat}
    {ss : List Settlement} (settled : settle (.refusing refuses) market x =
      (.ok (payouts, dust), y))
    (rest : Course refuses y ss z) : Course refuses x (⟨market, .ok (payouts, dust)⟩ :: ss) z

theorem leads_of_paid {market : Market} {payouts : List Payout} {dust : Nat × Nat} (sound : x.Sound)
    (settled : settle (.refusing refuses) market x = (.ok (payouts, dust), y)) :
    x.Leads [.settled market payouts dust] y :=
  leads_of_settle (Carrier.plain_refusing refuses) sound settled

theorem exists_course (refuses : Carrier.Refusal) (sound : x.Sound) (markets : List Market) :
    ∃ ss y, Course refuses x ss y ∧ ss.map (·.market) = markets := by
  induction markets generalizing x with
  | nil => exact ⟨[], x, .nil x, rfl⟩
  | cons market rest ih =>
    rcases settle_outcome (Carrier.plain_refusing refuses) sound market with
      ⟨fault, host, failed, own⟩ | ⟨payouts, dust, y, done, leads⟩
    · -- what failed left `x` as it was, so that the rest starts there
      obtain ⟨ss, y, course, taken⟩ := ih sound
      have settled := failed
      rw [settle_failed sound failed] at settled
      exact ⟨_, y, .failed settled own course, congrArg (market :: ·) taken⟩
    · obtain ⟨ss, z, course, taken⟩ := ih leads.follows.sound
      exact ⟨_, z, .paid done course, congrArg (market :: ·) taken⟩

namespace Course

theorem leads (course : Course refuses x ss y) (sound : x.Sound) :
    x.Leads (ss.filterMap (·.deal?)) y := by
  induction course with
  | nil x => exact .refl sound
  | failed settled own rest ih => exact ih sound
  | paid settled rest ih =>
    have leads := leads_of_paid sound settled
    exact leads.trans (ih leads.follows.sound)

theorem settleAll (course : Course refuses x ss y) (sound : x.Sound)
    (fresh : ∀ m ∈ ss.map (·.market), m ∉ x.inFlight) (report : Report) :
    settleAll (.refusing refuses) (ss.map (·.market)) report x = (.ok (report.addAll ss), y) := by
  induction course generalizing report with
  | nil x => rfl
  | failed settled own rest ih =>
    obtain ⟨fresh, later⟩ := List.forall_mem_cons.1 fresh
    have flight := settleInFlight_eq_attempt refuses sound fresh
    rw [Action.attempt, settled] at flight
    refine (Action.bind_ok flight _).trans ?_
    simp only [own, if_true]
    exact ih sound later _
  | paid settled rest ih =>
    have leads := leads_of_paid sound settled
    obtain ⟨fresh, later⟩ := List.forall_mem_cons.1 fresh
    have flight := settleInFlight_eq_attempt refuses sound fresh
    rw [Action.attempt, settled] at flight
    refine (Action.bind_ok flight _).trans ?_
    exact ih leads.follows.sound (by rw [leads.follows.inFlight]; exact later) _

theorem alone (course : Course refuses x ss y) :
    ∃ results, ((ss.filterMap (·.deal?)).map Deal.market).mapM (settle (.refusing refuses)) x =
        (.ok results, y) ∧
      (ss.filterMap (·.deal?)).flatMap Deal.payouts = results.flatMap (·.1) ∧
      (ss.filterMap (·.deal?)).filterMap Deal.dust? =
        ((ss.filterMap (·.deal?)).map Deal.market).zip (results.map (·.2)) := by
  induction course with
  | nil x => exact ⟨[], rfl, rfl, rfl⟩
  | failed settled own rest ih => exact ih
  | @paid x y z market payouts dust ss settled rest ih =>
    obtain ⟨results, done, payouts_eq, dust_eq⟩ := ih
    refine ⟨(payouts, dust) :: results, ?_, ?_, ?_⟩
    · show (market :: (ss.filterMap (·.deal?)).map Deal.market).mapM
        (settle (.refusing refuses)) x = _
      rw [List.mapM_cons, Action.bind_ok settled, Action.bind_ok done]
      rfl
    · exact congrArg (payouts ++ ·) payouts_eq
    · exact congrArg ((market, dust) :: ·) dust_eq

theorem spares (course : Course refuses x ss y) (sound : x.Sound) :
    (∀ m, m ∉ (ss.filterMap (·.deal?)).map Deal.market → y.store.pool? m = x.store.pool? m) ∧
      ∀ m, y.store.positionsOf m = x.store.positionsOf m := by
  induction course with
  | nil x => exact ⟨fun _ _ => rfl, fun _ => rfl⟩
  | failed settled own rest ih => exact ih sound
  | paid settled rest ih =>
    have leads := leads_of_paid sound settled
    have ih := ih leads.follows.sound
    obtain ⟨pools, positions⟩ := leads.cleared
    refine ⟨fun m spared => ?_, fun m => (ih.2 m).trans (positions m)⟩
    obtain ⟨apart, later⟩ := not_or.1 (mt List.mem_cons.2 spared)
    exact (ih.1 m later).trans ((pools m).trans (if_neg apart))

theorem market_of_payout (course : Course refuses x ss y) (sound : x.Sound) {p : Payout}
    (paid : p ∈ (ss.filterMap (·.deal?)).flatMap Deal.payouts) :
    p.market ∈ (ss.filterMap (·.deal?)).map Deal.market := by
  induction course with
  | nil x => cases paid
  | failed settled own rest ih => exact ih sound paid
  | paid settled rest ih =>
    have leads := leads_of_paid sound settled
    rcases List.mem_append.1 paid with now | later
    · obtain ⟨-, pool, -, due_eq, -⟩ := leads.run.taken.allowed
      rw [due_eq] at now
      exact List.mem_cons.2 (.inl (Payout.mem_due now).1)
    · exact List.mem_cons_of_mem _ (ih leads.follows.sound later)

end Course

/-- What a run over some markets reports and leaves, seen market by market. -/
structure Isolates (refuses : Carrier.Refusal) (x : Exchange ρ) (batch : List Market)
    (report : Report) (y : Exchange ρ) : Prop where
  paidInOrder : report.paidMarkets.Pairwise fun a b => compare a b = .lt
  failedInOrder : (report.failures.map (·.market)).Pairwise fun a b => compare a b = .lt
  apart : ∀ m ∈ report.paidMarkets, m ∉ report.failures.map (·.market)
  whole : ∀ m, m ∈ batch ↔ m ∈ report.paidMarkets ∨ m ∈ report.failures.map (·.market)
  alone : ∃ results, report.paidMarkets.mapM (settle (.refusing refuses)) x = (.ok results, y) ∧
    report.payouts = results.flatMap (·.1) ∧
    report.dust = report.paidMarkets.zip (results.map (·.2))
  told : x.Delivers (report.payouts.map Payout.event) y
  kept : ∀ f ∈ report.failures, y.store.pool? f.market = x.store.pool? f.market ∧
    y.store.positionsOf f.market = x.store.positionsOf f.market
  silent : ∀ f ∈ report.failures, (∀ p ∈ report.payouts, p.market ≠ f.market) ∧
    ∀ d ∈ report.dust, d.1 ≠ f.market

theorem Course.isolates (course : Course refuses x ss y) (sound : x.Sound)
    (sorted : (ss.map (·.market)).Pairwise fun a b => compare a b = .lt) (cursor : Option Market) :
    x.Isolates refuses (ss.map (·.market)) { Report.addAll {} ss with nextCursor := cursor } y := by
  have paid : (Report.addAll {} ss).paidMarkets = (ss.filterMap (·.deal?)).map Deal.market :=
    Report.paidMarkets_addAll {} ss
  have payouts : (Report.addAll {} ss).payouts = (ss.filterMap (·.deal?)).flatMap Deal.payouts :=
    Report.payouts_addAll {} ss
  have dust : (Report.addAll {} ss).dust = (ss.filterMap (·.deal?)).filterMap Deal.dust? :=
    Report.dust_addAll {} ss
  have failures : (Report.addAll {} ss).failures = ss.filterMap (·.failure?) :=
    Report.failures_addAll {} ss
  have apart := Report.apart_addAll (Table.nodup_of_sorted sorted)
  have spared : ∀ f ∈ (Report.addAll {} ss).failures,
      f.market ∉ (Report.addAll {} ss).paidMarkets :=
    fun f member taken => apart _ taken (List.mem_map_of_mem member)
  obtain ⟨results, done, payouts_eq, dust_eq⟩ := course.alone
  obtain ⟨pools, positions⟩ := course.spares sound
  constructor
  case paidInOrder =>
    rw [paid]
    exact sorted.sublist (Settlement.sublist_paid ss)
  case failedInOrder =>
    rw [failures]
    exact sorted.sublist (Settlement.sublist_failed ss)
  case apart => exact apart
  case whole => exact fun m => (Report.perm_addAll {} ss).mem_iff.symm.trans List.mem_append
  case alone =>
    refine ⟨results, ?_, payouts.trans payouts_eq, ?_⟩
    · rw [paid]
      exact done
    · rw [dust, paid]
      exact dust_eq
  case told =>
    have told := (course.leads sound).follows.delivers
    rw [Settlement.events_paid, ← payouts] at told
    exact told
  case kept =>
    intro f member
    have spared := spared f member
    rw [paid] at spared
    exact ⟨pools f.market spared, positions f.market⟩
  case silent =>
    intro f member
    have spared := spared f member
    constructor
    · rintro p paidOut same
      rw [payouts] at paidOut
      have taken := course.market_of_payout sound paidOut
      rw [← paid, same] at taken
      exact spared taken
    · rintro d left same
      rw [dust, dust_eq, ← paid] at left
      exact spared (same ▸ (List.of_mem_zip left).1)

theorem Course.distribute {after : Option Market} {most : Option Nat}
    (course : Course refuses x ss y)
    (sound : x.Sound) (taken : ss.map (·.market) = batchOf (x.pendingMarkets after) most)
    (idle : ∀ m ∈ batchOf (x.pendingMarkets after) most, m ∉ x.inFlight) :
    let pending := x.pendingMarkets after
    let batch := batchOf pending most
    distribute (.refusing refuses) after most x =
      (.ok { Report.addAll {} ss with
        nextCursor := if batch.length < pending.length then batch.getLast? else none }, y) := by
  have done := course.settleAll sound (by rw [taken]; exact idle) {}
  rw [taken] at done
  simp only [Exchange.distribute, Action.bind_apply, Action.read_apply]
  rw [if_neg (by simpa using idle)]
  exact (Action.bind_ok done _).trans rfl

/-- A market that cannot be settled does not affect the others. Over a carrier with a fixed rule, a
run none of whose markets is in flight goes through: the paid and the failed markets, each in order,
are its batch; it leaves the exchange, events included, as settling just the paid markets would; and
a failed market keeps its pool and positions and has no part in the report but its failure. -/
theorem run_isolates (refuses : Carrier.Refusal) (sound : x.Sound) (after : Option Market)
    {most : Value} {n : Option Nat} (asked : mostOf x.config most = .ok n)
    (idle : ∀ m ∈ batchOf (x.pendingMarkets after) n, m ∉ x.inFlight) :
    ∃ report y, distributeOf (.refusing refuses) after most x = (.ok report, y) ∧
      x.Isolates refuses (batchOf (x.pendingMarkets after) n) report y := by
  obtain ⟨ss, y, course, taken⟩ := exists_course refuses sound (batchOf (x.pendingMarkets after) n)
  have done := course.distribute sound taken idle
  have sorted : (ss.map (·.market)).Pairwise fun a b => compare a b = .lt := by
    rw [taken]
    cases n with
    | none => exact sorted_pendingMarkets x after
    | some n => exact (sorted_pendingMarkets x after).sublist (List.take_sublist _ _)
  have isolates := course.isolates sound sorted
  rw [taken] at isolates
  exact ⟨_, y, (distributeOf_eq _ after asked).trans done, isolates _⟩

def shared : Exchange Unit :=
  let pool : Pool := ⟨20000, 20000, 0, 7⟩
  let pools := (({} : Store).writePool ⟨1, 2⟩ pool none).writePool ⟨1, 3⟩ pool none
  let alice :=
    (pools.putPosition ⟨1, 2⟩ "alice" ⟨10000, 10000⟩).putPosition ⟨1, 3⟩ "alice" ⟨10000, 10000⟩
  let funded := (morning.fund 2 Config.usual.feeAccount 7).fund 3 Config.usual.feeAccount 7
  { funded with
    store := (alice.putPosition ⟨1, 2⟩ "bob" ⟨10000, 10000⟩).putPosition ⟨1, 3⟩ "bob"
      ⟨10000, 10000⟩ }

theorem sound_shared : shared.Sound where
  store := by
    have pools : ((({} : Store).writePool ⟨1, 2⟩ ⟨20000, 20000, 0, 7⟩ none).writePool ⟨1, 3⟩
        ⟨20000, 20000, 0, 7⟩ none).Coherent :=
          (Store.coherent_empty.writePool _ none).writePool _ none
    exact (((pools.putPosition _).putPosition _).putPosition _).putPosition _
  ledger := (sound_morning.ledger.put _ _ rfl).put _ _ rfl

def slighting : Carrier.Refusal := fun asset _ dest _ => asset = 2 && dest = "bob"

theorem run_shared :
    ((distributeOf (.refusing slighting) none .null shared).1.toOption.map fun report =>
      (report.paidMarkets, report.failures.map (·.market))) = some ([⟨1, 3⟩], [⟨1, 2⟩]) := by
  decide +kernel

/-- The first market fails after Alice was paid, and the second is settled as if it were the only
one. -/
theorem run_isolates_shared :
    ∃ report y, distributeOf (.refusing slighting) none .null shared = (.ok report, y) ∧
      shared.Isolates slighting [⟨1, 2⟩, ⟨1, 3⟩] report y ∧ report.paidMarkets = [⟨1, 3⟩] ∧
      report.failures.map (·.market) = [⟨1, 2⟩] := by
  have unlimited : mostOf shared.config .null = .ok none := rfl
  obtain ⟨report, y, done, isolates⟩ :=
    run_isolates slighting sound_shared none unlimited fun _ _ => List.not_mem_nil
  have pending : shared.pendingMarkets none = [⟨1, 2⟩, ⟨1, 3⟩] := by decide +kernel
  have ran := run_shared
  rw [done] at ran
  obtain ⟨paid, failed⟩ := Prod.mk.inj (Option.some.inj ran)
  refine ⟨report, y, done, ?_, paid, failed⟩
  rw [← pending]
  exact isolates

end Exchange

end LiquidityPools
