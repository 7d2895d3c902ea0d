import LiquidityPools.Proofs.Program
import LiquidityPools.Proofs.Settlement

/-!
Every program over a plain carrier commits a run of deals, and nothing else. The dust of the
settlements among them is the dust that the program's payout runs report, less the runs that a
failing unit took back.
-/

namespace LiquidityPools

variable {ρ α β : Type}

def Deal.dust? : Deal → Option (Market × Nat × Nat)
  | .settled market _ dust => some (market, dust)
  | _ => none

structure Payout.Settlement where
  market : Market
  outcome : Except Fault (List Payout × Nat × Nat)

def Payout.Settlement.deal? (s : Settlement) : Option Deal :=
  match s.outcome with
  | .ok (payouts, dust) => some (.settled s.market payouts dust)
  | .error _ => none

def Payout.Settlement.failure? (s : Settlement) : Option Failure :=
  match s.outcome with
  | .ok _ => none
  | .error fault => some ⟨s.market, fault⟩

namespace Payout.Report

def add (r : Report) (s : Settlement) : Report :=
  match s.outcome with
  | .ok (payouts, dust) =>
    { r with
      paidMarkets := r.paidMarkets ++ [s.market]
      payouts := r.payouts ++ payouts
      dust := r.dust ++ [(s.market, dust)] }
  | .error fault => { r with failures := r.failures ++ [⟨s.market, fault⟩] }

def addAll (r : Report) (settlements : List Settlement) : Report := settlements.foldl add r

theorem dust_addAll (r : Report) (settlements : List Settlement) :
    (r.addAll settlements).dust =
      r.dust ++ (settlements.filterMap (·.deal?)).filterMap Deal.dust? := by
  induction settlements generalizing r with
  | nil => exact (List.append_nil _).symm
  | cons s rest ih =>
    refine (ih (r.add s)).trans ?_
    obtain ⟨market, outcome⟩ := s
    cases outcome <;> simp [add, Settlement.deal?, Deal.dust?]

theorem paidMarkets_addAll (r : Report) (settlements : List Settlement) :
    (r.addAll settlements).paidMarkets =
      r.paidMarkets ++ (settlements.filterMap (·.deal?)).map Deal.market := by
  induction settlements generalizing r with
  | nil => exact (List.append_nil _).symm
  | cons s rest ih =>
    refine (ih (r.add s)).trans ?_
    obtain ⟨market, outcome⟩ := s
    cases outcome <;> simp [add, Settlement.deal?, Deal.market]

theorem failures_addAll (r : Report) (settlements : List Settlement) :
    (r.addAll settlements).failures = r.failures ++ settlements.filterMap (·.failure?) := by
  induction settlements generalizing r with
  | nil => exact (List.append_nil _).symm
  | cons s rest ih =>
    refine (ih (r.add s)).trans ?_
    obtain ⟨market, outcome⟩ := s
    cases outcome <;> simp [add, Settlement.failure?]

end Payout.Report

namespace Payout.Settlement

theorem sublist_paid (settlements : List Settlement) :
    ((settlements.filterMap (·.deal?)).map Deal.market).Sublist (settlements.map (·.market)) := by
  induction settlements with
  | nil => exact .slnil
  | cons s rest ih =>
    obtain ⟨market, outcome⟩ := s
    cases outcome with
    | error fault => exact ih.cons _
    | ok paid => exact ih.cons_cons _

theorem sublist_failed (settlements : List Settlement) :
    ((settlements.filterMap (·.failure?)).map (·.market)).Sublist
      (settlements.map (·.market)) := by
  induction settlements with
  | nil => exact .slnil
  | cons s rest ih =>
    obtain ⟨market, outcome⟩ := s
    cases outcome with
    | error fault => exact ih.cons_cons _
    | ok paid => exact ih.cons _

end Payout.Settlement

namespace Exchange

/-- Run on this state, the step commits deals whose settlements leave this dust. -/
def Commits (m : Action (Exchange ρ) α) (x : Exchange ρ)
    (dust : List (Market × Nat × Nat)) : Prop :=
  ∃ deals, x.Leads deals (m x).2 ∧ deals.filterMap Deal.dust? = dust

variable {carrier : Carrier ρ} {x y : Exchange ρ} {m : Action (Exchange ρ) α}
  {dust : List (Market × Nat × Nat)}

theorem commits_of_same (sound : x.Sound) (same : (m x).2 = x) : Commits m x [] :=
  ⟨[], by rw [same]; exact .refl sound, rfl⟩

theorem Commits.map (commits : Commits m x dust) (g : α → β) : Commits (g <$> m) x dust := by
  obtain ⟨deals, leads, left⟩ := commits
  refine ⟨deals, ?_, left⟩
  have run : ((g <$> m) x).2 = (m x).2 := by
    show ((m >>= fun a => pure (g a)) x).2 = (m x).2
    rw [Action.bind_apply]
    split <;> simp_all
  rw [run]
  exact leads

theorem Commits.attempt (commits : Commits m x dust) : Commits (Action.attempt m) x dust := commits

theorem commits_of_ok (step : AllOrNothing m) (sound : x.Sound)
    (done : ∀ a y, m x = (.ok a, y) → ∃ deal, x.Leads [deal] y ∧ deal.dust? = none) :
    Commits m x [] := by
  cases h : m x with
  | mk outcome y =>
    cases outcome with
    | error fault =>
      obtain ⟨host, rfl⟩ := step.whole x sound fault y h
      exact ⟨[], by rw [h]; exact (Leads.refl sound).withHost host, rfl⟩
    | ok a =>
      obtain ⟨deal, leads, clean⟩ := done a y h
      exact ⟨[deal], by rw [h]; exact leads, by simp [clean]⟩

theorem commits_collect (orderly : Orderly m) (sound : x.Sound)
    (commits : Commits m x.opened dust) :
    Commits (collect m) x (if (m x.opened).1.isOk then dust else []) := by
  obtain ⟨deals, leads, left⟩ := commits
  obtain ⟨events, above, ⟨fault, failed, restored⟩ | ⟨a, done, closed⟩⟩ :=
    orderly.journaled.collect sound
  · rw [failed]
    exact ⟨[], by rw [restored]; exact (Leads.refl sound).withHost _, rfl⟩
  · rw [done]
    refine ⟨deals, ?_, left⟩
    have told := leads.follows.openUnits
    rw [openUnits_deliver] at told
    have same : events = deals.flatMap Deal.events := by
      rw [above.openUnits] at told
      exact (List.cons.inj told).1
    rw [closed]
    constructor
    · rw [← same]
      exact .of_opened above
    · rw [books_closed]
      exact leads.run

theorem commits_lift (sound : x.Sound) {outcome : Except Fault β} {f : β → Action (Exchange ρ) α}
    (later : ∀ b, Commits (f b) x []) :
    Commits ((liftM outcome : Action (Exchange ρ) β) >>= f) x [] := by
  cases outcome with
  | error fault => exact commits_of_same sound rfl
  | ok b => exact later b

section Requests

variable (plain : carrier.Plain) (sound : x.Sound)

include plain sound

theorem commits_createOf (caller base quote baseAmount quoteAmount : Value) :
    Commits (createOf carrier caller base quote baseAmount quoteAmount) x [] := by
  refine commits_of_ok (allOrNothing_createOf plain.journaled ..) sound fun a y done => ?_
  rw [createOf, Action.bind_read] at done
  obtain ⟨account, called, done⟩ := Action.bind_lift_eq_ok done
  obtain ⟨market, named, done⟩ := Action.bind_lift_eq_ok done
  obtain ⟨b, baseGiven, done⟩ := Action.bind_lift_eq_ok done
  obtain ⟨q, quoteGiven, done⟩ := Action.bind_lift_eq_ok done
  dsimp only at done
  split at done
  next zero => cases done
  next positive =>
    have may := (callerOf_eq_ok_iff.1 called).2
    have valid := valid_of_marketOf named
    have baseFits := le_cap_of_amountOf baseGiven
    have quoteFits := le_cap_of_amountOf quoteGiven
    refine ⟨.opened account market b q,
      leads_unit (journaled_openPool plain.journaled _ _ _ _) sound
      (fun z body => ?_) done, rfl⟩
    exact enters_openPool plain sound.opened may valid ⟨by omega, baseFits⟩
      ⟨by omega, quoteFits⟩ body

theorem commits_depositOf (caller market baseAmount quoteAmount : Value) :
    Commits (depositOf carrier caller market baseAmount quoteAmount) x [] := by
  refine commits_of_ok (allOrNothing_depositOf plain.journaled ..) sound fun a y done => ?_
  rw [depositOf, Action.bind_read] at done
  obtain ⟨account, called, done⟩ := Action.bind_lift_eq_ok done
  obtain ⟨m, named, done⟩ := Action.bind_lift_eq_ok done
  obtain ⟨b, baseGiven, done⟩ := Action.bind_lift_eq_ok done
  obtain ⟨q, quoteGiven, done⟩ := Action.bind_lift_eq_ok done
  have may := (callerOf_eq_ok_iff.1 called).2
  have valid := valid_of_marketOfPair named
  refine ⟨.added account m b q, leads_unit (journaled_addLiquidity plain.journaled _ _ _ _) sound
    (fun z body => ?_) done, rfl⟩
  exact enters_addLiquidity plain sound.opened may valid body

theorem commits_withdrawOf (caller market baseAmount quoteAmount : Value) :
    Commits (withdrawOf carrier caller market baseAmount quoteAmount) x [] := by
  refine commits_of_ok (allOrNothing_withdrawOf plain.journaled ..) sound fun a y done => ?_
  rw [withdrawOf, Action.bind_read] at done
  obtain ⟨account, called, done⟩ := Action.bind_lift_eq_ok done
  obtain ⟨m, named, done⟩ := Action.bind_lift_eq_ok done
  obtain ⟨b, baseGiven, done⟩ := Action.bind_lift_eq_ok done
  obtain ⟨q, quoteGiven, done⟩ := Action.bind_lift_eq_ok done
  have may := (callerOf_eq_ok_iff.1 called).2
  have valid := valid_of_marketOfPair named
  refine ⟨.withdrawn account m b q, leads_unit
    (journaled_removeLiquidity plain.journaled _ _ _ _) sound
    (fun z body => ?_) done, rfl⟩
  exact enters_removeLiquidity plain sound.opened may valid body

theorem commits_tradeOf (side : Side) (caller market amount least : Value) :
    Commits (tradeOf carrier side caller market amount least) x [] := by
  refine commits_of_ok (allOrNothing_tradeOf plain.journaled ..) sound fun quote y done => ?_
  rw [tradeOf, Action.bind_read] at done
  obtain ⟨account, called, done⟩ := Action.bind_lift_eq_ok done
  obtain ⟨m, named, done⟩ := Action.bind_lift_eq_ok done
  obtain ⟨n, given, done⟩ := Action.bind_lift_eq_ok done
  obtain ⟨l, leastGiven, done⟩ := Action.bind_lift_eq_ok done
  have may := (callerOf_eq_ok_iff.1 called).2
  have valid := valid_of_marketOfPair named
  have fits := le_cap_of_amountOf given
  refine ⟨.traded account m n quote, leads_unit (journaled_swap plain.journaled _ _ _ _ _) sound
    (fun z body => ?_) done, rfl⟩
  exact enters_swap plain sound.opened may valid fits body

theorem commits_perform (caller : Value) (args : Arguments) (name : CallName) :
    Commits (perform carrier caller args name) x [] := by
  cases name with
  | createMarketPool =>
    refine commits_lift sound fun base => commits_lift sound fun quote => ?_
    refine commits_lift sound fun baseAmount => commits_lift sound fun quoteAmount => ?_
    exact (commits_createOf plain sound ..).map _
  | depositLiquidity =>
    refine commits_lift sound fun market => ?_
    refine commits_lift sound fun baseAmount => commits_lift sound fun quoteAmount => ?_
    exact (commits_depositOf plain sound ..).map _
  | withdrawLiquidity =>
    refine commits_lift sound fun market => ?_
    refine commits_lift sound fun baseAmount => commits_lift sound fun quoteAmount => ?_
    exact (commits_withdrawOf plain sound ..).map _
  | buy =>
    refine commits_lift sound fun market => ?_
    refine commits_lift sound fun amount => commits_lift sound fun least => ?_
    exact (commits_tradeOf plain sound ..).map _
  | sell =>
    refine commits_lift sound fun market => ?_
    refine commits_lift sound fun amount => commits_lift sound fun least => ?_
    exact (commits_tradeOf plain sound ..).map _

theorem commits_callOrFail (caller call : Value) :
    Commits (callOrFail carrier caller call) x [] := by
  unfold callOrFail
  split
  next args =>
    split
    next text =>
      split
      next name _ =>
        refine Commits.map ?_ _
        have commits := commits_collect (orderly_perform plain.journaled caller args name) sound
          (commits_perform plain sound.opened caller args name)
        rwa [ite_self] at commits
      next => exact commits_of_same sound rfl
    next => exact commits_of_same sound rfl
  next => exact commits_of_same sound rfl

theorem commits_call (caller data : Value) : Commits (call carrier caller data) x [] := by
  obtain ⟨deals, leads, clean⟩ := commits_callOrFail plain sound caller data
  refine ⟨deals, ?_, clean⟩
  rw [call, Action.bind_apply]
  simp only [Action.attempt]
  cases (callOrFail carrier caller data x).1 with
  | ok events => exact leads
  | error fault =>
    dsimp only
    split
    · exact leads
    · exact leads

theorem commits_settle (market : Market) :
    Commits (settle carrier market) x
      (match (settle carrier market x).1 with
        | .ok paid => [(market, paid.2)]
        | .error _ => []) := by
  rcases settle_outcome plain sound market
    with ⟨fault, host, failed, -⟩ | ⟨payouts, dust, y, done, leads⟩
  · rw [failed]
    exact ⟨[], by rw [failed]; exact (Leads.refl sound).withHost host, rfl⟩
  · rw [done]
    exact ⟨_, by rw [done]; exact leads, rfl⟩

end Requests

section Payouts

theorem distribute_busy (carrier : Carrier ρ) {after : Option Market} {most : Option Nat}
    (busy : ∃ m ∈ batchOf (x.pendingMarkets after) most, m ∈ x.inFlight) :
    distribute carrier after most x =
      (.error (.payoutRunning ((batchOf (x.pendingMarkets after) most).filter (· ∈ x.inFlight))),
        x) := by
  simp only [distribute, Action.bind_apply, Action.read_apply]
  rw [if_pos (by simpa using busy)]
  rfl

theorem distributeOf_eq (carrier : Carrier ρ) (after : Option Market) {most : Value}
    {limit : Option Nat} (asked : mostOf x.config most = .ok limit) :
    distributeOf carrier after most x = distribute carrier after limit x := by
  rw [distributeOf, Action.bind_read, asked]
  rfl

variable (plain : carrier.Plain)

include plain

theorem settleAll_outcome (markets : List Market) (report : Payout.Report) (sound : x.Sound)
    (fresh : ∀ m ∈ markets, m ∉ x.inFlight) :
    ∃ settlements y, settleAll carrier markets report x = (.ok (report.addAll settlements), y) ∧
      settlements.map (·.market) = markets ∧ x.Leads (settlements.filterMap (·.deal?)) y := by
  induction markets generalizing report x with
  | nil => exact ⟨[], x, rfl, rfl, .refl sound⟩
  | cons market rest ih =>
    have fresh' := fresh market List.mem_cons_self
    rcases settle_outcome plain (sound.taking market) market with
      ⟨fault, host, failed, own⟩ | ⟨payouts, dust, y, done, leads⟩
    · have flight := settleInFlight_eq plain.journaled sound fresh' failed
      have sound' : Exchange.Sound { x with host } := ⟨sound.store, sound.ledger⟩
      obtain ⟨settlements, z, done, taken, leads⟩ :=
        ih { report with failures := report.failures ++ [⟨market, fault⟩] } sound' fun m member =>
          fresh m (List.mem_cons_of_mem _ member)
      refine ⟨⟨market, .error fault⟩ :: settlements, z, ?_, congrArg (market :: ·) taken,
        ((Leads.refl sound).withHost host).trans leads⟩
      rw [settleAll, Action.bind_ok flight]
      simp only [own, if_true]
      exact done
    · have flight := settleInFlight_eq plain.journaled sound fresh' done
      have landed : x.Leads [.settled market payouts dust] { y with inFlight := x.inFlight } :=
        ⟨leads.follows.landed, leads.run⟩
      obtain ⟨settlements, z, done, taken, leads⟩ :=
        ih { report with
            paidMarkets := report.paidMarkets ++ [market]
            payouts := report.payouts ++ payouts
            dust := report.dust ++ [(market, dust)] }
          landed.follows.sound fun m member => fresh m (List.mem_cons_of_mem _ member)
      refine ⟨⟨market, .ok (payouts, dust)⟩ :: settlements, z, ?_, congrArg (market :: ·) taken,
        landed.trans leads⟩
      rw [settleAll, Action.bind_ok flight]
      exact done

theorem distribute_idle (sound : x.Sound) (after : Option Market) (most : Option Nat)
    (idle : ∀ m ∈ batchOf (x.pendingMarkets after) most, m ∉ x.inFlight) :
    let pending := x.pendingMarkets after
    let batch := batchOf pending most
    ∃ settlements y, settlements.map (·.market) = batch ∧
      distribute carrier after most x =
        (.ok { Payout.Report.addAll {} settlements with
          nextCursor := if batch.length < pending.length then batch.getLast? else none }, y) ∧
      x.Leads (settlements.filterMap (·.deal?)) y := by
  obtain ⟨settlements, y, done, taken, leads⟩ := settleAll_outcome plain _ {} sound idle
  refine ⟨settlements, y, taken, ?_, leads⟩
  simp only [distribute, Action.bind_apply, Action.read_apply]
  rw [if_neg (by simpa using idle)]
  exact (Action.bind_ok done _).trans rfl

theorem distribute_outcome (sound : x.Sound) (after : Option Market) (most : Option Nat) :
    (∃ fault, distribute carrier after most x = (.error fault, x)) ∨
      ∃ report y deals, distribute carrier after most x = (.ok report, y) ∧ x.Leads deals y ∧
        report.dust = deals.filterMap Deal.dust? := by
  by_cases idle : ∀ m ∈ batchOf (x.pendingMarkets after) most, m ∉ x.inFlight
  · obtain ⟨settlements, y, -, done, leads⟩ := distribute_idle plain sound after most idle
    exact .inr ⟨_, y, _, done, leads, Payout.Report.dust_addAll {} settlements⟩
  · exact .inl ⟨_, distribute_busy carrier (by simpa using idle)⟩

theorem distributeOf_outcome (sound : x.Sound) (after : Option Market) (most : Value) :
    (∃ fault, distributeOf carrier after most x = (.error fault, x)) ∨
      ∃ report y deals, distributeOf carrier after most x = (.ok report, y) ∧ x.Leads deals y ∧
        report.dust = deals.filterMap Deal.dust? := by
  rw [distributeOf, Action.bind_read]
  cases mostOf x.config most with
  | error fault => exact .inl ⟨fault, rfl⟩
  | ok most => exact distribute_outcome plain sound after most

end Payouts

end Exchange

open Exchange

variable (carrier : Carrier ρ)

/-- What a payout run reports; nothing if it is refused. -/
def Exchange.reportsOf (after : Option Market) (most : Value) (x : Exchange ρ) :
    List Payout.Report :=
  match (distributeOf carrier after most x).1 with
  | .ok report => [report]
  | .error _ => []

def Exchange.reportsOfSettlement (market : Market) (x : Exchange ρ) : List Payout.Report :=
  match (settle carrier market x).1 with
  | .ok (payouts, dust) => [{ paidMarkets := [market], payouts, dust := [(market, dust)] }]
  | .error _ => []

/-- The reports of the payout runs that the program commits: those inside a unit that fails are
taken back with it. -/
def Program.reports : Program → Exchange ρ → List Payout.Report
  | .request (.settle market), x => reportsOfSettlement carrier market x
  | .distribute after most, x => reportsOf carrier after most x
  | .distributeOrFail after most, x => reportsOf carrier after most x
  | .seq first second, x =>
    first.reports x ++
      if (first.run carrier x).1.isOk then second.reports (first.run carrier x).2 else []
  | .attempt body, x => body.reports x
  | .unit body, x => if (body.run carrier x.opened).1.isOk then body.reports x.opened else []
  | _, _ => []

variable {carrier}

theorem Exchange.commits_distributeOf (plain : carrier.Plain) {x : Exchange ρ} (sound : x.Sound)
    (after : Option Market) (most : Value) :
    Commits (distributeOf carrier after most) x
      ((reportsOf carrier after most x).flatMap (·.dust)) := by
  rcases distributeOf_outcome plain sound after most with
    ⟨fault, refused⟩ | ⟨report, y, deals, done, leads, left⟩
  · rw [reportsOf, refused]
    exact commits_of_same sound (by rw [refused])
  · rw [reportsOf, done]
    exact ⟨deals, by rw [done]; exact leads, by simp [left]⟩

/-- A run that fails because a market could not be settled has settled the others. -/
theorem Exchange.commits_distributeOrFail (plain : carrier.Plain) {x : Exchange ρ} (sound : x.Sound)
    (after : Option Market) (most : Value) :
    Commits (distributeOrFail carrier after most) x
      ((reportsOf carrier after most x).flatMap (·.dust)) := by
  obtain ⟨deals, leads, left⟩ := commits_distributeOf plain sound after most
  refine ⟨deals, ?_, left⟩
  rw [distributeOrFail, Action.bind_apply]
  cases h : distributeOf carrier after most x with
  | mk outcome y =>
    rw [h] at leads
    cases outcome with
    | error fault => exact leads
    | ok report =>
      dsimp only
      split
      · exact leads
      · exact leads

theorem Program.commits (plain : carrier.Plain) {x : Exchange ρ} (sound : x.Sound) (p : Program) :
    Commits (p.run carrier) x ((p.reports carrier x).flatMap (·.dust)) := by
  induction p generalizing x with
  | done => exact commits_of_same sound rfl
  | fail fault => exact commits_of_same sound rfl
  | request r =>
    cases r with
    | create caller base quote b q => exact (commits_createOf plain sound ..).map _
    | deposit caller market b q => exact (commits_depositOf plain sound ..).map _
    | withdraw caller market b q => exact (commits_withdrawOf plain sound ..).map _
    | trade side caller market amount least => exact (commits_tradeOf plain sound ..).map _
    | call caller data => exact (commits_call plain sound ..).map _
    | callOrFail caller data => exact (commits_callOrFail plain sound ..).map _
    | settle market =>
      have told : (reportsOfSettlement carrier market x).flatMap (·.dust) =
          match (settle carrier market x).1 with
          | .ok paid => [(market, paid.2)]
          | .error _ => [] := by
        unfold reportsOfSettlement
        cases (settle carrier market x).1 <;> rfl
      rw [reports, told]
      exact (commits_settle plain sound market).map _
  | distribute after most => exact (commits_distributeOf plain sound after most).map _
  | distributeOrFail after most => exact (commits_distributeOrFail plain sound after most).map _
  | seq first second ih ih' =>
    obtain ⟨deals, leads, left⟩ := ih sound
    have commits := ih' leads.follows.sound
    simp only [reports, run, List.flatMap_append]
    rw [Commits, Action.bind_apply]
    cases h : first.run carrier x with
    | mk outcome y =>
      rw [h] at leads commits
      cases outcome with
      | error fault => exact ⟨deals, leads, by simp [left, Except.isOk, Except.toBool]⟩
      | ok a =>
        obtain ⟨more, onward, left'⟩ := commits
        exact ⟨deals ++ more, leads.trans onward, by
          simp [List.filterMap_append, left, left', Except.isOk, Except.toBool]⟩
  | attempt body ih => exact (ih sound).attempt.map _
  | unit body ih =>
    have commits := commits_collect (body.orderly plain.journaled) sound (ih sound.opened)
    have told : (body.unit.reports carrier x).flatMap (·.dust) =
        if (body.run carrier x.opened).1.isOk then (body.reports carrier x.opened).flatMap (·.dust)
        else [] := by
      rw [reports]
      split <;> rfl
    rw [told]
    exact commits.map _

end LiquidityPools
