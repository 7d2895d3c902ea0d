import LiquidityPools.Proofs.Isolation

/-!
Payouts in chunks. A run over all pending markets comes to the same as any sequence of smaller runs,
each resumed where the one before stopped: what a run has settled drops out of the pending markets,
what it could not settle stays behind the cursor, and so each run finds just what is left of the
first list. Nor does it matter how many positions are read at a time.
-/

namespace LiquidityPools

open Payout (Settlement Report)

variable {ρ : Type}

/-- The reports of some runs, put together. -/
structure AddsUp (legs : List (Leg ρ)) (report : Report) : Prop where
  paidMarkets : legs.flatMap (·.report.paidMarkets) = report.paidMarkets
  payouts : legs.flatMap (·.report.payouts) = report.payouts
  dust : legs.flatMap (·.report.dust) = report.dust
  failures : legs.flatMap (·.report.failures) = report.failures

namespace AddsUp

theorem nil : AddsUp ([] : List (Leg ρ)) (Report.addAll {} []) := ⟨rfl, rfl, rfl, rfl⟩

theorem cons (x : Exchange ρ) (after cursor : Option Market) (n : Nat) {ss : List Settlement}
    {legs : List (Leg ρ)} (rest : AddsUp legs (Report.addAll {} (ss.drop n))) :
    AddsUp (⟨x, after, n, { Report.addAll {} (ss.take n) with nextCursor := cursor }⟩ :: legs)
      (Report.addAll {} ss) := by
  have whole := List.take_append_drop n ss
  generalize ss.take n = first at whole ⊢
  generalize ss.drop n = second at whole rest
  obtain rfl := whole
  obtain ⟨paidMarkets, payouts, dust, failures⟩ := rest
  constructor
  · simp [paidMarkets, Report.paidMarkets_addAll]
  · simp [payouts, Report.payouts_addAll]
  · simp [dust, Report.dust_addAll]
  · simp [failures, Report.failures_addAll]

end AddsUp

section Cursor

variable {l : List Market} (sorted : l.Pairwise fun a b => compare a b = .lt) {n : Nat}
    {cursor m : Market}
  (last : (l.take n).getLast? = some cursor)

include sorted last

theorem not_beyond_last (taken : m ∈ l.take n) : compare cursor m ≠ .lt := by
  intro beyond
  obtain ⟨before, first⟩ := List.getLast?_eq_some_iff.1 last
  have order := sorted.sublist (List.take_sublist n l)
  rw [first] at taken order
  rcases List.mem_append.1 taken with earlier | here
  · have below := (List.pairwise_append.1 order).2.2 m earlier cursor (List.mem_singleton_self _)
    have loop := Std.TransCmp.lt_trans below beyond
    simp at loop
  · rw [List.mem_singleton.1 here] at beyond
    simp at beyond

theorem mem_drop_iff : m ∈ l.drop n ↔ m ∈ l ∧ compare cursor m = .lt := by
  have order := sorted
  rw [← List.take_append_drop n l] at order
  constructor
  · intro dropped
    refine ⟨List.mem_of_mem_drop dropped, ?_⟩
    exact (List.pairwise_append.1 order).2.2 cursor (List.mem_of_getLast? last) m dropped
  · rintro ⟨member, beyond⟩
    rw [← List.take_append_drop n l] at member
    exact (List.mem_append.1 member).resolve_left fun taken =>
      not_beyond_last sorted last taken beyond

end Cursor

namespace Exchange

variable {refuses : Carrier.Refusal} {x y z : Exchange ρ} {ss : List Settlement}
    {after : Option Market}

namespace Course

theorem split {first second : List Settlement} (course : Course refuses x (first ++ second) y) :
    ∃ z, Course refuses x first z ∧ Course refuses z second y := by
  induction first generalizing x with
  | nil => exact ⟨x, .nil x, course⟩
  | cons s rest ih =>
    cases course with
    | failed settled own onward =>
      obtain ⟨z, earlier, later⟩ := ih onward
      exact ⟨z, .failed settled own earlier, later⟩
    | paid settled onward =>
      obtain ⟨z, earlier, later⟩ := ih onward
      exact ⟨z, .paid settled earlier, later⟩

theorem guised (course : Course refuses x ss y) (sound : x.Sound) (g : Guise ρ) :
    Course refuses (x.guised g) ss (y.guised g) := by
  induction course with
  | nil x => exact .nil _
  | failed settled own rest ih =>
    refine .failed ?_ own (ih sound)
    rw [settle_guised refuses sound, settled]
  | paid settled rest ih =>
    refine .paid ?_ (ih (leads_of_paid sound settled).follows.sound)
    rw [settle_guised refuses sound, settled]

theorem guise_eq (course : Course refuses x ss y) (sound : x.Sound) : y.guise = x.guise := by
  induction course with
  | nil x => rfl
  | failed settled own rest ih => exact ih sound
  | @paid x y z market payouts dust ss settled rest ih =>
    refine (ih (leads_of_paid sound settled).follows.sound).trans ?_
    have kept : y = y.guised x.guise := by
      have kept := guise_settle refuses sound market
      rwa [settled] at kept
    exact (congrArg Exchange.guise kept).trans rfl

theorem pendingMarkets_beyond (course : Course refuses x ss z) (sound : x.Sound) {n : Nat}
    (taken : ss.map (·.market) = (x.pendingMarkets after).take n) {cursor : Market}
    (last : ((x.pendingMarkets after).take n).getLast? = some cursor) :
    z.pendingMarkets (some cursor) = (x.pendingMarkets after).drop n := by
  have sorted := sorted_pendingMarkets x after
  refine Table.eq_of_sorted (sorted_pendingMarkets z (some cursor))
    (sorted.sublist (List.drop_sublist _ _)) fun m => ?_
  rw [mem_drop_iff sorted last, mem_pendingMarkets_beyond, mem_pendingMarkets_beyond, and_assoc]
  have ahead : m.Beyond (some cursor) ↔ m.Beyond after ∧ compare cursor m = .lt := by
    have reached :=
      (mem_pendingMarkets_beyond.1 (List.mem_of_mem_take (List.mem_of_getLast? last))).2
    constructor
    · intro beyond
      exact ⟨fun c given => Std.TransCmp.lt_trans (reached c given) (beyond cursor rfl),
        beyond cursor rfl⟩
    · rintro ⟨-, beyond⟩ c ⟨⟩
      exact beyond
  rw [ahead]
  refine and_congr_left fun ⟨after, beyond⟩ => ?_
  have spared : m ∉ (ss.filterMap (·.deal?)).map Deal.market := by
    intro paid
    have member := (Settlement.sublist_paid ss).subset paid
    rw [taken] at member
    exact not_beyond_last sorted last member beyond
  rw [(course.spares sound).1 m spared]

/-- A run of bounded size takes the first part of a course. It hands on a cursor if there is a rest,
and then that is what is pending beyond the cursor. -/
theorem leg (course : Course refuses x ss y) (sound : x.Sound) (idle : x.inFlight = [])
    (taken : ss.map (·.market) = x.pendingMarkets after) {n : Nat} (positive : 0 < n) :
    ∃ z cursor, distributeOf (.refusing refuses) after (.int n) x =
        (.ok { Report.addAll {} (ss.take n) with nextCursor := cursor }, z) ∧
      Course refuses z (ss.drop n) y ∧ (z.Sound ∧ z.inFlight = []) ∧
      (cursor = none ↔ ss.drop n = []) ∧
      ∀ c ∈ cursor, (ss.drop n).map (·.market) = z.pendingMarkets (some c) := by
  rw [← List.take_append_drop n ss] at course
  obtain ⟨z, earlier, later⟩ := course.split
  have first : (ss.take n).map (·.market) = batchOf (x.pendingMarkets after) (some n) := by
    rw [List.map_take, taken]
    rfl
  have others : (ss.drop n).map (·.market) = (x.pendingMarkets after).drop n := by
    rw [List.map_drop, taken]
  have asked : mostOf x.config (.int n) = .ok (some n) := by simp [mostOf, positive]
  have ran :=
    (distributeOf_eq _ after asked).trans (earlier.distribute sound first (by simp [idle]))
  have follows := (earlier.leads sound).follows
  refine ⟨z, _, ran, later, ⟨follows.sound, follows.inFlight.trans idle⟩, ?_, fun c handed => ?_⟩
  · rw [← List.map_eq_nil_iff, others]
    exact cursor_eq_none_iff positive
  · have last := (Option.ite_none_right_eq_some.1 handed).2
    exact others.trans (earlier.pendingMarkets_beyond sound first last).symm

end Course

theorem paysNothing_done : Program.done.paysNothing = true := rfl

def chunks (sizes : List { n : Nat // 0 < n }) : List Stage :=
  sizes.map fun n => ⟨n.1, n.2, .done, paysNothing_done⟩

theorem Course.sweep (course : Course refuses x ss y) (sound : x.Sound) (idle : x.inFlight = [])
    (taken : ss.map (·.market) = x.pendingMarkets after) {sizes : List { n : Nat // 0 < n }}
    (some : sizes ≠ []) (enough : ss.length ≤ (sizes.map (·.1)).sum) :
    ∃ legs, sweep (.refusing refuses) (chunks sizes) after x = (.ok legs, y) ∧ Swept legs ∧
      AddsUp legs (Report.addAll {} ss) := by
  induction sizes generalizing x ss after with
  | nil => exact absurd rfl some
  | cons size sizes ih =>
    obtain ⟨n, positive⟩ := size
    obtain ⟨z, cursor, ran, later, ⟨sound', idle'⟩, ended, onward⟩ :=
      course.leg sound idle taken positive
    rw [chunks, List.map_cons, LiquidityPools.sweep, Action.bind_read, Action.bind_ok ran]
    dsimp only
    cases cursor with
    | none =>
      have nothing : ss.drop n = [] := ended.1 rfl
      rw [nothing] at later
      cases later
      exact ⟨_, rfl, rfl, .cons x after none n (by rw [nothing]; exact .nil)⟩
    | some cursor =>
      -- the sizes do not run out before the markets do
      have left : ss.drop n ≠ [] := mt ended.2 (Option.some_ne_none cursor)
      have enough : (ss.drop n).length ≤ (sizes.map (·.1)).sum := by
        rw [List.length_drop]
        simp only [List.map_cons, List.sum_cons] at enough
        omega
      have some : sizes ≠ [] := by
        rintro rfl
        exact left (List.eq_nil_of_length_eq_zero (Nat.le_zero.1 enough))
      obtain ⟨legs, swept, finished, adds⟩ := ih later sound' idle' (onward cursor rfl) some enough
      refine ⟨_, (Action.bind_ok swept _).trans rfl, ?_, .cons x after (Option.some cursor) n adds⟩
      exact (swept_cons (Option.some_ne_none cursor)).2 finished

variable (x) in
def paged (pageSize : Nat) (positive : 0 < pageSize) : Exchange ρ :=
  { x with config := { x.config with pageSize, pageSize_pos := positive } }

theorem paged_self (x : Exchange ρ) : x.paged x.config.pageSize x.config.pageSize_pos = x := rfl

/-- However a payout is cut into runs of bounded size, and however many positions are read at a
time, the exchange ends up as after one unbounded run, and the reports add up to that run's report.
Runs whose sizes come to the number of pending markets are enough to end it. -/
theorem sweep_chunks (refuses : Carrier.Refusal) (sound : x.Sound) (idle : x.inFlight = [])
    (unbounded : x.config.batch = none) (after : Option Market) :
    ∃ (report : Report) (y : Exchange ρ), ∀ pageSize (positive : 0 < pageSize),
      distributeOf (.refusing refuses) after .null (x.paged pageSize positive) =
        (.ok report, y.paged pageSize positive) ∧
      ∀ sizes : List { n : Nat // 0 < n }, sizes ≠ [] →
        (x.pendingMarkets after).length ≤ (sizes.map (·.1)).sum →
        ∃ legs, sweep (.refusing refuses) (chunks sizes) after (x.paged pageSize positive) =
            (.ok legs, y.paged pageSize positive) ∧ Swept legs ∧ AddsUp legs report := by
  obtain ⟨ss, y, course, taken⟩ := exists_course refuses sound (x.pendingMarkets after)
  refine ⟨{ Report.addAll {} ss with nextCursor := none }, y, fun pageSize positive => ?_⟩
  -- the page size is one of the things that settlements cannot see
  have paged : Course refuses (x.paged pageSize positive) ss (y.paged pageSize positive) := by
    have same : y.paged pageSize positive =
        y.guised { x.guise with pageSize, pageSize_pos := positive } := by
      rw [← course.guise_eq sound]
      rfl
    rw [same]
    exact course.guised sound { x.guise with pageSize, pageSize_pos := positive }
  have sound : (x.paged pageSize positive).Sound := ⟨sound.store, sound.ledger⟩
  constructor
  · have asked : mostOf (x.paged pageSize positive).config .null = .ok none :=
      congrArg Except.ok unbounded
    have batch : ss.map (·.market) =
        batchOf ((x.paged pageSize positive).pendingMarkets after) none := taken
    have idle : (x.paged pageSize positive).inFlight = [] := idle
    have done := paged.distribute sound batch (by simp [idle])
    simp only [batchOf, Nat.lt_irrefl, if_false] at done
    exact (distributeOf_eq _ after asked).trans done
  · intro sizes some enough
    rw [← taken, List.length_map] at enough
    obtain ⟨legs, done, swept, adds⟩ := paged.sweep sound idle taken some enough
    exact ⟨legs, done, swept, adds.paidMarkets, adds.payouts, adds.dust, adds.failures⟩

theorem sweep_chunks_shared :
    ∃ (report : Report) (y : Exchange Unit), report.paidMarkets = [⟨1, 3⟩] ∧
      distributeOf (.refusing slighting) none .null (shared.paged 256 (by decide)) =
        (.ok report, y.paged 256 (by decide)) ∧
      ∃ legs, sweep (.refusing slighting) (chunks [⟨1, by decide⟩, ⟨1, by decide⟩]) none
          (shared.paged 1 (by decide)) = (.ok legs, y.paged 1 (by decide)) ∧ Swept legs ∧
        legs.flatMap (·.report.paidMarkets) = [⟨1, 3⟩] := by
  obtain ⟨report, y, same⟩ := sweep_chunks slighting sound_shared rfl rfl none
  obtain ⟨whole, -⟩ := same 256 (by decide)
  obtain ⟨-, cut⟩ := same 1 (by decide)
  have usual : shared.paged 256 (by decide) = shared := paged_self shared
  have ran := run_shared
  rw [← usual, whole] at ran
  obtain ⟨paid, -⟩ := Prod.mk.inj (Option.some.inj ran)
  obtain ⟨legs, done, swept, adds⟩ :=
    cut [⟨1, by decide⟩, ⟨1, by decide⟩] (by decide) (by decide +kernel)
  exact ⟨report, y, paid, whole, legs, done, swept, adds.paidMarkets.trans paid⟩

end Exchange

end LiquidityPools
