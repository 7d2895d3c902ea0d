import LiquidityPools.Proofs.Commit

/-!
What a step reports. A block is a step that shows where it emits events, where it catches faults and
where it opens units; what it does besides is quiet. Its trace lists the events that it appends to
open units, and for each of them how the units around it ended. The exchange delivers just those
events whose units all ended well, in the order of the trace: it publishes them if no unit is open
around the block, and hands them to the unit around it otherwise.
-/

namespace LiquidityPools.Exchange

variable {ρ α β γ : Type}

def Quiet (step : Action (Exchange ρ) α) : Prop :=
  ∀ x, (step x).2.log = x.log ∧ (step x).2.openUnits = x.openUnits

theorem quiet_of_same {step : Action (Exchange ρ) α} (same : ∀ x, (step x).2 = x) : Quiet step :=
  fun x => by rw [same x]; exact ⟨rfl, rfl⟩

theorem quiet_lift (outcome : Except Fault α) : Quiet (liftM outcome : Action (Exchange ρ) α) :=
  quiet_of_same fun _ => rfl

theorem quiet_read (f : Exchange ρ → α) : Quiet (Action.read f) := quiet_of_same fun _ => rfl

theorem Quiet.bind {first : Action (Exchange ρ) α} {next : α → Action (Exchange ρ) β}
    (silent : Quiet first) (onward : ∀ a, Quiet (next a)) : Quiet (first >>= next) := by
  intro x
  obtain ⟨log, openUnits⟩ := silent x
  rw [Action.bind_apply]
  cases ran : first x with
  | mk outcome y =>
    rw [ran] at log openUnits
    cases outcome with
    | error fault => exact ⟨log, openUnits⟩
    | ok a =>
      obtain ⟨log', openUnits'⟩ := onward a y
      exact ⟨log'.trans log, openUnits'.trans openUnits⟩

/-- An event that was appended, and for every unit around it, the innermost first, whether that unit
ended well. -/
structure Told where
  event : Event
  fates : List Bool
  deriving DecidableEq

namespace Told

def within (fate : Bool) (t : Told) : Told := { t with fates := t.fates ++ [fate] }

/-- The events of a trace that no failed unit took back. -/
def kept (trace : List Told) : List Event :=
  (trace.filter fun t => t.fates.all id).map event

theorem kept_append (first second : List Told) :
    kept (first ++ second) = kept first ++ kept second := by
  rw [kept, List.filter_append, List.map_append]
  rfl

theorem kept_within_ok (trace : List Told) : kept (trace.map (within true)) = kept trace := by
  simp [kept, within, List.filter_map, Function.comp_def]

theorem kept_within_error (trace : List Told) : kept (trace.map (within false)) = [] := by
  simp [kept, within, List.filter_map, Function.comp_def]

end Told

/-- A finite tree of steps and units. The constructor for a unit also answers with the events that
the unit collected. -/
inductive Block (ρ : Type) : Type → Type 1 where
  | quiet {α : Type} (step : Action (Exchange ρ) α) (silent : Quiet step) : Block ρ α
  | emit (event : Event) : Block ρ Unit
  | bind {α β : Type} (first : Block ρ α) (next : α → Block ρ β) : Block ρ β
  | attempt {α : Type} (body : Block ρ α) : Block ρ (Except Fault α)
  | unit {α : Type} (body : Block ρ α) : Block ρ (α × List Event)

namespace Block

def run {α : Type} : Block ρ α → Action (Exchange ρ) α
  | .quiet step _ => step
  | .emit event => Exchange.emit event
  | .bind first next => first.run >>= fun a => (next a).run
  | .attempt body => Action.attempt body.run
  | .unit body => collect body.run

theorem run_bind (first : Block ρ α) (next : α → Block ρ β) :
    (bind first next).run = first.run >>= fun a => (next a).run :=
  rfl

theorem run_attempt (body : Block ρ α) : (attempt body).run = Action.attempt body.run := rfl

theorem run_unit (body : Block ρ α) : (unit body).run = collect body.run := rfl

def trace {α : Type} : Block ρ α → Exchange ρ → List Told
  | .quiet _ _, _ => []
  | .emit event, x => if x.openUnits = [] then [] else [⟨event, []⟩]
  | .bind first next, x =>
    match first.run x with
    | (.ok a, y) => first.trace x ++ (next a).trace y
    | (.error _, _) => first.trace x
  | .attempt body, x => body.trace x
  | .unit body, x => (body.trace x.opened).map (Told.within (body.run x.opened).1.isOk)

theorem trace_bind (first : Block ρ α) (next : α → Block ρ β) (x : Exchange ρ) :
    (bind first next).trace x =
      match first.run x with
      | (.ok a, y) => first.trace x ++ (next a).trace y
      | (.error _, _) => first.trace x := by
  rw [trace]

theorem trace_unit (body : Block ρ α) (x : Exchange ρ) :
    (unit body).trace x = (body.trace x.opened).map (Told.within (body.run x.opened).1.isOk) :=
  rfl

def kept (b : Block ρ α) (x : Exchange ρ) : List Event := Told.kept (b.trace x)

theorem kept_bind_ok {first : Block ρ α} {x y : Exchange ρ} {a : α}
    (done : first.run x = (.ok a, y))
    (next : α → Block ρ β) : (bind first next).kept x = first.kept x ++ (next a).kept y := by
  rw [kept, trace_bind, done]
  exact Told.kept_append ..

theorem kept_bind_error {first : Block ρ α} {x y : Exchange ρ} {fault : Fault}
    (failed : first.run x = (.error fault, y)) (next : α → Block ρ β) :
    (bind first next).kept x = first.kept x := by
  rw [kept, trace_bind, failed]
  rfl

theorem kept_unit_ok {body : Block ρ α} {x : Exchange ρ} {a : α}
    (done : (body.run x.opened).1 = .ok a) : (unit body).kept x = body.kept x.opened := by
  rw [kept, trace_unit, done]
  exact Told.kept_within_ok _

theorem kept_unit_error {body : Block ρ α} {x : Exchange ρ}
    (failed : (body.run x.opened).1.isOk = false) : (unit body).kept x = [] := by
  rw [kept, trace_unit, failed]
  exact Told.kept_within_error _

end Block

theorem Delivers.emit (event : Event) (x : Exchange ρ) :
    x.Delivers ((Block.emit event).kept x) (Exchange.emit event x).2 := by
  cases units : x.openUnits with
  | nil =>
    have silent : (Block.emit event).kept x = [] := congrArg Told.kept (if_pos units)
    have same : (Exchange.emit event x).2 = x := by simp [Exchange.emit, units]
    rw [silent, same]
    exact .of_same rfl rfl
  | cons innermost outer =>
    have told : (Block.emit event).kept x = [event] :=
      congrArg Told.kept (if_neg (by simp [units]))
    rw [told]
    constructor <;> simp [Exchange.emit, deliver, units]

section Units

variable {x w : Exchange ρ} {events : List Event}

/-- Log and open units are no business of the members that a unit rolls back. -/
theorem quiet_rollbackAll (x : Exchange ρ) : Quiet (Atomic.rollbackAll x.enter.1.reverse) :=
  Quiet.bind (fun _ => ⟨rfl, rfl⟩) fun _ => Quiet.bind (fun _ => ⟨rfl, rfl⟩) fun _ _ => ⟨rfl, rfl⟩

theorem quiet_atomic_leave (x : Exchange ρ) (outcome : Except Fault α) :
    Quiet (Atomic.leave (Store.depthOf storePlace) x.enter.1 outcome) := by
  intro w
  cases outcome with
  | ok a =>
    simp only [Atomic.leave]
    split <;> exact ⟨rfl, rfl⟩
  | error fault =>
    have silent := quiet_rollbackAll x w
    simp only [Atomic.leave]
    split <;> simp_all [Lens.modify, Store.depthOf, storePlace]

theorem atomic_leave_error (x w : Exchange ρ) (fault : Fault) :
    ∃ other v, Atomic.leave (Store.depthOf storePlace) x.enter.1 (.error fault : Except Fault α) w =
      (.error other, v) := by
  simp only [Atomic.leave]
  split <;> exact ⟨_, _, rfl⟩

variable (log : w.log = x.log) (units : w.openUnits = events :: x.openUnits)

include log units

theorem leave_ok_delivers (a : α) :
    ∃ y, leave x.enter.1 (.ok a) w = (.ok (a, events), y) ∧ x.Delivers events y := by
  obtain ⟨v, left⟩ : ∃ v,
      Atomic.leave (Store.depthOf storePlace) x.enter.1 (.ok a) w = (.ok a, v) := ⟨_, rfl⟩
  obtain ⟨log', units'⟩ := quiet_atomic_leave x (.ok a) w
  rw [left] at log' units'
  have collected : v.openUnits = events :: x.openUnits := units'.trans units
  have closed : x.Delivers [] { v with openUnits := x.openUnits } := .of_same (log'.trans log) rfl
  refine ⟨deliver events { v with openUnits := x.openUnits }, ?_, closed.trans ⟨rfl, rfl⟩⟩
  simp only [leave, left, collected, List.headD_cons, List.tail_cons]

theorem leave_error_delivers (fault : Fault) :
    ∃ other y, leave x.enter.1 (.error fault : Except Fault α) w = (.error other, y) ∧
      x.Delivers [] y := by
  obtain ⟨other, v, left⟩ := atomic_leave_error (α := α) x w fault
  obtain ⟨log', units'⟩ := quiet_atomic_leave x (.error fault : Except Fault α) w
  rw [left] at log' units'
  refine ⟨other, { v with openUnits := v.openUnits.tail }, by simp only [leave, left],
    .of_same (log'.trans log) ?_⟩
  show v.openUnits.tail = x.openUnits
  rw [units', units, List.tail_cons]

omit log units in
theorem collect_delivers {body : Action (Exchange ρ) α}
    (inner : x.opened.Delivers events (body x.opened).2) :
    (∃ fault y, (body x.opened).1.isOk = false ∧ collect body x = (.error fault, y) ∧
        x.Delivers [] y) ∨
      ∃ a y, (body x.opened).1 = .ok a ∧ collect body x = (.ok (a, events), y) ∧
        x.Delivers events y := by
  have log : (body x.opened).2.log = x.log := inner.log
  have units : (body x.opened).2.openUnits = events :: x.openUnits := inner.openUnits
  rw [collect_eq]
  cases (body x.opened).1 with
  | error fault =>
    obtain ⟨other, y, left, delivers⟩ := leave_error_delivers log units fault
    exact .inl ⟨other, y, rfl, left, delivers⟩
  | ok a =>
    obtain ⟨y, left, delivers⟩ := leave_ok_delivers log units a
    exact .inr ⟨a, y, rfl, left, delivers⟩

end Units

namespace Block

theorem delivers (b : Block ρ α) (x : Exchange ρ) : x.Delivers (b.kept x) (b.run x).2 := by
  induction b generalizing x with
  | quiet step silent => exact .of_same (silent x).1 (silent x).2
  | emit event => exact .emit event x
  | bind first next ih ih' =>
    have earlier := ih x
    cases ran : first.run x with
    | mk outcome y =>
      rw [ran] at earlier
      cases outcome with
      | error fault =>
        rw [kept_bind_error ran, run_bind, Action.bind_error ran]
        exact earlier
      | ok a =>
        rw [kept_bind_ok ran, run_bind, Action.bind_ok ran]
        exact earlier.trans (ih' a y)
  | attempt body ih => exact ih x
  | unit body ih =>
    rw [run_unit]
    obtain ⟨fault, y, failed, left, delivers⟩ | ⟨a, y, done, left, delivers⟩ :=
      collect_delivers (ih x.opened)
    · rw [kept_unit_error failed, left]
      exact delivers
    · rw [kept_unit_ok done, left]
      exact delivers

/-- A failing block takes back all that it has appended. -/
def Retracts (b : Block ρ α) : Prop := ∀ x, (b.run x).1.isOk = false → b.kept x = []

theorem retracts_unit (body : Block ρ α) : (unit body).Retracts := by
  intro x failed
  rw [run_unit] at failed
  obtain ⟨fault, y, inner, -⟩ | ⟨a, y, -, left, -⟩ := collect_delivers (body.delivers x.opened)
  · exact kept_unit_error inner
  · rw [left] at failed
    cases failed

theorem retracts_quiet (step : Action (Exchange ρ) α) (silent : Quiet step) :
    (quiet step silent).Retracts :=
  fun _ _ => rfl

theorem Retracts.after {step : Action (Exchange ρ) α} (silent : Quiet step) {next : α → Block ρ β}
    (onward : ∀ a, (next a).Retracts) : (bind (quiet step silent) next).Retracts := by
  intro x failed
  cases ran : step x with
  | mk outcome y =>
    have ran : (quiet step silent).run x = (outcome, y) := ran
    cases outcome with
    | error fault => rw [kept_bind_error ran]; rfl
    | ok a =>
      rw [run_bind, Action.bind_ok ran] at failed
      rw [kept_bind_ok ran, onward a y failed]
      rfl

theorem Retracts.before {b : Block ρ α} (retracts : b.Retracts)
    {next : Except Fault α → Action (Exchange ρ) β} (silent : ∀ outcome, Quiet (next outcome))
    (ends : ∀ a x, (next (.ok a) x).1.isOk) :
    (bind (attempt b) fun outcome => quiet (next outcome) (silent outcome)).Retracts := by
  intro x failed
  cases ran : b.run x with
  | mk outcome y =>
    have caught : (attempt b).run x = (.ok outcome, y) := by rw [run_attempt, Action.attempt, ran]
    have kept : (attempt b).kept x = [] := by
      refine retracts x ?_
      rw [run_bind, Action.bind_ok caught] at failed
      cases outcome with
      | error fault => rw [ran]; rfl
      | ok a => cases (ends a y).symm.trans failed
    rw [kept_bind_ok caught, kept]
    rfl

theorem Retracts.map {b : Block ρ α} (retracts : b.Retracts) (f : α → β)
    (silent : ∀ a, Quiet (pure (f a) : Action (Exchange ρ) β)) :
    (bind b fun a => quiet (pure (f a)) (silent a)).Retracts := by
  intro x failed
  cases ran : b.run x with
  | mk outcome y =>
    cases outcome with
    | error fault =>
      rw [kept_bind_error ran]
      exact retracts x (by rw [ran]; rfl)
    | ok a =>
      rw [run_bind, Action.bind_ok ran] at failed
      cases failed

end Block

/-- A block that does what a step does. -/
structure Narration (m : Action (Exchange ρ) α) where
  block : Block ρ α
  run_block : block.run = m

namespace Narration

variable {m m' : Action (Exchange ρ) α} {f : α → Action (Exchange ρ) β}

def quiet (silent : Quiet m) : Narration m := ⟨.quiet m silent, rfl⟩

def emit (event : Event) : Narration (Exchange.emit event : Action (Exchange ρ) Unit) :=
  ⟨.emit event, rfl⟩

def bind (first : Narration m) (next : ∀ a, Narration (f a)) : Narration (m >>= f) where
  block := .bind first.block fun a => (next a).block
  run_block := by
    rw [Block.run_bind, first.run_block]
    exact congrArg (m >>= ·) (funext fun a => (next a).run_block)

def attempt (body : Narration m) : Narration (Action.attempt m) where
  block := .attempt body.block
  run_block := by rw [Block.run_attempt, body.run_block]

def collect (body : Narration m) : Narration (Exchange.collect m) where
  block := .unit body.block
  run_block := by rw [Block.run_unit, body.run_block]

def either {c : Prop} [Decidable c] (yes : Narration m) (no : Narration m') :
    Narration (if c then m else m') where
  block := if c then yes.block else no.block
  run_block := by
    split
    · exact yes.run_block
    · exact no.run_block

def pure (a : α) : Narration (Pure.pure a : Action (Exchange ρ) α) := quiet fun _ => ⟨rfl, rfl⟩

def fail (fault : Fault) : Narration (Action.fail fault : Action (Exchange ρ) α) :=
  quiet fun _ => ⟨rfl, rfl⟩

def read (g : Exchange ρ → α) : Narration (Action.read g) := quiet (quiet_read g)

def lift (outcome : Except Fault α) : Narration (liftM outcome : Action (Exchange ρ) α) :=
  quiet (quiet_lift outcome)

def map (g : α → β) (body : Narration m) : Narration (g <$> m) := body.bind fun a => .pure (g a)

def unit (body : Narration m) : Narration (Exchange.unit m) := body.collect.map Prod.fst

end Narration

structure WholeNarration (m : Action (Exchange ρ) α) extends Narration m where
  retracts : block.Retracts

namespace WholeNarration

variable {m m' : Action (Exchange ρ) α} {f : α → Action (Exchange ρ) β}

def collect (body : Narration m) : WholeNarration (Exchange.collect m) :=
  ⟨.collect body, Block.retracts_unit _⟩

def map (g : α → β) (body : WholeNarration m) : WholeNarration (g <$> m) :=
  ⟨.map g body.toNarration, body.retracts.map g _⟩

def unit (body : Narration m) : WholeNarration (Exchange.unit m) := map Prod.fst (collect body)

def fail (fault : Fault) : WholeNarration (Action.fail fault : Action (Exchange ρ) α) :=
  ⟨.fail fault, Block.retracts_quiet _ _⟩

def after (silent : Quiet m) (next : ∀ a, WholeNarration (f a)) : WholeNarration (m >>= f) :=
  ⟨.bind (.quiet silent) fun a => (next a).toNarration, .after silent fun a => (next a).retracts⟩

def either {c : Prop} [Decidable c] (yes : WholeNarration m) (no : WholeNarration m') :
    WholeNarration (if c then m else m') where
  toNarration := .either yes.toNarration no.toNarration
  retracts := by
    show (if c then yes.block else no.block).Retracts
    split
    · exact yes.retracts
    · exact no.retracts

end WholeNarration

end LiquidityPools.Exchange
