import LiquidityPools.Proofs.Unit

/-!
What a step commits, wherever it is run. A step is orderly if it keeps the exchange sound, leaves
the open units as they are but for the events it hands over, and journals its writes exactly if a
unit is open around it. Units are orderly, and so are sequences of orderly steps; inside a unit an
orderly step is journaled. A step is whole if its failure leaves nothing behind.
-/

namespace LiquidityPools.Exchange

variable {ρ α β : Type}

section Deliver

variable {x y z : Exchange ρ} {first second : List Event}

theorem log_deliver (x : Exchange ρ) (events : List Event) :
    (x.deliver events).log = if x.openUnits = [] then x.log ++ events else x.log := by
  unfold deliver
  cases x.openUnits <;> rfl

theorem openUnits_deliver (x : Exchange ρ) (events : List Event) :
    (x.deliver events).openUnits = x.openUnits.modifyHead (· ++ events) := by
  unfold deliver
  cases x.openUnits <;> simp

/-- From `x` to `y`, these events were delivered, and nothing else was published or collected. -/
structure Delivers (x : Exchange ρ) (events : List Event) (y : Exchange ρ) : Prop where
  log : y.log = (x.deliver events).log
  openUnits : y.openUnits = (x.deliver events).openUnits

namespace Delivers

theorem of_same (log : y.log = x.log) (openUnits : y.openUnits = x.openUnits) :
    x.Delivers [] y where
  log := by rw [log_deliver, List.append_nil, ite_self, log]
  openUnits := by
    rw [openUnits_deliver, openUnits]
    cases x.openUnits <;> simp

theorem trans (earlier : x.Delivers first y) (later : y.Delivers second z) :
    x.Delivers (first ++ second) z where
  log := by
    have units : y.openUnits = [] ↔ x.openUnits = [] := by
      rw [earlier.openUnits, openUnits_deliver]
      cases x.openUnits <;> simp
    rw [later.log, log_deliver, log_deliver, earlier.log, log_deliver]
    by_cases none : x.openUnits = []
    · rw [if_pos (units.2 none), if_pos none, if_pos none, List.append_assoc]
    · rw [if_neg (mt units.1 none), if_neg none, if_neg none]
  openUnits := by
    rw [later.openUnits, openUnits_deliver, openUnits_deliver, earlier.openUnits, openUnits_deliver]
    cases x.openUnits <;> simp

end Delivers

end Deliver

/-- `y` comes from `x` by committed writes and by events delivered to where they belong. -/
structure Follows (x : Exchange ρ) (events : List Event) (y : Exchange ρ) : Prop where
  config : y.config = x.config
  inFlight : y.inFlight = x.inFlight
  log : y.log = (x.deliver events).log
  openUnits : y.openUnits = (x.deliver events).openUnits
  depth : y.store.depth = x.store.depth
  nested : 0 < x.store.depth → x.store.Above y.store ∧ x.ledger.Above y.ledger
  outermost : x.store.depth = 0 →
    y.store.journal = x.store.journal ∧ y.ledger.journal = x.ledger.journal
  sound : y.Sound

def Orderly (m : Action (Exchange ρ) α) : Prop :=
  ∀ x : Exchange ρ, x.Sound → ∃ events, x.Follows events (m x).2

/-- Failing, the step changes nothing but the carrier's own state. -/
def Whole (m : Action (Exchange ρ) α) : Prop :=
  ∀ x : Exchange ρ, x.Sound → ∀ fault y, m x = (.error fault, y) → ∃ host, y = { x with host }

structure AllOrNothing (m : Action (Exchange ρ) α) : Prop where
  orderly : Orderly m
  whole : Whole m

namespace Follows

variable {x y z : Exchange ρ} {first second : List Event}

theorem refl (sound : x.Sound) : x.Follows [] x where
  config := rfl
  inFlight := rfl
  log := (Delivers.of_same rfl rfl).log
  openUnits := (Delivers.of_same rfl rfl).openUnits
  depth := rfl
  nested _ := ⟨.refl _, .refl _⟩
  outermost _ := ⟨rfl, rfl⟩
  sound

theorem delivers (follows : x.Follows first y) : x.Delivers first y :=
  ⟨follows.log, follows.openUnits⟩

theorem trans (earlier : x.Follows first y) (later : y.Follows second z) :
    x.Follows (first ++ second) z where
  config := later.config.trans earlier.config
  inFlight := later.inFlight.trans earlier.inFlight
  log := (earlier.delivers.trans later.delivers).log
  openUnits := (earlier.delivers.trans later.delivers).openUnits
  depth := later.depth.trans earlier.depth
  nested deep := by
    obtain ⟨store, ledger⟩ := earlier.nested deep
    obtain ⟨store', ledger'⟩ := later.nested (earlier.depth ▸ deep)
    exact ⟨store.trans store', ledger.trans ledger'⟩
  outermost top := by
    obtain ⟨store, ledger⟩ := earlier.outermost top
    obtain ⟨store', ledger'⟩ := later.outermost (earlier.depth.trans top)
    exact ⟨store'.trans store, ledger'.trans ledger⟩
  sound := later.sound

theorem withHost (follows : x.Follows first y) (host : ρ) : x.Follows first { y with host } :=
  ⟨follows.config, follows.inFlight, follows.log, follows.openUnits, follows.depth, follows.nested,
    follows.outermost, follows.sound.store, follows.sound.ledger⟩

theorem above (follows : x.Follows first y) (inside : x.Inside) : x.Above first y where
  store := (follows.nested inside.store).1
  ledger := (follows.nested inside.store).2
  config := follows.config
  log := by rw [follows.log, log_deliver, if_neg inside.openUnits]
  openUnits := by rw [follows.openUnits, openUnits_deliver]
  inFlight := follows.inFlight
  sound := follows.sound

theorem of_opened (above : x.opened.Above first y) : x.Follows first (x.closed y first) := by
  have store : x.store.Above { y.store with depth := x.store.depth } :=
    above.store.withDepth x.store.depth
  have config : y.config = x.config := above.config
  have inFlight : y.inFlight = x.inFlight := above.inFlight
  have log : y.log = x.log := above.log
  have coherent : ∀ journal depth, ({ y.store with journal, depth } : Store).Coherent := fun _ _ =>
    above.sound.store.congr rfl rfl
  by_cases top : x.store.depth = 0
  · constructor <;> simp only [closed, if_pos top, deliver_eq, log_deliver, openUnits_deliver]
    · exact config
    · exact inFlight
    · rw [log]
    · intro deep
      omega
    · exact fun _ => ⟨rfl, trivial⟩
    · constructor <;> simp only [deliver_eq]
      · exact coherent _ _
      · exact above.sound.ledger
  · constructor <;> simp only [closed, if_neg top, deliver_eq, log_deliver, openUnits_deliver]
    · exact config
    · exact inFlight
    · rw [log]
    · exact fun _ => ⟨store, above.ledger⟩
    · exact fun zero => absurd zero top
    · constructor <;> simp only [deliver_eq]
      · exact coherent _ _
      · exact above.sound.ledger

end Follows

section Steps

variable {m : Action (Exchange ρ) α} {f : α → Action (Exchange ρ) β}

theorem orderly_of_same (same : ∀ x, (m x).2 = x) : Orderly m :=
  fun x sound => ⟨[], by rw [same]; exact .refl sound⟩

theorem orderly_pure (a : α) : Orderly (pure a : Action (Exchange ρ) α) :=
  orderly_of_same fun _ => rfl

theorem orderly_fail (fault : Fault) : Orderly (Action.fail fault : Action (Exchange ρ) α) :=
  orderly_of_same fun _ => rfl

theorem Orderly.bind (first : Orderly m) (next : ∀ a, Orderly (f a)) : Orderly (m >>= f) := by
  intro x sound
  obtain ⟨events, earlier⟩ := first x sound
  rw [Action.bind_apply]
  cases h : m x with
  | mk outcome y =>
    rw [h] at earlier
    cases outcome with
    | error fault => exact ⟨events, earlier⟩
    | ok a =>
      obtain ⟨more, later⟩ := next a y earlier.sound
      exact ⟨events ++ more, earlier.trans later⟩

theorem Orderly.map (orderly : Orderly m) (g : α → β) : Orderly (g <$> m) :=
  orderly.bind fun a => orderly_pure (g a)

theorem Orderly.attempt (orderly : Orderly m) : Orderly (Action.attempt m) := orderly

theorem Orderly.journaled (orderly : Orderly m) : Journaled m := fun x sound inside =>
  let ⟨events, follows⟩ := orderly x sound
  ⟨events, follows.above inside⟩

theorem allOrNothing_fail (fault : Fault) :
    AllOrNothing (Action.fail fault : Action (Exchange ρ) α) where
  orderly := orderly_fail fault
  whole := by
    intro x _ _ y failed
    cases failed
    exact ⟨x.host, rfl⟩

theorem AllOrNothing.after (same : ∀ x, (m x).2 = x) (next : ∀ a, AllOrNothing (f a)) :
    AllOrNothing (m >>= f) where
  orderly := (orderly_of_same same).bind fun a => (next a).orderly
  whole := by
    intro x sound fault y failed
    have same := same x
    rw [Action.bind_apply] at failed
    cases h : m x with
    | mk outcome z =>
      rw [h] at failed same
      cases same
      cases outcome with
      | error cause => cases failed; exact ⟨_, rfl⟩
      | ok a => exact (next a).whole _ sound fault y failed

theorem AllOrNothing.map (step : AllOrNothing m) (g : α → β) : AllOrNothing (g <$> m) where
  orderly := step.orderly.map g
  whole := by
    intro x sound fault y failed
    have failed : (m >>= fun a => pure (g a)) x = (.error fault, y) := failed
    rw [Action.bind_apply] at failed
    cases h : m x with
    | mk outcome z =>
      rw [h] at failed
      cases outcome with
      | error cause => cases failed; exact step.whole x sound fault y h
      | ok a => cases failed

theorem allOrNothing_collect (journaled : Journaled m) : AllOrNothing (collect m) where
  orderly := by
    intro x sound
    obtain ⟨events, above, ⟨fault, -, failed⟩ | ⟨a, -, done⟩⟩ := journaled.collect sound
    · exact ⟨[], by rw [failed]; exact (Follows.refl sound).withHost _⟩
    · exact ⟨events, by rw [done]; exact .of_opened above⟩
  whole := by
    intro x sound fault y failed
    obtain ⟨events, -, ⟨cause, -, restored⟩ | ⟨a, -, done⟩⟩ := journaled.collect sound
    · rw [restored] at failed
      cases failed
      exact ⟨_, rfl⟩
    · rw [done] at failed
      cases failed

theorem allOrNothing_unit (journaled : Journaled m) : AllOrNothing (unit m) :=
  (allOrNothing_collect journaled).map Prod.fst

end Steps

end LiquidityPools.Exchange
