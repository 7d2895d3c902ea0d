import LiquidityPools.Fault

/-!
Steps on a state that may fail. A step that fails keeps what it did before: undoing it is the
business of an atomic unit, not of the failure.
-/

namespace LiquidityPools

def Action (σ α : Type) : Type := σ → Except Fault α × σ

namespace Action

variable {σ α β γ : Type}

protected def pure (a : α) : Action σ α := fun s => (.ok a, s)

protected def bind (m : Action σ α) (f : α → Action σ β) : Action σ β := fun s =>
  match m s with
  | (.ok a, s) => f a s
  | (.error fault, s) => (.error fault, s)

instance : Monad (Action σ) where
  pure := Action.pure
  bind := Action.bind

def fail (fault : Fault) : Action σ α := fun s => (.error fault, s)

def lift (outcome : Except Fault α) : Action σ α := fun s => (outcome, s)

instance : MonadLift (Except Fault) (Action σ) := ⟨lift⟩

def read (f : σ → α) : Action σ α := fun s => (.ok (f s), s)

def modify (f : σ → σ) : Action σ Unit := fun s => (.ok (), f s)

/-- Runs a step and hands over its outcome, a fault like an answer. -/
def attempt (m : Action σ α) : Action σ (Except Fault α) := fun s =>
  let (outcome, s) := m s
  (.ok outcome, s)

@[simp] theorem pure_apply (a : α) (s : σ) : (pure a : Action σ α) s = (.ok a, s) := rfl

theorem bind_apply (m : Action σ α) (f : α → Action σ β) (s : σ) :
    (m >>= f) s = match m s with
      | (.ok a, s) => f a s
      | (.error fault, s) => (.error fault, s) := rfl

@[simp] theorem fail_apply (fault : Fault) (s : σ) :
    (fail fault : Action σ α) s = (.error fault, s) :=
  rfl

@[simp] theorem lift_apply (outcome : Except Fault α) (s : σ) : lift outcome s = (outcome, s) := rfl

@[simp] theorem liftM_apply (outcome : Except Fault α) (s : σ) :
    (liftM outcome : Action σ α) s = (outcome, s) := rfl

@[simp] theorem read_apply (f : σ → α) (s : σ) : read f s = (.ok (f s), s) := rfl

@[simp] theorem modify_apply (f : σ → σ) (s : σ) : modify f s = (.ok (), f s) := rfl

theorem bind_ok {m : Action σ α} {s t : σ} {a : α} (h : m s = (.ok a, t)) (f : α → Action σ β) :
    (m >>= f) s = f a t := by
  rw [bind_apply, h]

theorem bind_error {m : Action σ α} {s t : σ} {fault : Fault} (h : m s = (.error fault, t))
    (f : α → Action σ β) : (m >>= f) s = (.error fault, t) := by
  rw [bind_apply, h]

theorem map_id (m : Action σ α) : id <$> m = m := by
  funext s
  show (match m s with
    | (.ok a, s) => (.ok a, s)
    | (.error fault, s) => (.error fault, s)) = m s
  split <;> simp_all

theorem bind_bind (m : Action σ α) (f : α → Action σ β) (g : β → Action σ γ) :
    m >>= f >>= g = m >>= fun a => f a >>= g := by
  funext s
  simp only [bind_apply]
  cases m s with
  | mk outcome t => cases outcome <;> rfl

instance : LawfulMonad (Action σ) :=
  LawfulMonad.mk' (Action σ) map_id (fun _ _ => rfl) bind_bind

end Action

structure Lens (σ τ : Type) where
  get : σ → τ
  set : σ → τ → σ

namespace Lens

variable {σ τ α : Type}

def whole : Lens σ σ := ⟨id, fun _ s => s⟩

def modify (l : Lens σ τ) (f : τ → τ) (s : σ) : σ := l.set s (f (l.get s))

def zoom (l : Lens σ τ) (m : Action τ α) : Action σ α := fun s =>
  let (outcome, t) := m (l.get s)
  (outcome, l.set s t)

def change (l : Lens σ τ) (f : τ → Except Fault τ) : Action σ Unit := fun s =>
  match f (l.get s) with
  | .ok t => (.ok (), l.set s t)
  | .error fault => (.error fault, s)

end Lens

end LiquidityPools
