import LiquidityPools.Proofs.Ending

/-!
Nests of atomic blocks around a store. What is done next may depend on how every step and every
block before it ended, and a failure that nothing goes on from ends the block around it. Each block
names, by a label, the participants that it takes in beside the store. A step may be anything: what
is asked of the steps of a nest is said of it as a whole.
-/

namespace LiquidityPools

structure World (ρ : Type) where
  store : Store := {}
  rest : ρ

namespace World

variable {ρ α : Type}

def storePlace : Lens (World ρ) Store := ⟨store, fun w s => { w with store := s }⟩

def atomic (others : List (Member (World ρ))) (body : Action (World ρ) α) : Action (World ρ) α :=
  Store.atomic storePlace others body

def withDepth (w : World ρ) (depth : Nat) : World ρ := { w with store := { w.store with depth } }

def entered (others : List (Member (World ρ))) (w : World ρ) : World ρ :=
  let v := (Atomic.mark others w).2
  v.withDepth (v.store.depth + 1)

/-- A participant that gives marks of its own counting, and has nothing to undo. -/
def teller : Member (World Nat) where
  checkpoint w := (w.rest, { w with rest := w.rest + 1 })
  rollback _ := pure ()
  commit _ w := w

end World

inductive Nesting (ρ κ : Type) : Type → Type 1 where
  | give {α : Type} (a : α) : Nesting ρ κ α
  | fail {α : Type} (fault : Fault) : Nesting ρ κ α
  | step {α β : Type} (m : Action (World ρ) β) (next : Except Fault β → Nesting ρ κ α) :
      Nesting ρ κ α
  | block {α β : Type} (names : κ) (body : Nesting ρ κ β) (next : Except Fault β → Nesting ρ κ α) :
    Nesting ρ κ α

namespace Nesting

variable {ρ κ α : Type}

def handOn : Except Fault α → Nesting ρ κ α
  | .ok a => .give a
  | .error fault => .fail fault

def run (members : κ → List (Member (World ρ))) {α : Type} : Nesting ρ κ α → Action (World ρ) α
  | .give a => pure a
  | .fail fault => Action.fail fault
  | .step m next => do (next (← Action.attempt m)).run members
  | .block names body next => do
    (next (← Action.attempt (World.atomic (members names) (body.run members)))).run members

theorem run_step {β : Type} (members : κ → List (Member (World ρ))) (m : Action (World ρ) β)
    (next : Except Fault β → Nesting ρ κ α) (w : World ρ) :
    (step m next).run members w = (next (m w).1).run members (m w).2 := rfl

theorem run_block {β : Type} (members : κ → List (Member (World ρ))) (names : κ)
    (body : Nesting ρ κ β) (next : Except Fault β → Nesting ρ κ α) (w : World ρ) :
    (block names body next).run members w =
      let left := World.atomic (members names) (body.run members) w
      (next left.1).run members left.2 := rfl

def Steps (P : {β : Type} → Action (World ρ) β → Prop) {α : Type} : Nesting ρ κ α → Prop
  | .give _ => True
  | .fail _ => True
  | .step m next => P m ∧ ∀ outcome, (next outcome).Steps P
  | .block _ body next => body.Steps P ∧ ∀ outcome, (next outcome).Steps P

theorem steps_handOn {P : {β : Type} → Action (World ρ) β → Prop} (outcome : Except Fault α) :
    (handOn outcome : Nesting ρ κ α).Steps P := by
  cases outcome <;> trivial

end Nesting

namespace World

variable {ρ α : Type} {others : List (Member (World ρ))}

theorem atomic_apply (others : List (Member (World ρ))) (body : Action (World ρ) α) (w : World ρ) :
    atomic others body w =
      Atomic.leave (Store.depthOf storePlace)
        ((Store.member storePlace, w.store.checkpoint) :: (Atomic.mark others w).1)
        (body (w.entered others)).1 (body (w.entered others)).2 := rfl

theorem lawful_storePlace : (storePlace : Lens (World ρ) Store).Lawful :=
  ⟨fun _ _ => rfl, fun _ _ _ => rfl⟩

variable (marks : Atomic.Marks (World ρ)) (n : Nat) (w : World ρ)

theorem leave_ok (a : α) :
    Atomic.leave (Store.depthOf storePlace) ((Store.member storePlace, n) :: marks) (.ok a) w =
      let v := if w.store.depth = 1
        then Atomic.commitAll marks { w with store := w.store.commit n } else w
      (.ok a, v.withDepth (v.store.depth - 1)) :=
  Store.leave_ok storePlace marks n w a

theorem leave_error (fault : Fault) :
    Atomic.leave (Store.depthOf storePlace) ((Store.member storePlace, n) :: marks)
        (.error fault : Except Fault α) w =
      match Atomic.rollbackAll marks.reverse w with
      | (.ok (), v) =>
        (.error fault,
          ({ v with store := v.store.rollback n } : World ρ).withDepth (v.store.depth - 1))
      | (.error other, v) => (.error other, v.withDepth (v.store.depth - 1)) := by
  rw [Store.leave_error marks n w lawful_storePlace]
  rcases Atomic.rollbackAll marks.reverse w with ⟨_ | _, v⟩ <;> rfl

end World

end LiquidityPools
