import LiquidityPools.Action

/-!
All-or-nothing units over several journals. On entry every member is asked for a mark. A unit that
fails is rolled back to these marks, the last member first; a unit that succeeds leaves its writes
to the unit around it, and only the outermost one commits. The nesting depth returns to what it was
on every way out. Should a member fail to roll back, its fault takes the place of the unit's, and
the members before it keep their writes.
-/

namespace LiquidityPools

/-- Something that keeps an undo journal inside a state `σ`. -/
structure Member (σ : Type) where
  checkpoint : σ → Nat × σ
  rollback : Nat → Action σ Unit
  commit : Nat → σ → σ

abbrev Depth (σ : Type) := Lens σ Nat

namespace Atomic

variable {σ α : Type}

/-- A member with the mark it gave when the unit was entered. -/
abbrev Marks (σ : Type) := List (Member σ × Nat)

def mark : List (Member σ) → σ → Marks σ × σ
  | [], s => ([], s)
  | m :: rest, s =>
    let (n, s) := m.checkpoint s
    let (marks, s) := mark rest s
    ((m, n) :: marks, s)

def rollbackAll : Marks σ → Action σ Unit
  | [] => pure ()
  | (m, n) :: rest => do
    m.rollback n
    rollbackAll rest

def commitAll (marks : Marks σ) (s : σ) : σ := marks.foldl (fun s (m, n) => m.commit n s) s

def enter (depth : Depth σ) (members : List (Member σ)) (s : σ) : Marks σ × σ :=
  let (marks, s) := mark members s
  (marks, depth.modify (· + 1) s)

def leave (depth : Depth σ) (marks : Marks σ) : Except Fault α → Action σ α
  | .ok a => fun s =>
    let s := if depth.get s = 1 then commitAll marks s else s
    (.ok a, depth.modify (· - 1) s)
  | .error fault => fun s =>
    match rollbackAll marks.reverse s with
    | (.ok (), s) => (.error fault, depth.modify (· - 1) s)
    | (.error other, s) => (.error other, depth.modify (· - 1) s)

def run (depth : Depth σ) (members : List (Member σ)) (body : Action σ α) : Action σ α := fun s =>
  let (marks, s) := enter depth members s
  let (outcome, s) := body s
  leave depth marks outcome s

end Atomic

end LiquidityPools
