import LiquidityPools.Store.Script
import LiquidityPools.Proofs.Nesting

/-!
What participants see of a nest of blocks that all take in the same of them. Every call that reaches
a participant is written down, with the mark that it gave or was given and the store as it was then.
The calls of a run are those that the shape of the nest and the outcomes of its blocks ask for: on
entry checkpoints in order, on a failure rollbacks to the marks of this entry in reverse order,
commits at the end of a block that stands in no other and ends well, and nothing else. Which blocks
stand in another one is read off the nest here, while the run only has the number of open units to
tell by.
-/

namespace LiquidityPools

/-- A call to the participant at this place of the list. -/
structure Call where
  party : Nat
  request : Store.Script.Request
  /-- The mark that was given, or that was handed over. -/
  mark : Nat
  store : Store
  deriving DecidableEq

structure Watched (ρ : Type) where
  rest : ρ
  calls : List Call := []

/-- A participant at its place of the list, with the mark that it gave. -/
structure Seat (ρ : Type) where
  party : Nat
  member : Member (World ρ)
  mark : Nat

section Watching

variable {ρ : Type}

namespace World

def seen : Lens (World (Watched ρ)) (World ρ) where
  get w := ⟨w.store, w.rest.rest⟩
  set w v := ⟨v.store, { w.rest with rest := v.rest }⟩

def note (call : Call) (w : World (Watched ρ)) : World (Watched ρ) :=
  { w with rest := { w.rest with calls := w.rest.calls ++ [call] } }

def Quiet {α : Type} (m : Action (World (Watched ρ)) α) : Prop :=
  ∀ w, (m w).2.rest.calls = w.rest.calls ∧ (m w).2.store.depth = w.store.depth

end World

def Member.watched (party : Nat) (m : Member (World ρ)) : Member (World (Watched ρ)) where
  checkpoint w :=
    let (mark, v) := m.checkpoint (World.seen.get w)
    (mark, (World.seen.set w v).note ⟨party, .checkpoint, mark, w.store⟩)
  rollback mark w :=
    let (outcome, v) := m.rollback mark (World.seen.get w)
    (outcome, (World.seen.set w v).note ⟨party, .rollback, mark, w.store⟩)
  commit mark w := (World.seen.modify (m.commit mark) w).note ⟨party, .commit, mark, w.store⟩

/-- A participant that never fails, and that leaves as many units open as it finds. -/
structure Member.Orderly (m : Member (World ρ)) : Prop where
  calm : ∀ mark w, (m.rollback mark w).1 = .ok ()
  checkpoint : ∀ w, (m.checkpoint w).2.store.depth = w.store.depth
  rollback : ∀ mark w, (m.rollback mark w).2.store.depth = w.store.depth
  commit : ∀ mark w, (m.commit mark w).store.depth = w.store.depth

def watchedFrom : (party : Nat) → List (Member (World ρ)) → List (Member (World (Watched ρ)))
  | _, [] => []
  | party, m :: rest => m.watched party :: watchedFrom (party + 1) rest

/-- The marks that the participants give if they are asked one after the other. -/
def seatsFrom : (party : Nat) → List (Member (World ρ)) → World ρ → List (Seat ρ)
  | _, [], _ => []
  | party, m :: rest, w =>
    ⟨party, m, (m.checkpoint w).1⟩ :: seatsFrom (party + 1) rest (m.checkpoint w).2

namespace Seat

def watched (seat : Seat ρ) : Member (World (Watched ρ)) × Nat :=
  (seat.member.watched seat.party, seat.mark)

def asked (w : World ρ) (seat : Seat ρ) : World ρ := (seat.member.checkpoint w).2

def rolledBack (w : World ρ) (seat : Seat ρ) : World ρ := (seat.member.rollback seat.mark w).2

def committed (w : World ρ) (seat : Seat ρ) : World ρ := seat.member.commit seat.mark w

def calls (request : Store.Script.Request) (act : World ρ → Seat ρ → World ρ) :
    List (Seat ρ) → World ρ → List Call
  | [], _ => []
  | seat :: rest, w =>
    ⟨seat.party, request, seat.mark, w.store⟩ :: calls request act rest (act w seat)

end Seat

variable {parties : List (Member (World ρ))} {seats : List (Seat ρ)}

theorem member_of_mem_seatsFrom {party : Nat} {w : World ρ} {seat : Seat ρ}
    (member : seat ∈ seatsFrom party parties w) : seat.member ∈ parties := by
  induction parties generalizing party w with
  | nil => exact nomatch member
  | cons m rest ih =>
    rcases List.mem_cons.1 member with rfl | member
    · exact List.mem_cons_self
    · exact List.mem_cons_of_mem _ (ih member)

theorem mark_watchedFrom (orderly : ∀ m ∈ parties, m.Orderly) (party : Nat)
    (w : World (Watched ρ)) :
    let seats := seatsFrom party parties (World.seen.get w)
    (Atomic.mark (watchedFrom party parties) w).1 = seats.map Seat.watched ∧
      (Atomic.mark (watchedFrom party parties) w).2.store.depth = w.store.depth ∧
      (Atomic.mark (watchedFrom party parties) w).2.rest.calls =
        w.rest.calls ++ Seat.calls .checkpoint Seat.asked seats (World.seen.get w) := by
  induction parties generalizing party w with
  | nil => exact ⟨rfl, rfl, (List.append_nil _).symm⟩
  | cons m rest ih =>
    obtain ⟨first, others⟩ := List.forall_mem_cons.1 orderly
    obtain ⟨marks, depth, calls⟩ := ih others (party + 1) ((m.watched party).checkpoint w).2
    refine ⟨congrArg (_ :: ·) marks, depth.trans (first.checkpoint (World.seen.get w)),
      calls.trans ?_⟩
    rw [seatsFrom, Seat.calls, List.append_cons]
    rfl

theorem rollbackAll_watched (orderly : ∀ seat ∈ seats, seat.member.Orderly)
    (w : World (Watched ρ)) :
    ∃ v, Atomic.rollbackAll (seats.map Seat.watched) w = (.ok (), v) ∧
      v.store = (seats.foldl Seat.rolledBack (World.seen.get w)).store ∧
        v.store.depth = w.store.depth ∧
      v.rest.calls = w.rest.calls ++ Seat.calls .rollback Seat.rolledBack seats
        (World.seen.get w) := by
  induction seats generalizing w with
  | nil => exact ⟨w, rfl, rfl, rfl, (List.append_nil _).symm⟩
  | cons seat rest ih =>
    obtain ⟨first, others⟩ := List.forall_mem_cons.1 orderly
    have called : seat.watched.1.rollback seat.watched.2 w =
        (.ok (), (seat.watched.1.rollback seat.watched.2 w).2) := Prod.ext (first.calm _ _) rfl
    obtain ⟨v, rolled, store, depth, calls⟩ :=
      ih others (seat.watched.1.rollback seat.watched.2 w).2
    refine ⟨v, (Action.bind_ok called _).trans rolled, store,
      depth.trans (first.rollback seat.mark (World.seen.get w)), calls.trans ?_⟩
    rw [Seat.calls, List.append_cons]
    rfl

theorem commitAll_watched (orderly : ∀ seat ∈ seats, seat.member.Orderly) (w : World (Watched ρ)) :
    (Atomic.commitAll (seats.map Seat.watched) w).store.depth = w.store.depth ∧
      (Atomic.commitAll (seats.map Seat.watched) w).rest.calls =
        w.rest.calls ++ Seat.calls .commit Seat.committed seats (World.seen.get w) := by
  induction seats generalizing w with
  | nil => exact ⟨rfl, (List.append_nil _).symm⟩
  | cons seat rest ih =>
    obtain ⟨first, others⟩ := List.forall_mem_cons.1 orderly
    obtain ⟨depth, calls⟩ := ih others (seat.watched.1.commit seat.watched.2 w)
    refine ⟨depth.trans (first.commit seat.mark (World.seen.get w)), calls.trans ?_⟩
    rw [Seat.calls, List.append_cons]
    rfl

end Watching

namespace Nesting

variable {ρ : Type} (parties : List (Member (World ρ)))

def runWatched {α : Type} (n : Nesting (Watched ρ) Unit α) : Action (World (Watched ρ)) α :=
  n.run fun _ => watchedFrom 0 parties

/-- The calls that a block owes its participants once its body has ended. -/
def owed (outermost : Bool) (mark : Nat) (seats : List (Seat ρ)) (left : World ρ) {β : Type} :
    Except Fault β → List Call
  | .error _ => Seat.calls .rollback Seat.rolledBack seats.reverse left
  | .ok _ =>
    if outermost then
      Seat.calls .commit Seat.committed seats { left with store := left.store.commit mark }
    else []

/-- The calls that a nest stands for, if it stands in no block or in one. -/
def protocol (outermost : Bool) {α : Type} :
    Nesting (Watched ρ) Unit α → World (Watched ρ) → List Call
  | .give _, _ => []
  | .fail _, _ => []
  | .step m next, w => (next (m w).1).protocol outermost (m w).2
  | .block _ body next, w =>
    let seats := seatsFrom 0 parties (World.seen.get w)
    let within := w.entered (watchedFrom 0 parties)
    let left := body.runWatched parties within
    let after := World.atomic (watchedFrom 0 parties) (body.runWatched parties) w
    Seat.calls .checkpoint Seat.asked seats (World.seen.get w) ++ body.protocol false within ++
      owed outermost w.store.checkpoint seats (World.seen.get left.2) left.1 ++
      (next after.1).protocol outermost after.2

end Nesting

namespace World

variable {ρ α : Type} {parties : List (Member (World ρ))} {body : Action (World (Watched ρ)) α}
  (orderly : ∀ m ∈ parties, m.Orderly) (w : World (Watched ρ)) {left : World (Watched ρ)}

include orderly

theorem entered_watched :
    (w.entered (watchedFrom 0 parties)).store.depth = w.store.depth + 1 ∧
      (w.entered (watchedFrom 0 parties)).rest.calls =
        w.rest.calls ++
          Seat.calls .checkpoint Seat.asked (seatsFrom 0 parties (seen.get w)) (seen.get w) := by
  obtain ⟨-, depth, calls⟩ := mark_watchedFrom orderly 0 w
  exact ⟨congrArg (· + 1) depth, calls⟩

theorem atomic_ok_watched {a : α} (ran : body (w.entered (watchedFrom 0 parties)) = (.ok a, left))
    (depth : left.store.depth = w.store.depth + 1) :
    ∃ v, atomic (watchedFrom 0 parties) body w = (.ok a, v) ∧ v.store.depth = w.store.depth ∧
      v.rest.calls = left.rest.calls ++ Nesting.owed (w.store.depth = 0) w.store.checkpoint
        (seatsFrom 0 parties (seen.get w)) (seen.get left) (.ok a) := by
  have seated : ∀ seat ∈ seatsFrom 0 parties (seen.get w), seat.member.Orderly :=
    fun _ member => orderly _ (member_of_mem_seatsFrom member)
  rw [atomic_apply, ran, (mark_watchedFrom orderly 0 w).1, leave_ok]
  generalize seatsFrom 0 parties (seen.get w) = seats at seated ⊢
  by_cases outermost : w.store.depth = 0
  · have one : left.store.depth = 1 := by rw [depth, outermost]
    obtain ⟨closed, calls⟩ :=
      commitAll_watched seated { left with store := left.store.commit w.store.checkpoint }
    simp only [if_pos one, Nesting.owed, outermost, decide_true, if_true]
    refine ⟨_, rfl, ?_, calls⟩
    show _ - 1 = 0
    rw [closed]
    exact congrArg (· - 1) one
  · have more : left.store.depth ≠ 1 := by omega
    simp only [if_neg more, Nesting.owed, outermost, decide_false, Bool.false_eq_true, if_false]
    exact ⟨_, rfl, Nat.sub_eq_of_eq_add depth, (List.append_nil _).symm⟩

theorem atomic_error_watched {fault : Fault}
    (ran : body (w.entered (watchedFrom 0 parties)) = (.error fault, left))
    (depth : left.store.depth = w.store.depth + 1) :
    let seats := (seatsFrom 0 parties (seen.get w)).reverse
    ∃ v, atomic (watchedFrom 0 parties) body w = (.error fault, v) ∧
      v.store =
        { (seats.foldl Seat.rolledBack (seen.get left)).store.rollback w.store.checkpoint with
        depth := w.store.depth } ∧
      v.rest.calls = left.rest.calls ++ Seat.calls .rollback Seat.rolledBack seats
        (seen.get left) := by
  intro seats
  obtain ⟨v, rolled, store, kept, calls⟩ := rollbackAll_watched
    (fun seat member => orderly _ (member_of_mem_seatsFrom (List.mem_reverse.1 member))) left
  rw [atomic_apply, ran, (mark_watchedFrom orderly 0 w).1, leave_error, ← List.map_reverse, rolled]
  refine ⟨_, rfl, ?_, calls⟩
  have before : v.store.depth - 1 = w.store.depth := Nat.sub_eq_of_eq_add (kept.trans depth)
  rw [show (seats.foldl Seat.rolledBack (seen.get left)).store = v.store from store.symm]
  simp only [withDepth, before]

theorem atomic_watched {outcome : Except Fault α}
    (ran : body (w.entered (watchedFrom 0 parties)) = (outcome, left))
    (depth : left.store.depth = w.store.depth + 1) :
    ∃ v, atomic (watchedFrom 0 parties) body w = (outcome, v) ∧ v.store.depth = w.store.depth ∧
      v.rest.calls = left.rest.calls ++ Nesting.owed (w.store.depth = 0) w.store.checkpoint
        (seatsFrom 0 parties (seen.get w)) (seen.get left) outcome := by
  cases outcome with
  | ok a => exact atomic_ok_watched orderly w ran depth
  | error fault =>
    obtain ⟨v, done, store, calls⟩ := atomic_error_watched orderly w ran depth
    exact ⟨v, done, by rw [store], calls⟩

end World

namespace Nesting

variable {ρ α : Type} {parties : List (Member (World ρ))}

theorem calls_run (orderly : ∀ m ∈ parties, m.Orderly) (n : Nesting (Watched ρ) Unit α)
    (steps : n.Steps World.Quiet) (w : World (Watched ρ)) :
    (n.runWatched parties w).2.rest.calls =
      w.rest.calls ++ n.protocol parties (w.store.depth = 0) w ∧
      (n.runWatched parties w).2.store.depth = w.store.depth := by
  induction n generalizing w with
  | give a => exact ⟨(List.append_nil _).symm, rfl⟩
  | fail fault => exact ⟨(List.append_nil _).symm, rfl⟩
  | step m next ih =>
    obtain ⟨quiet, others⟩ := steps
    obtain ⟨calls, depth⟩ := ih (m w).1 (others _) (m w).2
    rw [(quiet w).1, (quiet w).2] at calls
    exact ⟨calls, depth.trans (quiet w).2⟩
  | block names body next ihBody ih =>
    -- the body finds at least one unit open, which makes every block in it an inner one
    obtain ⟨opened, entry⟩ := World.entered_watched orderly w
    obtain ⟨calls, depth⟩ := ihBody steps.1 (w.entered (watchedFrom 0 parties))
    rw [opened, entry, decide_eq_false (Nat.succ_ne_zero _)] at calls
    rw [opened] at depth
    cases ran : body.runWatched parties (w.entered (watchedFrom 0 parties)) with
    | mk outcome left =>
      rw [ran] at calls depth
      obtain ⟨v, done, closed, ending⟩ := World.atomic_watched orderly w ran depth
      obtain ⟨later, back⟩ := ih outcome (steps.2 outcome) v
      have through : (block names body next).runWatched parties w =
          (next outcome).runWatched parties v := by
        show run _ _ w = _
        rw [run_block]
        exact congrArg (fun left => (next left.1).runWatched parties left.2) done
      rw [through]
      refine ⟨?_, back.trans closed⟩
      rw [later, ending, closed, calls, protocol]
      simp only [ran, done, List.append_assoc]

/-- In a nest in which every block takes in the same participants, and whose steps call none of
them, each participant is asked for a mark on every entry, in order. A block that fails rolls all of
them back to the marks of this entry, the last one first, and the store only after them. One that
ends well says nothing within another block, and else commits them all, in order and to the same
marks. There are no other calls, and as many units are open as before. -/
theorem calls_bracketed (orderly : ∀ m ∈ parties, m.Orderly) (n : Nesting (Watched ρ) Unit α)
    (steps : n.Steps World.Quiet) (w : World (Watched ρ)) :
    (n.runWatched parties w).2.rest.calls =
      w.rest.calls ++ n.protocol parties (w.store.depth = 0) w ∧
      (n.runWatched parties w).2.store.depth = w.store.depth ∧
      ∀ fault left, n.runWatched parties (w.entered (watchedFrom 0 parties)) =
        (.error fault, left) →
        ∃ v, World.atomic (watchedFrom 0 parties) (n.runWatched parties) w = (.error fault, v) ∧
          v.store = { ((seatsFrom 0 parties (World.seen.get w)).reverse.foldl Seat.rolledBack
              (World.seen.get left)).store.rollback w.store.checkpoint with
            depth := w.store.depth } := by
  obtain ⟨calls, depth⟩ := calls_run orderly n steps w
  refine ⟨calls, depth, fun fault left ran => ?_⟩
  have within := (calls_run orderly n steps (w.entered (watchedFrom 0 parties))).2
  rw [ran, (World.entered_watched orderly w).1] at within
  obtain ⟨v, done, store, -⟩ := World.atomic_error_watched orderly w ran within
  exact ⟨v, done, store⟩

section Example

open World (teller)

def recording (provider : Account) : Action (World (Watched Nat)) Unit :=
  World.storePlace.zoom (Action.modify (Store.putPosition ⟨0, 1⟩ provider ⟨1, 1⟩))

def severalBlocks : Nesting (Watched Nat) Unit Unit :=
  .block (β := Unit) ()
    (.step (recording "alice") fun _ =>
      .block (β := Unit) () (.step (recording "bob") fun _ => .fail .journalEmpty) fun _ =>
        .block () (.step (recording "carol") fun _ => .give ()) fun _ => .give ())
    fun _ => .block () (.fail .journalEmpty) .handOn

theorem severalBlocks_bracketed :
    (∀ m ∈ [teller, teller], m.Orderly) ∧ severalBlocks.Steps World.Quiet ∧
      (severalBlocks.runWatched [teller, teller] { rest := { rest := 5 } }).2.rest.calls =
        [] ++ severalBlocks.protocol [teller, teller] true { rest := { rest := 5 } } ∧
      (severalBlocks.protocol [teller, teller] true { rest := { rest := 5 } }).map
          (fun call =>
            (call.party, call.request, call.mark, call.store.positionsOf ⟨0, 1⟩ |>.map Prod.fst)) =
        [(0, .checkpoint, 5, []), (1, .checkpoint, 6, []),
          (0, .checkpoint, 7, ["alice"]), (1, .checkpoint, 8, ["alice"]),
          (1, .rollback, 8, ["alice", "bob"]), (0, .rollback, 7, ["alice", "bob"]),
          (0, .checkpoint, 9, ["alice"]), (1, .checkpoint, 10, ["alice"]),
          (0, .commit, 5, ["alice", "carol"]), (1, .commit, 6, ["alice", "carol"]),
          (0, .checkpoint, 11, ["alice", "carol"]), (1, .checkpoint, 12, ["alice", "carol"]),
          (1, .rollback, 12, ["alice", "carol"]), (0, .rollback, 11, ["alice", "carol"])] := by
  have orderly : ∀ m ∈ [teller, teller], m.Orderly := by
    have one : teller.Orderly := ⟨fun _ _ => rfl, fun _ => rfl, fun _ _ => rfl, fun _ _ => rfl⟩
    simp [one]
  have steps : severalBlocks.Steps World.Quiet := by
    have quiet (provider : Account) : World.Quiet (recording provider) := fun _ => ⟨rfl, rfl⟩
    simp [severalBlocks, Steps, quiet, steps_handOn]
  exact ⟨orderly, steps, (calls_bracketed orderly severalBlocks steps _).1, by decide +kernel⟩

end Example

end Nesting

end LiquidityPools
