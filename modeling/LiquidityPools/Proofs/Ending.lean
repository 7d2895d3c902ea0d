import LiquidityPools.Proofs.Ledger
import LiquidityPools.Proofs.Store

/-!
How atomic blocks end, wherever in a larger state the store stands. The store comes first among the
participants of a block, so it is rolled back last and committed first. A block that fails leaves it
as it was when the block was opened, if the other participants roll back; one that ends well leaves
it as its body did, and the outermost one without the journal of the block.
-/

namespace LiquidityPools

variable {σ τ α : Type}

structure Lens.Lawful (l : Lens σ τ) : Prop where
  get_set : ∀ s t, l.get (l.set s t) = t
  set_set : ∀ s t u, l.set (l.set s t) u = l.set s u

theorem Atomic.rollbackAll_append (first later : Marks σ) :
    rollbackAll (first ++ later) = rollbackAll first >>= fun _ => rollbackAll later := by
  induction first with
  | nil => rfl
  | cons m first ih =>
    rw [List.cons_append, rollbackAll, rollbackAll, ih, bind_assoc]

namespace Store

variable (place : Lens σ Store) (marks : Atomic.Marks σ) (mark : Nat) (s : σ)

theorem leave_ok (a : α) :
    Atomic.leave (depthOf place) ((member place, mark) :: marks) (.ok a) s =
      let t := if (place.get s).depth = 1
        then Atomic.commitAll marks (place.modify (commit mark) s) else s
      (.ok a, place.set t { place.get t with depth := (place.get t).depth - 1 }) := rfl

/-- A block that fails is rolled back, the store last; a participant whose rollback fails ends
that. -/
theorem leave_error {place : Lens σ Store} (lawful : place.Lawful) (fault : Fault) :
    Atomic.leave (depthOf place) ((member place, mark) :: marks) (.error fault : Except Fault α) s =
      match Atomic.rollbackAll marks.reverse s with
      | (.ok (), t) =>
        (.error fault,
          place.set t { (place.get t).rollback mark with depth := (place.get t).depth - 1 })
      | (.error other, t) =>
        (.error other, place.set t { place.get t with depth := (place.get t).depth - 1 }) := by
  have rolled : Atomic.rollbackAll (((member place, mark) :: marks).reverse) s =
      match Atomic.rollbackAll marks.reverse s with
      | (.ok (), t) => (.ok (), place.set t ((place.get t).rollback mark))
      | (.error other, t) => (.error other, t) := by
    rw [List.reverse_cons, Atomic.rollbackAll_append, Action.bind_apply]
    rcases Atomic.rollbackAll marks.reverse s with ⟨_ | _, t⟩ <;> rfl
  rw [Atomic.leave]
  simp only [rolled]
  rcases Atomic.rollbackAll marks.reverse s with ⟨_ | _, t⟩
  · rfl
  · simp only [Lens.modify, depthOf, lawful.get_set, lawful.set_set, depth_rollback]

variable {marks} {s t u : σ}
  (above : Above { place.get s with depth := (place.get s).depth + 1 } (place.get t))

include above

theorem leave_error_restores (lawful : place.Lawful) (fault : Fault)
    (rolled : Atomic.rollbackAll marks.reverse t = (.ok (), u)) (same : place.get u = place.get t) :
    Atomic.leave (depthOf place) ((member place, (place.get s).checkpoint) :: marks)
        (.error fault : Except Fault α) t = (.error fault, place.set u (place.get s)) := by
  have restored : (place.get t).rollback (place.get s).checkpoint =
      { place.get s with depth := (place.get s).depth + 1 } := above.rollback
  have depth : (place.get t).depth = (place.get s).depth + 1 := above.depth
  rw [leave_error _ _ _ lawful, rolled]
  simp only [same, restored, depth, Nat.add_sub_cancel]

theorem leave_ok_within (within : (place.get s).depth ≠ 0) (a : α) :
    Atomic.leave (depthOf place) ((member place, mark) :: marks) (.ok a) t =
      (.ok a, place.set t { place.get t with depth := (place.get s).depth }) := by
  have depth : (place.get t).depth = (place.get s).depth + 1 := above.depth
  have inner : (place.get t).depth ≠ 1 := by omega
  rw [leave_ok]
  simp only [if_neg inner]
  rw [depth, Nat.add_sub_cancel]

theorem leave_ok_outermost (outermost : (place.get s).depth = 0) (a : α)
    (committed : Atomic.commitAll marks
      (place.set t ((place.get t).withJournal (place.get s).journal)) = u)
    (same : place.get u = (place.get t).withJournal (place.get s).journal) :
    Atomic.leave (depthOf place) ((member place, (place.get s).checkpoint) :: marks) (.ok a) t =
      (.ok a, place.set u
        { place.get t with journal := (place.get s).journal, depth := 0 }) := by
  have depth : (place.get t).depth = 1 := above.depth.trans (congrArg (· + 1) outermost)
  have kept : (place.get t).commit (place.get s).checkpoint =
      (place.get t).withJournal (place.get s).journal := above.commit
  rw [leave_ok]
  simp only [if_pos depth, Lens.modify, kept, committed]
  simp only [same, withJournal, depth, Nat.sub_self]

end Store

namespace Ledger

variable (place : Lens σ Ledger) {s t : σ} (above : (place.get s).Above (place.get t))

include above

theorem rollbackAll_alone :
    Atomic.rollbackAll [(member place, (place.get s).checkpoint)].reverse t =
      (.ok (), place.set t (place.get s)) := by
  have undone : (place.get t).rollback (place.get s).checkpoint = (.ok (), place.get s) :=
    above.rollback
  simp only [List.reverse_cons, List.reverse_nil, List.nil_append, Atomic.rollbackAll, member,
    Lens.zoom, Action.bind_apply, undone, Action.pure_apply]

theorem commitAll_alone :
    Atomic.commitAll [(member place, (place.get s).checkpoint)] t =
      place.set t { place.get t with journal := (place.get s).journal } :=
  congrArg (place.set t) above.commit

end Ledger

end LiquidityPools
