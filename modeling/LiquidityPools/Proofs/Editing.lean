import LiquidityPools.Proofs.Store
import LiquidityPools.Proofs.Table

/-!
Stores under edit. Writes, rollbacks and commits may follow each other in any order, with any marks,
also such as no checkpoint gave. What every such history leaves behind is said once: the index
matches the positions, whatever the journal would undo is still there, and the entry of a first
write is the oldest of its key. So undoing never misses what it takes out.
-/

namespace LiquidityPools

def Undo.key : Undo → Market ⊕ Market × Account
  | .pool market _ => .inl market
  | .position market provider _ => .inr (market, provider)

def Undo.IsFirst : Undo → Prop
  | .pool _ before => before = none
  | .position _ _ before => before = none

namespace Store

variable {s t : Store}

section Invariant

def Holds (s : Store) : Market ⊕ Market × Account → Prop
  | .inl market => s.hasPool market = true
  | .inr (market, provider) => s.hasPosition market provider = true

/-- What the journal would undo is there, and a first write of a key is its oldest entry. -/
structure Undoable (s : Store) : Prop where
  held : ∀ u ∈ s.journal, s.Holds u.key
  first : s.journal.Pairwise fun newer older => newer.IsFirst → newer.key ≠ older.key

/-- What every history of raw operations leaves behind. -/
structure Sound (s : Store) : Prop where
  coherent : s.Coherent
  undoable : s.Undoable

theorem sound_empty : Sound {} where
  coherent := coherent_empty
  undoable := ⟨fun _ member => (nomatch member), .nil⟩

end Invariant

section Writes

variable {market : Market} {provider : Account}

theorem holds_writePool (k : Market ⊕ Market × Account) (pool : Pool) (before : Option Pool) :
    (s.writePool market pool before).Holds k ↔ k = .inl market ∨ s.Holds k := by
  cases k with
  | inl other =>
    simp only [Holds, hasPool, pool?_writePool, Sum.inl.injEq]
    split <;> simp_all
  | inr k => simp [Holds, hasPosition, position?, writePool]

theorem holds_putPosition (k : Market ⊕ Market × Account) (position : Position) :
    (s.putPosition market provider position).Holds k ↔ k = .inr (market, provider) ∨ s.Holds k := by
  cases k with
  | inl other => simp [Holds, hasPool, pool?, putPosition]
  | inr k =>
    simp only [Holds, hasPosition, position?_putPosition, Sum.inr.injEq]
    split <;> simp_all

theorem Undoable.push (undoable : s.Undoable) {u : Undo} (journal : t.journal = u :: s.journal)
    (holds : ∀ k, t.Holds k ↔ k = u.key ∨ s.Holds k) (fresh : u.IsFirst → ¬ s.Holds u.key) :
    t.Undoable where
  held v member := by
    rw [journal] at member
    rw [holds]
    rcases List.mem_cons.1 member with rfl | member
    · exact .inl rfl
    · exact .inr (undoable.held v member)
  first := by
    rw [journal]
    refine List.pairwise_cons.2 ⟨fun v member isFirst same => ?_, undoable.first⟩
    exact fresh isFirst (same ▸ undoable.held v member)

theorem Sound.writePool (sound : s.Sound) (pool : Pool) :
    (s.writePool market pool (s.pool? market)).Sound where
  coherent := sound.coherent.writePool pool _
  undoable := by
    refine sound.undoable.push (u := .pool market (s.pool? market)) rfl
      (fun k => holds_writePool k ..) ?_
    intro isFirst holds
    have absent : s.pool? market = none := isFirst
    simp [Holds, Undo.key, hasPool, absent] at holds

theorem Sound.putPosition (sound : s.Sound) (position : Position) :
    (s.putPosition market provider position).Sound where
  coherent := sound.coherent.putPosition position
  undoable := by
    refine sound.undoable.push (u := .position market provider (s.position? market provider)) rfl
      (fun k => holds_putPosition k ..) ?_
    intro isFirst holds
    have absent : s.position? market provider = none := isFirst
    simp [Holds, Undo.key, hasPosition, absent] at holds

end Writes

section Undone

variable {u : Undo} {older : List Undo} {market : Market} {provider : Account}

theorem holds_undo (held : s.Holds u.key) (k : Market ⊕ Market × Account) :
    (s.undo u).Holds k ↔ s.Holds k ∧ ¬ (u.IsFirst ∧ k = u.key) := by
  cases u with
  | pool market before =>
    cases k with
    | inr k => cases before <;> simp [Holds, Undo.key, hasPosition, position?, undo]
    | inl other =>
      cases before with
      | none =>
        simp only [Holds, hasPool, pool?, undo, Table.get?_erase, Undo.IsFirst, Undo.key,
          Sum.inl.injEq]
        split <;> simp_all
      | some before =>
        simp only [Holds, hasPool, pool?, undo, Table.get?_insert, Undo.IsFirst, Undo.key] at held ⊢
        split <;> simp_all
  | position market provider before =>
    cases k with
    | inl other => cases before <;> simp [Holds, Undo.key, hasPool, pool?, undo]
    | inr k =>
      cases before with
      | none =>
        simp only [Holds, hasPosition, position?, undo, Table.get?_erase, Undo.IsFirst, Undo.key,
          Sum.inr.injEq]
        split <;> simp_all
      | some before =>
        simp only [Holds, hasPosition, position?, undo, Table.get?_insert, Undo.IsFirst,
          Undo.key] at held ⊢
        split <;> simp_all

theorem providersOf_undo_first (s : Store) (market : Market) (provider : Account) (other : Market) :
    (s.undo (.position market provider none)).providersOf other =
      if other = market then (s.providersOf market).erase provider else s.providersOf other := by
  rw [providersOf]
  by_cases empty : ((s.providersOf market).erase provider).isEmpty = true
  · simp only [undo, empty, if_true, Table.get?_erase]
    split
    next => exact (List.isEmpty_iff.1 empty).symm
    next => rfl
  · simp only [undo, if_neg empty, Table.get?_insert]
    split <;> rfl

theorem Coherent.undo (coherent : s.Coherent) (held : s.Holds u.key) : (s.undo u).Coherent := by
  cases u with
  | pool market before => cases before <;> exact coherent.congr rfl rfl
  | position market provider before =>
    have holds := holds_undo held
    cases before with
    | some before =>
      refine ⟨fun other account => ?_, coherent.sorted, coherent.kept⟩
      have same := holds (.inr (other, account))
      simp only [Undo.IsFirst, reduceCtorEq, false_and, not_false_eq_true, and_true] at same
      exact (coherent.mem_iff other account).trans same.symm
    | none =>
      refine ⟨fun other account => ?_, fun other => ?_, fun other => ?_⟩
      · have left := holds (.inr (other, account))
        simp only [Holds, Undo.IsFirst, Undo.key, true_and, Sum.inr.injEq, Prod.mk.injEq] at left
        rw [left, providersOf_undo_first, ← coherent.mem_iff]
        split
        next same =>
          rw [(Table.nodup_of_sorted (coherent.sorted market)).mem_erase_iff, same]
          simp [and_comm]
        next apart => simp [apart]
      · rw [providersOf_undo_first]
        split
        next => exact (coherent.sorted market).sublist List.erase_sublist
        next => exact coherent.sorted other
      · by_cases empty : ((s.providersOf market).erase provider).isEmpty = true
        · simp only [Store.undo, empty, if_true, Table.get?_erase]
          split
          next => simp
          next => exact coherent.kept other
        · simp only [Store.undo, if_neg empty, Table.get?_insert]
          split
          next => simpa using empty
          next => exact coherent.kept other

theorem Sound.pop (sound : s.Sound) (journal : s.journal = u :: older) :
    ((s.undo u).withJournal older).Sound := by
  have held : s.Holds u.key := sound.undoable.held u (by simp [journal])
  have first := sound.undoable.first
  rw [journal] at first
  obtain ⟨newest, rest⟩ := List.pairwise_cons.1 first
  refine ⟨(sound.coherent.undo held).congr rfl rfl, fun v member => ?_, rest⟩
  have below : s.Holds v.key :=
    sound.undoable.held v (by rw [journal]; exact List.mem_cons_of_mem u member)
  exact (holds_undo held v.key).2 ⟨below, fun ⟨isFirst, same⟩ => newest v member isFirst same.symm⟩

theorem rollback_of_le {mark : Nat} (le : s.journal.length ≤ mark) : s.rollback mark = s := by
  rw [rollback_eq, Nat.sub_eq_zero_of_le le]
  rfl

theorem rollback_of_lt {mark : Nat} (journal : s.journal = u :: older)
    (lt : mark < older.length + 1) :
    s.rollback mark = ((s.undo u).withJournal older).rollback mark := by
  have one : s.journal.length - mark = (older.length - mark) + 1 := by
    rw [journal, List.length_cons]
    omega
  rw [rollback_eq, one, journal, List.take_succ_cons, List.drop_succ_cons, List.foldl_cons,
    rollback_eq]
  simp only [foldl_undo_withJournal]
  rfl

theorem Sound.rollback (sound : s.Sound) (mark : Nat) : (s.rollback mark).Sound := by
  induction journal : s.journal generalizing s with
  | nil =>
    rw [rollback_of_le (by simp [journal])]
    exact sound
  | cons u older ih =>
    by_cases lt : mark < older.length + 1
    · rw [rollback_of_lt journal lt]
      exact ih (sound.pop journal) rfl
    · rw [rollback_of_le (by rw [journal, List.length_cons]; omega)]
      exact sound

theorem Sound.commit (sound : s.Sound) (mark : Nat) : (s.commit mark).Sound where
  coherent := sound.coherent.congr rfl rfl
  undoable :=
    { held := fun u member => sound.undoable.held u (List.mem_of_mem_drop member)
      first := sound.undoable.first.sublist (List.drop_sublist _ _) }

end Undone

section Histories

/-- What edits make of an empty store. Writes of pools that are refused change nothing; units are
opened and closed around edits. -/
inductive Reached : Store → Prop
  | empty : Reached {}
  | insertPool {s t : Store} {market : Market} {pool : Pool} (reached : Reached s)
    (done : s.insertPool market pool = .ok t) : Reached t
  | putPool {s t : Store} {market : Market} {pool : Pool} (reached : Reached s)
    (done : s.putPool market pool = .ok t) : Reached t
  | putPosition {s : Store} (reached : Reached s) (market : Market) (provider : Account)
    (position : Position) : Reached (s.putPosition market provider position)
  | rollback {s : Store} (reached : Reached s) (mark : Int) : Reached (rollbackTo mark s).2
  | commit {s : Store} (reached : Reached s) (mark : Int) : Reached (s.commitTo mark)
  | units {s : Store} (reached : Reached s) (depth : Nat) : Reached { s with depth }

theorem Reached.newPool {s : Store} {market : Market} (reached : s.Reached)
    (fresh : s.pool? market = none) (pool : Pool) : (s.writePool market pool none).Reached :=
  reached.insertPool (by rw [Store.insertPool, fresh])

theorem Sound.withDepth (sound : s.Sound) (depth : Nat) : Sound { s with depth } where
  coherent := sound.coherent.congr rfl rfl
  undoable := ⟨sound.undoable.held, sound.undoable.first⟩

theorem Reached.sound (reached : s.Reached) : s.Sound := by
  induction reached with
  | empty => exact sound_empty
  | @insertPool s t market pool _ done ih =>
    unfold Store.insertPool at done
    split at done
    · cases done
    next absent =>
      cases done
      exact absent ▸ ih.writePool pool
  | @putPool s t market pool _ done ih =>
    unfold Store.putPool at done
    split at done
    next held =>
      cases done
      exact held ▸ ih.writePool pool
    · cases done
  | putPosition _ market provider position ih => exact ih.putPosition position
  | rollback _ mark ih =>
    have rolled := ih.rollback mark.toNat
    unfold rollbackTo
    rw [Action.bind_apply, Action.modify_apply]
    dsimp only
    split <;> exact rolled
  | commit _ mark ih => exact ih.commit _
  | units _ depth ih => exact ih.withDepth depth

theorem Reached.coherent (reached : s.Reached) : s.Coherent := reached.sound.coherent

end Histories

end Store

end LiquidityPools
