import Mathlib.Logic.Function.Basic
import LiquidityPools.Proofs.Nesting

/-!
Nests of blocks over a store and many journals, in which each block names the ones that it takes in.
The journals that the outermost block names share its fate: if it fails they are back where they
were when it was entered, and if it ends well they are committed and keep no entry of it, whichever
blocks within it named them too. This is so for what goes through the journals, and it does not
reach further: a journal that only blocks within the outermost one name is left with what they
wrote.
-/

namespace LiquidityPools

/-- A journal that is kept in a state `τ`. Rolling back to the mark of a state changes nothing
there, and it can be done in steps; both rolling back and committing take the newest entries off. -/
structure Keeper (τ : Type) where
  {Entry : Type}
  /-- What would be undone, the newest first. -/
  journal : τ → List Entry
  rollback : Nat → Action τ Unit
  commit : Nat → τ → τ
  /-- What the journaled operations need to find, and leave behind. -/
  Sound : τ → Prop
  rollback_own : ∀ s, rollback (journal s).length s = (.ok (), s)
  rollback_rollback : ∀ {low high s t}, low ≤ high → high ≤ (journal t).length →
    rollback high t = (.ok (), s) → rollback low t = rollback low s
  journal_rollback : ∀ {mark s t}, rollback mark t = (.ok (), s) →
    journal s = (journal t).drop ((journal t).length - mark)
  journal_commit : ∀ mark s, journal (commit mark s) = (journal s).drop ((journal s).length - mark)
  commit_commit : ∀ mark s, commit mark (commit mark s) = commit mark s

namespace Keeper

variable {σ τ : Type} (k : Keeper τ)

def checkpoint (s : τ) : Nat := (k.journal s).length

def member (place : Lens σ τ) : Member σ where
  checkpoint s := (k.checkpoint (place.get s), s)
  rollback n := place.zoom (k.rollback n)
  commit n s := place.modify (k.commit n) s

structure Above (s t : τ) : Prop where
  le : k.checkpoint s ≤ k.checkpoint t
  rollback : k.rollback (k.checkpoint s) t = (.ok (), s)

variable {k} {s t u : τ}

theorem Above.refl (s : τ) : k.Above s s := ⟨Nat.le_refl _, k.rollback_own s⟩

theorem Above.trans (lower : k.Above s t) (upper : k.Above t u) : k.Above s u where
  le := Nat.le_trans lower.le upper.le
  rollback := (k.rollback_rollback lower.le upper.le upper.rollback).trans lower.rollback

theorem Above.journal_commit (above : k.Above s t) :
    k.journal (k.commit (k.checkpoint s) t) = k.journal s := by
  rw [k.journal_commit, k.journal_rollback above.rollback]

end Keeper

namespace Ledger

theorem rollback_rollback {l k : Ledger} {low high : Nat} (le : low ≤ high)
    (within : high ≤ k.journal.length)
    (done : k.rollback high = (.ok (), l)) : k.rollback low = l.rollback low := by
  have length : l.journal.length = high := by
    rw [journal_of_undo done, List.length_drop]
    omega
  have split : k.journal.length - low = (k.journal.length - high) + (high - low) := by omega
  rw [rollback, split, undo_add, rollback, length]
  exact Action.bind_ok done _

def keeper : Keeper Ledger where
  journal := journal
  rollback := rollback
  commit := commit
  Sound := Sound
  rollback_own l := (Above.refl l).rollback
  rollback_rollback := rollback_rollback
  journal_rollback done := journal_of_undo done
  journal_commit _ _ := rfl
  commit_commit mark l := by
    have none : (l.journal.drop (l.journal.length - mark)).length - mark = 0 := by
      rw [List.length_drop]
      omega
    simp only [commit, none, List.drop_zero]

end Ledger

variable {ι : Type} {τ : ι → Type} {α : Type}

namespace World

section Reaching

variable (k : ∀ i, Keeper (τ i))

structure Fine (w : World (∀ i, τ i)) : Prop where
  store : w.store.Coherent
  parties : ∀ i, (k i).Sound (w.rest i)

/-- What was done in between can be taken back, in the store and in every journal. -/
structure Reaches (w v : World (∀ i, τ i)) : Prop where
  store : w.store.Above v.store
  parties : ∀ i, (k i).Above (w.rest i) (v.rest i)
  fine : v.Fine k

/-- The step does nothing past the journals. -/
def Journaled (m : Action (World (∀ i, τ i)) α) : Prop :=
  ∀ w : World (∀ i, τ i), w.Fine k → w.Reaches k (m w).2

variable {k} {u v w : World (∀ i, τ i)}

theorem Fine.withDepth (fine : w.Fine k) (depth : Nat) : (w.withDepth depth).Fine k :=
  ⟨fine.store.congr rfl rfl, fine.parties⟩

namespace Reaches

theorem refl (fine : w.Fine k) : w.Reaches k w := ⟨.refl _, fun _ => .refl _, fine⟩

theorem trans (lower : u.Reaches k v) (upper : v.Reaches k w) : u.Reaches k w :=
  ⟨lower.store.trans upper.store, fun i => (lower.parties i).trans (upper.parties i), upper.fine⟩

theorem withDepth (reaches : v.Reaches k w) (depth : Nat) :
    (v.withDepth depth).Reaches k (w.withDepth depth) :=
  ⟨reaches.store.withDepth depth, reaches.parties, reaches.fine.withDepth depth⟩

end Reaches

end Reaching

variable [DecidableEq ι]

section Named

def place (i : ι) : Lens (World (∀ i, τ i)) (τ i) :=
  ⟨fun w => w.rest i, fun w t => { w with rest := Function.update w.rest i t }⟩

variable (k : ∀ i, Keeper (τ i))

def named (names : List ι) : List (Member (World (∀ i, τ i))) :=
  names.map fun i => (k i).member (place i)

def entry (w : World (∀ i, τ i)) (i : ι) : Member (World (∀ i, τ i)) × Nat :=
  ((k i).member (place i), (k i).checkpoint (w.rest i))

variable {k} {v w : World (∀ i, τ i)} {names : List ι}

theorem mark_named (names : List ι) (w : World (∀ i, τ i)) :
    Atomic.mark (named k names) w = (names.map (w.entry k), w) := by
  induction names with
  | nil => rfl
  | cons i rest ih =>
    show (let rest := Atomic.mark (named k rest) w; (w.entry k i :: rest.1, rest.2)) = _
    rw [ih]
    rfl

theorem entered_named (names : List ι) (w : World (∀ i, τ i)) :
    w.entered (named k names) = w.withDepth (w.store.depth + 1) := by
  rw [entered, mark_named]

theorem rollbackAll_named (above : ∀ i, (k i).Above (w.rest i) (v.rest i)) :
    Atomic.rollbackAll (names.map (w.entry k)) v =
      (.ok (), { v with rest := fun i => if i ∈ names then w.rest i else v.rest i }) := by
  induction names generalizing v with
  | nil => simp [Atomic.rollbackAll]
  | cons i rest ih =>
    have undone : (w.entry k i).1.rollback (w.entry k i).2 v =
        (.ok (), { v with rest := Function.update v.rest i (w.rest i) }) := by
      have rolled := (above i).rollback
      simp only [entry, Keeper.member, Lens.zoom, place, rolled]
    have still : ∀ j, (k j).Above (w.rest j) (Function.update v.rest i (w.rest i) j) :=
      (Function.forall_update_iff v.rest fun j => (k j).Above (w.rest j)).2
        ⟨.refl _, fun j _ => above j⟩
    rw [List.map_cons, Atomic.rollbackAll, Action.bind_ok undone, ih still]
    congr 2
    funext j
    by_cases same : j = i
    · subst same
      simp
    · simp [same]

theorem commitAll_named (names : List ι) (w v : World (∀ i, τ i)) :
    Atomic.commitAll (names.map (w.entry k)) v =
      { v with rest := fun i =>
          if i ∈ names then (k i).commit ((k i).checkpoint (w.rest i)) (v.rest i)
            else v.rest i } := by
  induction names generalizing v with
  | nil => simp [Atomic.commitAll]
  | cons i rest ih =>
    rw [List.map_cons, Atomic.commitAll, List.foldl_cons]
    refine (ih _).trans ?_
    congr 1
    funext j
    by_cases same : j = i
    · subst same
      simp [entry, Keeper.member, Lens.modify, place, (k j).commit_commit]
    · simp [entry, Keeper.member, Lens.modify, place, same]

end Named

namespace Reaches

variable {k : ∀ i, Keeper (τ i)} {w left : World (∀ i, τ i)} {body : Action (World (∀ i, τ i)) α}
  (reaches : (w.withDepth (w.store.depth + 1)).Reaches k left) (names : List ι)

include reaches

theorem atomic_error {fault : Fault}
    (ran : body (w.withDepth (w.store.depth + 1)) = (.error fault, left)) :
    World.atomic (named k names) body w =
      (.error fault,
        { store := w.store, rest := fun i => if i ∈ names then w.rest i else left.rest i }) := by
  have undone : Atomic.rollbackAll (names.reverse.map (w.entry k)) left = _ :=
    rollbackAll_named reaches.parties
  rw [List.map_reverse] at undone
  rw [atomic_apply, entered_named, ran, mark_named]
  refine (Store.leave_error_restores storePlace reaches.store lawful_storePlace fault undone
    rfl).trans ?_
  simp only [List.mem_reverse]
  rfl

theorem atomic_ok_within {a : α} (within : w.store.depth ≠ 0)
    (ran : body (w.withDepth (w.store.depth + 1)) = (.ok a, left)) :
    World.atomic (named k names) body w = (.ok a, left.withDepth w.store.depth) := by
  rw [atomic_apply, entered_named, ran, mark_named]
  exact Store.leave_ok_within storePlace _ reaches.store within a

theorem atomic_ok_outermost {a : α} (outermost : w.store.depth = 0)
    (ran : body (w.withDepth (w.store.depth + 1)) = (.ok a, left)) :
    World.atomic (named k names) body w =
      (.ok a, { store := { left.store with journal := w.store.journal, depth := 0 }
                rest := fun i => if i ∈ names
                  then (k i).commit ((k i).checkpoint (w.rest i)) (left.rest i)
                  else left.rest i }) := by
  rw [atomic_apply, entered_named, ran, mark_named]
  exact Store.leave_ok_outermost storePlace reaches.store outermost a
    (commitAll_named names w _) rfl

theorem closed (fine : w.Fine k) (within : w.store.depth ≠ 0)
    (ran : (body (w.withDepth (w.store.depth + 1))).2 = left) :
    w.Reaches k (World.atomic (named k names) body w).2 := by
  cases outcome : (body (w.withDepth (w.store.depth + 1))).1 with
  | ok a =>
    rw [reaches.atomic_ok_within names within (Prod.ext outcome ran)]
    exact reaches.withDepth w.store.depth
  | error fault =>
    rw [reaches.atomic_error names (Prod.ext outcome ran)]
    -- what is named is back at the entry, and the rest is as the body left it
    refine ⟨.refl _, fun i => ?_, fine.store, fun i => ?_⟩
    · dsimp only
      split
      · exact .refl _
      · exact reaches.parties i
    · dsimp only
      split
      · exact fine.parties i
      · exact reaches.fine.parties i

end Reaches

section Steps

variable {k : ∀ i, Keeper (τ i)}

theorem journaled_change (i : ι) {f : τ i → Except Fault (τ i)}
    (keeps : ∀ s t, (k i).Sound s → f s = .ok t → (k i).Above s t ∧ (k i).Sound t) :
    Journaled k ((place i).change f) := by
  intro w fine
  unfold Lens.change
  cases done : f ((place i).get w) with
  | error fault => exact .refl fine
  | ok t =>
    obtain ⟨above, sound⟩ := keeps (w.rest i) t (fine.parties i) done
    exact ⟨.refl _,
      (Function.forall_update_iff w.rest fun j => (k j).Above (w.rest j)).2
        ⟨above, fun _ _ => .refl _⟩,
      fine.store,
      (Function.forall_update_iff w.rest fun j => (k j).Sound).2 ⟨sound, fun j _ => fine.parties j⟩⟩

omit [DecidableEq ι] in
theorem journaled_putPosition (market : Market) (provider : Account) (position : Position) :
    Journaled k (storePlace.zoom (Action.modify (Store.putPosition market provider position))) :=
  fun _ fine => ⟨.putPosition fine.store market provider position, fun _ => .refl _,
    fine.store.putPosition position, fine.parties⟩

end Steps

end World

section Nests

variable [DecidableEq ι] {k : ∀ i, Keeper (τ i)}

theorem Nesting.reaches (n : Nesting (∀ i, τ i) (List ι) α) (steps : n.Steps (World.Journaled k))
    {w : World (∀ i, τ i)} (fine : w.Fine k) (within : w.store.depth ≠ 0) :
    w.Reaches k (n.run (World.named k) w).2 := by
  induction n generalizing w with
  | give a => exact .refl fine
  | fail fault => exact .refl fine
  | step m next ih =>
    have first := steps.1 w fine
    exact first.trans (ih (m w).1 (steps.2 _) first.fine (by rwa [first.store.depth]))
  | block names body next ihBody ih =>
    have inner := ihBody steps.1 (fine.withDepth (w.store.depth + 1)) (Nat.succ_ne_zero _)
    have closed := inner.closed names fine within rfl
    rw [run_block]
    exact closed.trans (ih _ (steps.2 _) closed.fine (by rwa [closed.store.depth]))

/-- The store and the journals that the outermost block names share its fate, whichever blocks of
the nest within it name them: if it fails, wherever that was, they are as they were on entry, and if
it ends well they are committed and have no entry left but those from before. -/
theorem Nesting.outermost_decides (body : Nesting (∀ i, τ i) (List ι) α)
    (steps : body.Steps (World.Journaled k))
    (names : List ι) {w : World (∀ i, τ i)} (fine : w.Fine k) :
    let left := body.run (World.named k) (w.entered (World.named k names))
    let after := World.atomic (World.named k names) (body.run (World.named k)) w
    after.1 = left.1 ∧
      (∀ fault, left.1 = .error fault →
        after.2.store = w.store ∧ ∀ i ∈ names, after.2.rest i = w.rest i) ∧
      (∀ a, left.1 = .ok a → w.store.depth = 0 →
        after.2.store = { left.2.store with journal := w.store.journal, depth := 0 } ∧
          ∀ i ∈ names, after.2.rest i = (k i).commit ((k i).checkpoint (w.rest i)) (left.2.rest i) ∧
            (k i).journal (after.2.rest i) = (k i).journal (w.rest i)) := by
  intro left after
  have reaches := body.reaches steps (fine.withDepth (w.store.depth + 1)) (Nat.succ_ne_zero _)
  cases ran : body.run (World.named k) (w.withDepth (w.store.depth + 1)) with
  | mk outcome v =>
    have ended : left = (outcome, v) := by rw [← ran, ← World.entered_named names w]
    rw [ran] at reaches
    rw [ended]
    cases outcome with
    | error fault =>
      have done : after = _ := reaches.atomic_error names ran
      rw [done]
      exact ⟨rfl, fun _ _ => ⟨rfl, fun i member => if_pos member⟩, nofun⟩
    | ok a =>
      by_cases outermost : w.store.depth = 0
      · have done : after = _ := reaches.atomic_ok_outermost names outermost ran
        rw [done]
        refine ⟨rfl, nofun, fun _ _ _ => ⟨rfl, fun i member => ?_⟩⟩
        dsimp only
        rw [if_pos member]
        exact ⟨rfl, (reaches.parties i).journal_commit⟩
      · have done : after = _ := reaches.atomic_ok_within names outermost ran
        rw [done]
        exact ⟨rfl, nofun, fun _ _ idle => (outermost idle).elim⟩

end Nests

namespace Nesting

section Example

open World

def books (_ : Bool) : Keeper Ledger := Ledger.keeper

def opening : World (Bool → Ledger) where
  rest _ := { balances := ({} : Balances).put "alice" 0 10 }

theorem fine_opening : opening.Fine books :=
  ⟨Store.coherent_empty, fun _ => (Balances.Sound.empty none).put "alice" 0 rfl⟩

def pay (book : Bool) (amount : Nat) : Action (World (Bool → Ledger)) Unit :=
  (place book).change (Ledger.move 0 "alice" "bob" amount)

theorem journaled_pay (book : Bool) (amount : Nat) : Journaled books (pay book amount) :=
  journaled_change (k := books) book fun _ _ sound done =>
    have ⟨sound, above, _⟩ := Ledger.move_effect sound done
    ⟨⟨above.le, above.rollback⟩, sound⟩

def record : Action (World (Bool → Ledger)) Unit :=
  storePlace.zoom (Action.modify (Store.putPosition ⟨0, 1⟩ "alice" ⟨1, 1⟩))

def payments (ending : Nesting (Bool → Ledger) (List Bool) Unit) :
    Nesting (Bool → Ledger) (List Bool) Unit :=
  .step record fun _ =>
    .block (β := Unit) [true, false]
      (.step (pay true 3) fun _ => .step (pay false 4) fun _ => .give ()) fun _ =>
      .block (β := Unit) [false]
        (.step (pay true 2) fun _ => .step (pay false 1) fun _ => .fail .journalEmpty)
        fun _ => ending

theorem run_payments (ending : Nesting (Bool → Ledger) (List Bool) Unit)
    (w : World (Bool → Ledger)) :
    ∃ v, (payments ending).run (named books) w = ending.run (named books) v := by
  rw [payments, run_step, run_block, run_block]
  exact ⟨_, rfl⟩

def together (names : List Bool) (ending : Nesting (Bool → Ledger) (List Bool) Unit) :
    Except Fault Unit × World (Bool → Ledger) :=
  atomic (named books names) ((payments ending).run (named books)) opening

theorem payments_decided :
    opening.Fine books ∧ (payments (.fail .journalEmpty)).Steps (Journaled books) ∧
      (payments (.give ())).Steps (Journaled books) ∧
      (together [true] (.fail .journalEmpty)).2.rest true = opening.rest true ∧
      (books true).journal ((together [true] (.give ())).2.rest true) =
        (books true).journal (opening.rest true) ∧
      ((together [true] (.give ())).2.rest true).balance 0 "alice" = 5 := by
  have steps {ending : Nesting (Bool → Ledger) (List Bool) Unit}
      (last : ending.Steps (Journaled books)) :
      (payments ending).Steps (Journaled books) := by
    simp [payments, Steps, journaled_pay, record, journaled_putPosition, last]
  have failing : (payments (.fail .journalEmpty)).Steps (Journaled books) := steps trivial
  have ending : (payments (.give ())).Steps (Journaled books) := steps trivial
  obtain ⟨-, fails, -⟩ := outermost_decides _ failing [true] fine_opening
  obtain ⟨-, -, ends⟩ := outermost_decides _ ending [true] fine_opening
  obtain ⟨failed, last⟩ := run_payments (.fail .journalEmpty) (opening.entered (named books [true]))
  obtain ⟨ended, done⟩ := run_payments (.give ()) (opening.entered (named books [true]))
  have restored := (fails .journalEmpty (by rw [last]; rfl)).2 true (by decide)
  have committed := (ends () (by rw [done]; rfl) rfl).2 true (by decide)
  refine ⟨fine_opening, failing, ending, ?_, ?_, by decide +kernel⟩
  · rw [together]
    exact restored
  · rw [together]
    exact committed.2

def minting : Nesting (Bool → Ledger) (List Bool) Unit :=
  .step (pay true 3) fun _ =>
    .block (β := Unit) [true] (.step ((place true).change (Ledger.mint 0 "bob" 5)) handOn) fun _ =>
      .fail .journalEmpty

/-- A ledger that only blocks within the outermost one name keeps what they paid if that fails, and
its entries if that ends well. And whatever names it, a ledger keeps what was minted. -/
theorem fates_apart :
    ((together [] (.fail .journalEmpty)).1.toOption = none ∧
        (together [] (.fail .journalEmpty)).2.store = opening.store ∧
        (together [] (.fail .journalEmpty)).2.rest true ≠ opening.rest true) ∧
      ((together [] (.give ())).1.toOption = some () ∧ (opening.rest true).journal = [] ∧
        (together [] (.give ())).2.store.journal = [] ∧
          ((together [] (.give ())).2.rest true).journal ≠ []) ∧
      (atomic (named books [true]) (minting.run (named books)) opening).1.toOption = none ∧
      (atomic (named books [true]) (minting.run (named books)) opening).2.rest true ≠
        opening.rest true ∧
      ((atomic (named books [true]) (minting.run (named books)) opening).2.rest true).balance 0
        "bob" = 5 := by
  decide +kernel

end Example

end Nesting

end LiquidityPools
