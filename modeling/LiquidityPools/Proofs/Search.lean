import LiquidityPools.Proofs.Store
import LiquidityPools.Proofs.Table
import Mathlib.Data.List.TakeWhile

/-!
The index of providers by binary search. Each list of providers is kept in order by halving: a new
provider goes where the search ends, one that leaves is popped at the place where it should stand,
and a page starts behind its cursor. The search does not look whether the list is in order, nor
whether what stands at its end is what was looked for. On a list in order it ends right behind the
accounts that it passes, so all three operations do what their plain descriptions say.
-/

namespace LiquidityPools.Store

def search (right : Account → Bool) (l : List Account) (low high : Nat) : Nat :=
  if low < high then
    let middle := (low + high) / 2
    if l[middle]?.any right then search right l (middle + 1) high else search right l low middle
  else low
termination_by high - low

def placeOf (a : Account) (l : List Account) : Nat :=
  search (fun b => (compare b a).isLT) l 0 l.length

def placeAfter (a : Account) (l : List Account) : Nat :=
  search (fun b => (compare b a).isLE) l 0 l.length

theorem search_eq {right : Account → Bool} {front back : List Account} {low high : Nat}
    (passed : ∀ a ∈ front, right a = true) (stopped : ∀ a ∈ back, right a = false)
    (low_le : low ≤ front.length) (le_high : front.length ≤ high) :
    search right (front ++ back) low high = front.length := by
  fun_induction search right (front ++ back) low high with
  | case1 low high _ middle goes ih =>
    refine ih ?_ le_high
    by_contra beyond
    have there : (front ++ back)[middle]? = back[middle - front.length]? :=
      List.getElem?_append_right (by omega)
    rw [there] at goes
    obtain ⟨a, held, isRight⟩ := (Option.any_eq_true _ _).1 goes
    rw [stopped a (List.mem_of_getElem? held)] at isRight
    cases isRight
  | case2 low high _ middle stays ih =>
    refine ih low_le ?_
    by_contra beyond
    have within : middle < front.length := by omega
    rw [List.getElem?_append_left within, List.getElem?_eq_getElem within, Option.any_some,
      passed _ (List.getElem_mem within)] at stays
    exact stays rfl
  | case3 low high done => omega

variable {a : Account} {l : List Account}

section Sorted

variable (sorted : l.Pairwise fun a b => compare a b = .lt)

include sorted

theorem exists_split (a : Account) :
    ∃ front back, l = front ++ back ∧ placeAfter a l = front.length ∧
      (∀ b ∈ front, (compare b a).isLE = true) ∧ ∀ b ∈ back, (compare b a).isLE = false := by
  have stopped : ∀ b ∈ l.dropWhile (fun b => (compare b a).isLE), (compare b a).isLE = false := by
    rw [Table.dropWhile_eq_filter sorted]
    intro b member
    have above : compare a b = .lt := by simpa using (List.mem_filter.1 member).2
    exact Bool.eq_false_iff.2 (Std.OrientedCmp.not_isLE_of_lt above)
  have passed : ∀ b ∈ l.takeWhile (fun b => (compare b a).isLE), (compare b a).isLE = true :=
    fun b => List.mem_takeWhile_imp
  have parts := List.takeWhile_append_dropWhile (p := fun b => (compare b a).isLE) (l := l)
  have found : search _ (_ ++ _) 0 l.length = _ :=
    search_eq passed stopped (Nat.zero_le _) (List.takeWhile_prefix _).length_le
  rw [parts] at found
  exact ⟨_, _, parts.symm, found, passed, stopped⟩

theorem drop_placeAfter (a : Account) :
    l.drop (placeAfter a l) = l.dropWhile fun b => (compare b a).isLE := by
  obtain ⟨front, back, rfl, place, passed, stopped⟩ := exists_split sorted a
  rw [place, List.drop_left, List.dropWhile_append_of_pos passed]
  cases back with
  | nil => rfl
  | cons b rest => rw [List.dropWhile_cons_of_neg (by simp [stopped b List.mem_cons_self])]

theorem insertIdx_placeAfter (a : Account) :
    l.insertIdx (placeAfter a l) a = insertAccount a l := by
  obtain ⟨front, back, rfl, place, passed, stopped⟩ := exists_split sorted a
  rw [place]
  clear place sorted
  induction front with
  | nil =>
    cases back with
    | nil => rfl
    | cons b rest =>
      have below : (compare a b).isLT = true := by
        have above := stopped b List.mem_cons_self
        rw [← Std.OrientedCmp.isGT_eq_isLT]
        cases order : compare b a <;> simp_all
      simp [insertAccount, below]
  | cons b front ih =>
    have notBelow : (compare a b).isLT = false := by
      have le := passed b List.mem_cons_self
      rw [← Std.OrientedCmp.isGT_eq_isLT]
      cases order : compare b a <;> simp_all
    rw [List.cons_append, List.length_cons, List.insertIdx_succ_cons, insertAccount, notBelow,
      ih fun b member => passed b (List.mem_cons_of_mem _ member)]
    rfl

theorem placeOf_member (member : a ∈ l) :
    placeOf a l < l.length ∧ l.eraseIdx (placeOf a l) = l.erase a := by
  obtain ⟨front, back, rfl⟩ := List.append_of_mem member
  obtain ⟨-, tail, across⟩ := List.pairwise_append.1 sorted
  have self : compare a a = .eq := Std.ReflCmp.compare_self
  have passed : ∀ b ∈ front, (compare b a).isLT = true := fun b member => by
    rw [across b member a List.mem_cons_self]
    rfl
  have stopped : ∀ b ∈ a :: back, (compare b a).isLT = false := by
    intro b member
    rcases List.mem_cons.1 member with rfl | member
    · rw [self]; rfl
    · have above : compare b a = .gt :=
        Std.OrientedCmp.gt_iff_lt.2 ((List.pairwise_cons.1 tail).1 b member)
      rw [above]; rfl
  have fresh : a ∉ front := fun member => by
    have below := passed a member
    rw [self] at below
    cases below
  have place : placeOf a (front ++ a :: back) = front.length :=
    search_eq passed stopped (Nat.zero_le _) (by simp)
  rw [place, List.eraseIdx_append_of_length_le (Nat.le_refl _), List.erase_append_right _ fresh]
  simp

end Sorted

end LiquidityPools.Store
