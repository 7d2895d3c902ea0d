import LiquidityPools.Table
import Mathlib.Algebra.Order.Ring.Int

/-!
Sums over the entries of a table. Writing a key changes a sum by what the key counts for now, less
what it counted for before; other keys do not matter. A new key makes the table larger by one.
-/

namespace LiquidityPools.Table

variable {κ α : Type} [Ord κ]

theorem nodup_of_sorted [Std.ReflOrd κ] {l : List κ}
    (sorted : l.Pairwise fun a b => compare a b = .lt) :
    l.Nodup := by
  refine sorted.imp fun {a b} below same => ?_
  have reflexive : compare b b = .eq := Std.ReflCmp.compare_self
  rw [same, reflexive] at below
  cases below

section Sorted

variable [Std.TransOrd κ] {l m : List κ} (sorted : l.Pairwise fun a b => compare a b = .lt)

include sorted

theorem eq_of_sorted [Std.LawfulEqOrd κ] (sorted' : m.Pairwise fun a b => compare a b = .lt)
    (same : ∀ k, k ∈ l ↔ k ∈ m) : l = m := by
  have perm : l.Perm m :=
    (List.perm_ext_iff_of_nodup (nodup_of_sorted sorted) (nodup_of_sorted sorted')).2 same
  refine perm.eq_of_pairwise (fun a b _ _ below above => ?_) sorted sorted'
  have loop := Std.TransCmp.lt_trans below above
  simp at loop

/-- In a list in order, what comes after a cursor is a last part of it. -/
theorem dropWhile_eq_filter (cursor : κ) :
    l.dropWhile (fun k => (compare k cursor).isLE) = l.filter fun k => compare cursor k = .lt := by
  induction l with
  | nil => rfl
  | cons k rest ih =>
    obtain ⟨first, others⟩ := List.pairwise_cons.1 sorted
    by_cases passed : (compare k cursor).isLE = true
    · have behind : compare cursor k ≠ .lt :=
        fun ahead => Std.OrientedCmp.not_isLE_of_lt ahead passed
      rw [List.dropWhile_cons, if_pos passed, ih others,
        List.filter_cons_of_neg (by simpa using behind)]
    · have ahead : compare cursor k = .lt := by
        rw [← Std.OrientedCmp.gt_iff_lt]
        cases order : compare k cursor <;> simp_all
      rw [List.dropWhile_cons, if_neg passed, eq_comm, List.filter_eq_self]
      intro other member
      rcases List.mem_cons.1 member with rfl | later
      · simpa using ahead
      · simpa using Std.TransCmp.lt_trans ahead (first other later)

end Sorted

def sum (f : κ → α → Int) (t : Table κ α) : Int := (t.entries.map fun e => f e.1 e.2).sum

def weight (f : κ → α → Int) (t : Table κ α) (k : κ) : Int := (t.get? k).elim 0 (f k)

theorem weight_of_get? {f : κ → α → Int} {t : Table κ α} {k : κ} {a : α}
    (held : t.get? k = some a) :
    t.weight f k = f k a := by
  rw [weight, held, Option.elim_some]

theorem weight_of_fresh {f : κ → α → Int} {t : Table κ α} {k : κ} (fresh : t.get? k = none) :
    t.weight f k = 0 := by
  rw [weight, fresh, Option.elim_none]

variable [Std.LawfulEqOrd κ]

theorem sum_put (f : κ → α → Int) (k : κ) (a : α) (l : List (κ × α)) :
    ((put k a l).map fun e => f e.1 e.2).sum =
      (l.map fun e => f e.1 e.2).sum + f k a - (find k l).elim 0 (f k) := by
  induction l with
  | nil => simp [put, find]
  | cons e rest ih =>
    rw [put, find]
    split
    next => simp only [List.map_cons, List.sum_cons, Option.elim_none]; omega
    next eq =>
      cases Std.LawfulEqCmp.eq_of_compare eq
      simp only [List.map_cons, List.sum_cons, Option.elim_some]
      omega
    next => simp only [List.map_cons, List.sum_cons, ih]; omega

theorem sum_remove (f : κ → α → Int) (k : κ) (l : List (κ × α)) :
    ((remove k l).map fun e => f e.1 e.2).sum =
      (l.map fun e => f e.1 e.2).sum - (find k l).elim 0 (f k) := by
  induction l with
  | nil => simp [remove, find]
  | cons e rest ih =>
    rw [remove, find]
    split
    next => simp only [List.map_cons, List.sum_cons, Option.elim_none]; omega
    next eq =>
      cases Std.LawfulEqCmp.eq_of_compare eq
      simp only [List.map_cons, List.sum_cons, Option.elim_some]
      omega
    next => simp only [List.map_cons, List.sum_cons, ih]; omega

theorem sum_insert [Std.TransOrd κ] (f : κ → α → Int) (t : Table κ α) (k : κ) (a : α) :
    (t.insert k a).sum f = t.sum f + f k a - t.weight f k :=
  sum_put f k a t.entries

theorem sum_erase (f : κ → α → Int) (t : Table κ α) (k : κ) :
    (t.erase k).sum f = t.sum f - t.weight f k :=
  sum_remove f k t.entries

theorem nonneg_sum {l : List Int} (positive : ∀ n ∈ l, 0 ≤ n) : 0 ≤ l.sum := by
  induction l with
  | nil => simp
  | cons n rest ih =>
    have first := positive n List.mem_cons_self
    have others := ih fun m member => positive m (List.mem_cons_of_mem _ member)
    rw [List.sum_cons]
    omega

omit [Std.LawfulEqOrd κ] in
theorem sum_nonneg {f : κ → α → Int} (positive : ∀ k a, 0 ≤ f k a) (t : Table κ α) :
    0 ≤ t.sum f := by
  refine nonneg_sum fun n member => ?_
  obtain ⟨e, -, rfl⟩ := List.mem_map.1 member
  exact positive e.1 e.2

theorem weight_le_sum [Std.TransOrd κ] {f : κ → α → Int} (positive : ∀ k a, 0 ≤ f k a)
    (t : Table κ α) (k : κ) : t.weight f k ≤ t.sum f := by
  have rest := sum_nonneg positive (t.erase k)
  rw [sum_erase] at rest
  omega

omit [Std.LawfulEqOrd κ] in
theorem length_put {k : κ} {l : List (κ × α)} (fresh : find k l = none) (a : α) :
    (put k a l).length = l.length + 1 := by
  induction l with
  | nil => rfl
  | cons e rest ih =>
    rw [find] at fresh
    rw [put]
    split
    next => rfl
    next eq => rw [eq] at fresh; cases fresh
    next gt => rw [gt] at fresh; rw [List.length_cons, ih fresh, List.length_cons]

theorem size_insert_fresh [Std.TransOrd κ] {t : Table κ α} {k : κ}
    (fresh : t.get? k = none) (a : α) :
    (t.insert k a).size = t.size + 1 :=
  length_put fresh a

end LiquidityPools.Table
