import LiquidityPools.Store.Walk
import LiquidityPools.Proofs.Store

/-!
A walk through a store that stays as it is hands out every position of its market, in provider
order, whatever the page size.
-/

namespace LiquidityPools.Walk

variable {s : Store} {w : Walk} {rest : List (Account × Position)}

structure Before (s : Store) (w : Walk) (rest : List (Account × Position)) : Prop where
  passed : ∃ passed, s.positionsOf w.market = passed ++ rest ∧ w.cursor = passed.getLast?.map (·.1)
  pending : w.pending <+: rest
  pageSize_pos : 0 < w.pageSize

theorem before_start (s : Store) (market : Market) {pageSize : Nat} (positive : 0 < pageSize) :
    Before s { market, pageSize } (s.positionsOf market) :=
  ⟨⟨[], rfl, rfl⟩, List.nil_prefix, positive⟩

theorem map_fst_positionsOf (s : Store) (market : Market) :
    (s.positionsOf market).map (·.1) = s.providersOf market := by
  rw [Store.positionsOf, List.map_map]
  exact List.map_id _

theorem dropWhile_upTo {earlier later : List Account} {last : Account}
    (sorted : (earlier ++ last :: later).Pairwise fun a b => compare a b = .lt) :
    (earlier ++ last :: later).dropWhile (fun p => (compare p last).isLE) = later := by
  obtain ⟨-, tail, across⟩ := List.pairwise_append.1 sorted
  rw [List.dropWhile_append_of_pos, List.dropWhile_cons_of_pos]
  · cases later with
    | nil => rfl
    | cons next others =>
      have above : compare next last = .gt :=
        Std.OrientedCmp.gt_iff_lt.2 ((List.pairwise_cons.1 tail).1 next List.mem_cons_self)
      rw [List.dropWhile_cons_of_neg (by simp [above])]
  · have self : compare last last = .eq := Std.ReflCmp.compare_self
    rw [self]
    rfl
  · intro p member
    rw [across p member last List.mem_cons_self]
    rfl

/-- The page after the last position handed out starts with the first one that is left. -/
theorem Before.page (before : Before s w rest) (coherent : s.Coherent) :
    s.page w.market w.cursor w.pageSize = rest.take w.pageSize := by
  obtain ⟨passed, split, cursor⟩ := before.passed
  have providers : s.providersOf w.market = passed.map (·.1) ++ rest.map (·.1) := by
    rw [← map_fst_positionsOf, split, List.map_append]
  have restored : (rest.map (·.1)).map (s.withPosition w.market) = rest := by
    have whole : (s.providersOf w.market).map (s.withPosition w.market) = passed ++ rest := split
    rw [providers, List.map_append] at whole
    exact (List.append_inj whole (by simp)).2
  have sorted := coherent.sorted w.market
  rw [providers] at sorted
  rw [Store.page.eq_def, cursor, providers]
  rcases List.eq_nil_or_concat passed with rfl | ⟨earlier, last, rfl⟩
  · simp only [List.map_nil, List.nil_append, List.getLast?_nil, Option.map_none, List.map_take,
      restored]
  · simp only [List.concat_eq_append, List.map_append, List.map_cons, List.map_nil,
      List.append_assoc, List.singleton_append, List.getLast?_append, List.getLast?_singleton,
      Option.some_or, Option.map_some] at sorted ⊢
    rw [dropWhile_upTo sorted, List.map_take, restored]

theorem next_eq_none (before : Before s w []) (coherent : s.Coherent) : w.next s = none := by
  have empty : w.pending = [] := List.prefix_nil.1 before.pending
  simp only [next, empty, List.isEmpty_nil, if_true, before.page coherent, List.take_nil]

theorem next_eq_some {item : Account × Position} (before : Before s w (item :: rest))
    (coherent : s.Coherent) : ∃ w', w.next s = some (item, w') ∧ Before s w' rest := by
  obtain ⟨passed, split, -⟩ := before.passed
  have standing (others : List (Account × Position)) (within : others <+: rest) :
      Before s { w with pending := others, cursor := some item.1 } rest :=
    ⟨⟨passed ++ [item], by simp [split], by simp⟩, within, before.pageSize_pos⟩
  cases pending : w.pending with
  | cons first others =>
    have ahead := before.pending
    rw [pending] at ahead
    obtain ⟨rfl, within⟩ := List.cons_prefix_cons.1 ahead
    refine ⟨_, ?_, standing others within⟩
    simp [next, pending]
  | nil =>
    obtain ⟨n, size⟩ := Nat.exists_eq_succ_of_ne_zero (Nat.ne_of_gt before.pageSize_pos)
    refine ⟨_, ?_, standing (rest.take n) (List.take_prefix _ _)⟩
    have page := before.page coherent
    rw [size, List.take_succ_cons] at page
    simp [next, pending, size, page]

theorem take_eq (before : Before s w rest) (coherent : s.Coherent) (n : Nat) :
    (w.take s n).1 = rest.take n := by
  induction n generalizing w rest with
  | zero => rfl
  | succ n ih =>
    rw [take]
    cases rest with
    | nil => rw [next_eq_none before coherent]; rfl
    | cons item rest =>
      obtain ⟨w', ahead, onward⟩ := next_eq_some before coherent
      rw [ahead]
      exact congrArg (item :: ·) (ih onward)

theorem rest_start (coherent : s.Coherent) (market : Market) {pageSize : Nat}
    (positive : 0 < pageSize) : Walk.rest s { market, pageSize } = s.positionsOf market := by
  rw [Walk.rest, take_eq (before_start s market positive) coherent]
  refine List.take_of_length_le ?_
  simp [Store.positionsOf, Store.positionCount]

end LiquidityPools.Walk
