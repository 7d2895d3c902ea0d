/-!
Finite maps as lists in strictly increasing key order. The order makes the list a normal form: two
tables that answer every key alike are equal (`Table.ext_get?`), and taking out what was put in
gives the old table back (`erase_insert`).
-/

namespace LiquidityPools

structure Table (κ : Type) (α : Type) [Ord κ] where
  entries : List (κ × α)
  sorted : entries.Pairwise fun a b => compare a.1 b.1 = .lt

namespace Table

variable {κ α : Type} [Ord κ]

theorem ext {s t : Table κ α} (h : s.entries = t.entries) : s = t := by
  cases s; cases t; cases h; rfl

instance [DecidableEq κ] [DecidableEq α] : DecidableEq (Table κ α) := fun s t =>
  decidable_of_iff (s.entries = t.entries) ⟨ext, fun h => h ▸ rfl⟩

def empty : Table κ α := ⟨[], .nil⟩

instance : EmptyCollection (Table κ α) := ⟨empty⟩

instance : Inhabited (Table κ α) := ⟨empty⟩

def size (t : Table κ α) : Nat := t.entries.length

def keys (t : Table κ α) : List κ := t.entries.map (·.1)

/-- The value of `k` in a list in key order; the search ends at the first larger key. -/
def find (k : κ) : List (κ × α) → Option α
  | [] => none
  | (k', a) :: rest =>
    match compare k k' with
    | .lt => none
    | .eq => some a
    | .gt => find k rest

def put (k : κ) (a : α) : List (κ × α) → List (κ × α)
  | [] => [(k, a)]
  | (k', a') :: rest =>
    match compare k k' with
    | .lt => (k, a) :: (k', a') :: rest
    | .eq => (k, a) :: rest
    | .gt => (k', a') :: put k a rest

def remove (k : κ) : List (κ × α) → List (κ × α)
  | [] => []
  | (k', a') :: rest =>
    match compare k k' with
    | .lt => (k', a') :: rest
    | .eq => rest
    | .gt => (k', a') :: remove k rest

theorem mem_put {k : κ} {a : α} {l : List (κ × α)} {e : κ × α} (h : e ∈ put k a l) :
    e = (k, a) ∨ e ∈ l := by
  induction l with
  | nil => simpa [put] using h
  | cons e' rest ih =>
    rw [put] at h
    split at h <;> grind

theorem mem_of_mem_remove {k : κ} {l : List (κ × α)} {e : κ × α} (h : e ∈ remove k l) : e ∈ l := by
  induction l with
  | nil => simp [remove] at h
  | cons e' rest ih =>
    rw [remove] at h
    split at h <;> grind

section Lawful

variable [Std.TransOrd κ] [Std.LawfulEqOrd κ]

theorem sorted_put {k : κ} {a : α} {l : List (κ × α)}
    (h : l.Pairwise fun a b => compare a.1 b.1 = .lt) :
    (put k a l).Pairwise fun a b => compare a.1 b.1 = .lt := by
  induction l with
  | nil => simp [put]
  | cons e rest ih =>
    obtain ⟨first, others⟩ := List.pairwise_cons.1 h
    rw [put]
    split
    next lt =>
      refine List.pairwise_cons.2 ⟨fun b hb => ?_, h⟩
      rcases List.mem_cons.1 hb with rfl | hb
      · exact lt
      · exact Std.TransCmp.lt_trans lt (first b hb)
    next eq =>
      cases Std.LawfulEqCmp.eq_of_compare eq
      exact List.pairwise_cons.2 ⟨first, others⟩
    next gt =>
      refine List.pairwise_cons.2 ⟨fun b hb => ?_, ih others⟩
      rcases mem_put hb with rfl | hb
      · exact Std.OrientedCmp.gt_iff_lt.1 gt
      · exact first b hb

omit [Std.TransOrd κ] [Std.LawfulEqOrd κ] in
theorem sorted_remove {k : κ} {l : List (κ × α)}
    (h : l.Pairwise fun a b => compare a.1 b.1 = .lt) :
    (remove k l).Pairwise fun a b => compare a.1 b.1 = .lt := by
  induction l with
  | nil => simp [remove]
  | cons e rest ih =>
    obtain ⟨first, others⟩ := List.pairwise_cons.1 h
    rw [remove]
    split
    · exact h
    · exact others
    · exact List.pairwise_cons.2 ⟨fun b hb => first b (mem_of_mem_remove hb), ih others⟩

def get? (t : Table κ α) (k : κ) : Option α := find k t.entries

def contains (t : Table κ α) (k : κ) : Bool := (t.get? k).isSome

def insert (t : Table κ α) (k : κ) (a : α) : Table κ α := ⟨put k a t.entries, sorted_put t.sorted⟩

def erase (t : Table κ α) (k : κ) : Table κ α := ⟨remove k t.entries, sorted_remove t.sorted⟩

theorem find_eq_some_iff {k : κ} {a : α} {l : List (κ × α)}
    (h : l.Pairwise fun a b => compare a.1 b.1 = .lt) : find k l = some a ↔ (k, a) ∈ l := by
  induction l with
  | nil => simp [find]
  | cons e rest ih =>
    obtain ⟨first, others⟩ := List.pairwise_cons.1 h
    obtain ⟨k', a'⟩ := e
    rw [find]
    split
    next lt =>
      refine ⟨fun h => by simp at h, fun h => ?_⟩
      rcases List.mem_cons.1 h with h | h
      · cases h; simp at lt
      · have := Std.TransCmp.lt_trans lt (first _ h)
        simp at this
    next eq =>
      cases Std.LawfulEqCmp.eq_of_compare eq
      refine ⟨fun h => by simp_all, fun h => ?_⟩
      rcases List.mem_cons.1 h with h | h
      · cases h; rfl
      · have := first _ h
        simp at this
    next gt =>
      rw [ih others]
      refine ⟨fun h => List.mem_cons_of_mem _ h, fun h => ?_⟩
      rcases List.mem_cons.1 h with h | h
      · cases h; simp at gt
      · exact h

theorem get?_eq_some_iff {t : Table κ α} {k : κ} {a : α} : t.get? k = some a ↔ (k, a) ∈ t.entries :=
  find_eq_some_iff t.sorted

omit [Std.TransOrd κ] [Std.LawfulEqOrd κ] in
@[simp] theorem get?_empty (k : κ) : (∅ : Table κ α).get? k = none := rfl

omit [Std.TransOrd κ] in
theorem find_put_self (k : κ) (a : α) (l : List (κ × α)) : find k (put k a l) = some a := by
  induction l with
  | nil => simp [put, find]
  | cons e rest ih =>
    rw [put]
    split
    · simp [find]
    · simp [find]
    next gt => rw [find, gt]; exact ih

theorem find_put_of_ne {k j : κ} (ne : j ≠ k) (a : α) (l : List (κ × α)) :
    find j (put k a l) = find j l := by
  have apart : compare j k ≠ .eq := fun h => ne (Std.LawfulEqCmp.eq_of_compare h)
  induction l with
  | nil =>
    simp only [put, find]
    cases h : compare j k <;> simp_all
  | cons e rest ih =>
    rw [put]
    split
    next lt =>
      rw [find]
      cases h : compare j k
      · simp [find, Std.TransCmp.lt_trans h lt]
      · exact absurd h apart
      · rfl
    next eq =>
      cases Std.LawfulEqCmp.eq_of_compare eq
      simp only [find]
      cases h : compare j e.1 <;> simp_all
    next gt => simp only [find, ih]

theorem find_remove_self {k : κ} {l : List (κ × α)}
    (h : l.Pairwise fun a b => compare a.1 b.1 = .lt) : find k (remove k l) = none := by
  rw [Option.eq_none_iff_forall_ne_some]
  intro a found
  have member := (find_eq_some_iff (sorted_remove h)).1 found
  induction l with
  | nil => simp [remove] at member
  | cons e rest ih =>
    obtain ⟨first, others⟩ := List.pairwise_cons.1 h
    rw [remove] at member
    split at member
    next lt =>
      rcases List.mem_cons.1 member with h | h
      · cases h; simp at lt
      · have := Std.TransCmp.lt_trans lt (first _ h)
        simp at this
    next eq =>
      cases Std.LawfulEqCmp.eq_of_compare eq
      have := first _ member
      simp at this
    next gt =>
      rcases List.mem_cons.1 member with h | h
      · cases h; simp at gt
      · exact ih others ((find_eq_some_iff (sorted_remove others)).2 h) h

theorem find_remove_of_ne {k j : κ} (ne : j ≠ k) {l : List (κ × α)}
    (h : l.Pairwise fun a b => compare a.1 b.1 = .lt) : find j (remove k l) = find j l := by
  induction l with
  | nil => rfl
  | cons e rest ih =>
    obtain ⟨first, others⟩ := List.pairwise_cons.1 h
    rw [remove]
    split
    · rfl
    next eq =>
      cases Std.LawfulEqCmp.eq_of_compare eq
      have apart : compare j e.1 ≠ .eq := fun h => ne (Std.LawfulEqCmp.eq_of_compare h)
      rw [find.eq_def j (_ :: rest)]
      simp only
      cases hc : compare j e.1
      · rw [Option.eq_none_iff_forall_ne_some]
        intro a found
        have := Std.TransCmp.lt_trans hc (first _ ((find_eq_some_iff others).1 found))
        simp at this
      · exact absurd hc apart
      · rfl
    next gt => simp only [find, ih others]

@[simp] theorem get?_insert_self (t : Table κ α) (k : κ) (a : α) :
    (t.insert k a).get? k = some a :=
  find_put_self k a t.entries

theorem get?_insert_of_ne {k j : κ} (ne : j ≠ k) (t : Table κ α) (a : α) :
    (t.insert k a).get? j = t.get? j :=
  find_put_of_ne ne a t.entries

theorem get?_insert [DecidableEq κ] (t : Table κ α) (k j : κ) (a : α) :
    (t.insert k a).get? j = if j = k then some a else t.get? j := by
  split
  next h => rw [h, get?_insert_self]
  next h => exact get?_insert_of_ne h t a

@[simp] theorem get?_erase_self (t : Table κ α) (k : κ) : (t.erase k).get? k = none :=
  find_remove_self t.sorted

theorem get?_erase_of_ne {k j : κ} (ne : j ≠ k) (t : Table κ α) : (t.erase k).get? j = t.get? j :=
  find_remove_of_ne ne t.sorted

theorem get?_erase [DecidableEq κ] (t : Table κ α) (k j : κ) :
    (t.erase k).get? j = if j = k then none else t.get? j := by
  split
  next h => rw [h, get?_erase_self]
  next h => exact get?_erase_of_ne h t

theorem entries_ext {s t : List (κ × α)} (hs : s.Pairwise fun a b => compare a.1 b.1 = .lt)
    (ht : t.Pairwise fun a b => compare a.1 b.1 = .lt) (h : ∀ e, e ∈ s ↔ e ∈ t) : s = t := by
  induction s generalizing t with
  | nil =>
    cases t with
    | nil => rfl
    | cons e rest => exact absurd ((h e).2 List.mem_cons_self) List.not_mem_nil
  | cons e rest ih =>
    cases t with
    | nil => exact absurd ((h e).1 List.mem_cons_self) List.not_mem_nil
    | cons e' rest' =>
      obtain ⟨first, others⟩ := List.pairwise_cons.1 hs
      obtain ⟨first', others'⟩ := List.pairwise_cons.1 ht
      have irreflexive {a b : κ} (h : compare a b = .lt) (h' : compare b a = .lt) : False := by
        have := Std.TransCmp.lt_trans h h'
        simp at this
      have heads : e = e' := by
        rcases List.mem_cons.1 ((h e).1 List.mem_cons_self) with eq | there
        · exact eq
        · rcases List.mem_cons.1 ((h e').2 List.mem_cons_self) with eq | here
          · exact eq.symm
          · exact (irreflexive (first _ here) (first' _ there)).elim
      subst heads
      have apart (l : List (κ × α)) (below : ∀ a ∈ l, compare e.1 a.1 = .lt) : e ∉ l := by
        intro member
        have := below e member
        simp at this
      refine congrArg (e :: ·) (ih others others' fun x => ⟨fun member => ?_, fun member => ?_⟩)
      · rcases List.mem_cons.1 ((h x).1 (List.mem_cons_of_mem _ member)) with rfl | there
        · exact absurd member (apart rest first)
        · exact there
      · rcases List.mem_cons.1 ((h x).2 (List.mem_cons_of_mem _ member)) with rfl | here
        · exact absurd member (apart rest' first')
        · exact here

theorem ext_get? {s t : Table κ α} (h : ∀ k, s.get? k = t.get? k) : s = t := by
  refine ext (entries_ext s.sorted t.sorted fun ⟨k, a⟩ => ?_)
  rw [← get?_eq_some_iff, ← get?_eq_some_iff, h]

theorem erase_insert {t : Table κ α} {k : κ} (fresh : t.get? k = none) (a : α) :
    (t.insert k a).erase k = t := by
  refine ext_get? fun j => ?_
  by_cases h : j = k
  · rw [h, get?_erase_self, fresh]
  · rw [get?_erase_of_ne h, get?_insert_of_ne h]

theorem insert_insert {t : Table κ α} {k : κ} {a : α} (held : t.get? k = some a) (b : α) :
    (t.insert k b).insert k a = t := by
  refine ext_get? fun j => ?_
  by_cases h : j = k
  · rw [h, get?_insert_self, held]
  · rw [get?_insert_of_ne h, get?_insert_of_ne h]

end Lawful

end Table

end LiquidityPools
