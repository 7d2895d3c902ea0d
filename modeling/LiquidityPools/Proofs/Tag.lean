import Mathlib.Data.List.Basic
import LiquidityPools.Digest.Tag
import LiquidityPools.Proofs.Canonical
import LiquidityPools.Proofs.Quote

/-!
What a tag separates. A tag ends at its only zero byte, and its version stands behind its last `v`,
since a version is written in digits. So label, version and data can be read off the bytes that are
hashed, even if the label looks like one that has a version of its own, and whatever the data holds.
-/

namespace LiquidityPools.Digest

section Splitting

variable {α : Type} {mark : α} {a b rest rest' : List α}

theorem upTo_inj (clean : mark ∉ a) (clean' : mark ∉ b)
    (same : a ++ mark :: rest = b ++ mark :: rest') :
    a = b ∧ rest = rest' := by
  induction a generalizing b with
  | nil =>
    cases b with
    | nil => exact ⟨rfl, (List.cons.inj same).2⟩
    | cons y b => exact absurd ((List.cons.inj same).1 ▸ List.mem_cons_self) clean'
  | cons x a ih =>
    cases b with
    | nil => exact absurd ((List.cons.inj same).1 ▸ List.mem_cons_self) clean
    | cons y b =>
      obtain ⟨rfl, tails⟩ := List.cons.inj same
      obtain ⟨rfl, behind⟩ := ih (fun member => clean (List.mem_cons_of_mem _ member))
        (fun member => clean' (List.mem_cons_of_mem _ member)) tails
      exact ⟨rfl, behind⟩

theorem behindLast_inj (clean : mark ∉ rest) (clean' : mark ∉ rest')
    (same : a ++ mark :: rest = b ++ mark :: rest') : a = b ∧ rest = rest' := by
  have reversed : rest.reverse ++ mark :: a.reverse = rest'.reverse ++ mark :: b.reverse := by
    simpa using congrArg List.reverse same
  obtain ⟨ends, starts⟩ := upTo_inj (by simpa using clean) (by simpa using clean') reversed
  exact ⟨List.reverse_injective starts, List.reverse_injective ends⟩

end Splitting

section Bytes

variable {b : UInt8} {s t : String}

theorem toNat_ascii {c : Char} (low : c.toNat < 256) : (UInt8.ofNat c.toNat).toNat = c.toNat := by
  rw [UInt8.toNat_ofNat']
  exact Nat.mod_eq_of_lt low

theorem map_toNat_ascii (low : ∀ c ∈ s.toList, c.toNat < 256) :
    (ascii s).map UInt8.toNat = s.toList.map Char.toNat := by
  rw [ascii, List.map_map]
  exact List.map_congr_left fun c member => toNat_ascii (low c member)

theorem ascii_inj (low : ∀ c ∈ s.toList, c.toNat < 256) (low' : ∀ c ∈ t.toList, c.toNat < 256)
    (same : ascii s = ascii t) : s = t := by
  have numbers : s.toList.map Char.toNat = t.toList.map Char.toNat := by
    rw [← map_toNat_ascii low, ← map_toNat_ascii low', same]
  exact String.toList_injective (List.map_injective_iff.2 (fun _ _ => Char.toNat_inj.1) numbers)

theorem toNat_of_isDigit {c : Char} (digit : c.isDigit = true) : 48 ≤ c.toNat ∧ c.toNat ≤ 57 := by
  simpa [Char.isDigit, UInt32.le_iff_toNat_le] using digit

theorem digit_of_mem_repr {n : Nat} {c : Char} (member : c ∈ n.repr.toList) :
    48 ≤ c.toNat ∧ c.toNat ≤ 57 := by
  rw [Nat.toList_repr] at member
  exact toNat_of_isDigit (Nat.isDigit_of_mem_toDigits (by decide) (by decide) member)

theorem not_mem_version (n : Nat) (other : b.toNat < 48 ∨ 57 < b.toNat) :
    b ∉ ascii (toString n) := by
  intro member
  obtain ⟨c, there, rfl⟩ := List.mem_map.1 member
  have digit := digit_of_mem_repr there
  rw [toNat_ascii (by omega)] at other
  omega

theorem version_inj {n m : Nat} (same : ascii (toString n) = ascii (toString m)) : n = m := by
  have low (n : Nat) : ∀ c ∈ (toString n).toList, c.toNat < 256 := fun c member => by
    have digit := digit_of_mem_repr member
    omega
  exact Document.repr_inj (congrArg String.toList (ascii_inj (low n) (low m) same))

end Bytes

section Tags

structure IsLabel (s : String) : Prop where
  nonempty : s ≠ ""
  characters : ∀ c ∈ s.toList, c.toNat ≠ 0 ∧ c.toNat < 128

variable {label label' version version' : Value} {s t : String} {v w : Nat}
    {tagged tagged' : List UInt8}

theorem labelOf_eq_ok_iff : labelOf label = .ok s ↔ label = .str s ∧ IsLabel s := by
  unfold labelOf
  split
  next given =>
    rw [Value.str.injEq]
    split
    next empty =>
      simp only [reduceCtorEq, false_iff]
      rintro ⟨rfl, isLabel⟩
      exact isLabel.nonempty (String.isEmpty_iff.1 empty)
    next nonempty =>
      split
      next zero =>
        obtain ⟨c, member, zero⟩ := List.any_eq_true.1 zero
        simp only [reduceCtorEq, false_iff]
        rintro ⟨rfl, isLabel⟩
        exact absurd (of_decide_eq_true zero) (isLabel.characters c member).1
      next clean =>
        split
        next high =>
          obtain ⟨c, member, high⟩ := List.any_eq_true.1 high
          simp only [reduceCtorEq, false_iff]
          rintro ⟨rfl, isLabel⟩
          exact absurd (of_decide_eq_true high) (Nat.not_le.2 (isLabel.characters c member).2)
        next low =>
          rw [Except.ok.injEq, iff_self_and]
          rintro rfl
          simp only [List.any_eq_true, decide_eq_true_eq, not_exists, not_and, Nat.not_le]
            at clean low
          exact ⟨fun empty => nonempty (String.isEmpty_iff.2 empty), fun c member =>
            ⟨clean c member, low c member⟩⟩
  next other =>
    simp only [reduceCtorEq, false_iff]
    rintro ⟨same, -⟩
    exact other s same

theorem versionOf_eq_ok_iff : versionOf version = .ok v ↔ version = .int v ∧ 0 < v := by
  unfold versionOf
  split
  next n =>
    rw [Value.int.injEq]
    split
    · rw [Except.ok.injEq]
      omega
    · simp only [reduceCtorEq, false_iff]
      omega
  next other =>
    simp only [reduceCtorEq, false_iff]
    rintro ⟨same, -⟩
    exact other v same

theorem tagOf_eq_ok_iff : tagOf label version = .ok tagged ↔
    ∃ s, ∃ v : Nat, (label = .str s ∧ IsLabel s) ∧ (version = .int v ∧ 0 < v) ∧
      tagged = tag s v := by
  simp only [tagOf, Except.bind_eq_ok_iff, labelOf_eq_ok_iff, versionOf_eq_ok_iff]
  refine exists_congr fun s => ?_
  rw [← exists_and_left]
  refine exists_congr fun v => and_congr_right fun _ => and_congr_right fun _ => ?_
  exact (Except.ok.injEq ..).to_iff.trans eq_comm

theorem IsLabel.zero_not_mem (isLabel : IsLabel s) : 0 ∉ ascii s := by
  intro member
  obtain ⟨c, there, zero⟩ := List.mem_map.1 member
  have char := isLabel.characters c there
  have number := toNat_ascii (c := c) (by omega)
  rw [zero] at number
  exact char.1 number.symm

def front (s : String) (v : Nat) : List UInt8 :=
  ascii "cpamm:" ++ (ascii s ++ 58 :: 118 :: ascii (toString v))

theorem tag_append (s : String) (v : Nat) (data : List UInt8) :
    tag s v ++ data = front s v ++ 0 :: data := by
  simp only [tag, front, List.append_assoc, List.singleton_append]
  rfl

theorem zero_not_mem_front (isLabel : IsLabel s) (v : Nat) : 0 ∉ front s v := by
  simp only [front, List.mem_append, List.mem_cons, not_or]
  exact ⟨by decide, isLabel.zero_not_mem, by decide, by decide,
    not_mem_version v (.inl (by decide))⟩

theorem front_inj (isLabel : IsLabel s) (isLabel' : IsLabel t) (same : front s v = front t w) :
    s = t ∧ v = w := by
  have low {s : String} (isLabel : IsLabel s) : ∀ c ∈ s.toList, c.toNat < 256 := fun c member => by
    have := (isLabel.characters c member).2
    omega
  have behind := List.append_cancel_left same
  rw [List.append_cons, List.append_cons (ascii t)] at behind
  -- A label may hold a `v` as well, but the version does not.
  obtain ⟨labels, versions⟩ := behindLast_inj (not_mem_version v (.inr (by decide)))
    (not_mem_version w (.inr (by decide))) behind
  exact ⟨ascii_inj (low isLabel) (low isLabel') (List.append_cancel_right labels),
    version_inj versions⟩

theorem tag_inj (isLabel : IsLabel s) (isLabel' : IsLabel t) {data data' : List UInt8}
    (same : tag s v ++ data = tag t w ++ data') : s = t ∧ v = w ∧ data = data' := by
  rw [tag_append, tag_append] at same
  obtain ⟨fronts, behind⟩ :=
    upTo_inj (zero_not_mem_front isLabel v) (zero_not_mem_front isLabel' w) same
  obtain ⟨labels, versions⟩ := front_inj isLabel isLabel' fronts
  exact ⟨labels, versions, behind⟩

/-- Tags are given to exactly the labels that are ASCII and not empty and hold no zero, with
positive versions. What is hashed behind them is the same only if labels, versions and data are. -/
theorem tagOf_separates :
    (∀ label version, (∃ tagged, tagOf label version = .ok tagged) ↔
      (∃ s, label = .str s ∧ IsLabel s) ∧ ∃ v : Nat, version = .int v ∧ 0 < v) ∧
    ∀ {label label' version version' tagged tagged'}, tagOf label version = .ok tagged →
      tagOf label' version' = .ok tagged' → ∀ data data', tagged ++ data = tagged' ++ data' →
        label = label' ∧ version = version' ∧ data = data' := by
  refine ⟨fun label version => ?_, fun first second data data' same => ?_⟩
  · simp only [tagOf_eq_ok_iff]
    exact ⟨fun ⟨_, s, v, isLabel, positive, _⟩ => ⟨⟨s, isLabel⟩, v, positive⟩,
      fun ⟨⟨s, isLabel⟩, v, positive⟩ => ⟨_, s, v, isLabel, positive, rfl⟩⟩
  · obtain ⟨s, v, ⟨rfl, isLabel⟩, ⟨rfl, -⟩, rfl⟩ := tagOf_eq_ok_iff.1 first
    obtain ⟨t, w, ⟨rfl, isLabel'⟩, ⟨rfl, -⟩, rfl⟩ := tagOf_eq_ok_iff.1 second
    obtain ⟨rfl, rfl, behind⟩ := tag_inj isLabel isLabel' same
    exact ⟨rfl, rfl, behind⟩

/-- The label of one is the other's label with a version of its own. -/
theorem tagOf_separates_versioned :
    (∃ s, Value.str "pool:v1" = .str s ∧ IsLabel s) ∧
      tagOf (.str "pool") (.int 1) = .ok (tag "pool" 1) ∧
      tagOf (.str "pool:v1") (.int 12) = .ok (tag "pool:v1" 12) ∧
      ¬∃ data data', tag "pool" 1 ++ data = tag "pool:v1" 12 ++ data' := by
  have plain : tagOf (.str "pool") (.int 1) = .ok (tag "pool" 1) := by rfl
  have versioned : tagOf (.str "pool:v1") (.int 12) = .ok (tag "pool:v1" 12) := by rfl
  refine ⟨((tagOf_separates.1 _ _).1 ⟨_, versioned⟩).1, plain, versioned, ?_⟩
  rintro ⟨data, data', same⟩
  obtain ⟨labels, -, -⟩ := tagOf_separates.2 plain versioned data data' same
  exact absurd (Value.str.inj labels) (by decide)

end Tags

end LiquidityPools.Digest
