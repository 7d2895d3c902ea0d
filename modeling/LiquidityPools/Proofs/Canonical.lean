import LiquidityPools.Canonical
import Mathlib.Data.List.Basic

/-!
The canonical text tells documents apart. Every document can be read back from the front of a text
that goes on with a comma, a closing bracket or nothing: its first character gives its kind, a
number ends where its digits end, and a text ends at the first quote that is not escaped.
-/

namespace LiquidityPools.Document

/-- What may follow a document in a larger one. -/
def Ends (rest : List Char) : Prop := ∀ c ∈ rest.head?, c = ',' ∨ c = ']' ∨ c = '\x7d'

theorem ends_nil : Ends [] := nofun

section Numbers

def isNumeral (c : Char) : Bool := c.isDigit || c == '-'

theorem isNumeral_of_mem_repr {n : Nat} {c : Char} (member : c ∈ n.repr.toList) :
    isNumeral c = true := by
  rw [Nat.toList_repr] at member
  rw [isNumeral, Nat.isDigit_of_mem_toDigits (by decide) (by decide) member, Bool.true_or]

theorem toString_int (n : Int) :
    (toString n).toList = if 0 ≤ n then n.toNat.repr.toList else '-' :: (-n).toNat.repr.toList := by
  have spelled : toString n = if 0 ≤ n then n.toNat.repr else "-" ++ (-n).toNat.repr :=
    Int.repr_eq_if
  rw [spelled]
  split
  · rfl
  · rw [String.toList_append]
    rfl

theorem isNumeral_of_mem {n : Int} {c : Char} (member : c ∈ (toString n).toList) :
    isNumeral c = true := by
  rw [toString_int] at member
  split at member
  · exact isNumeral_of_mem_repr member
  · rcases List.mem_cons.1 member with rfl | digit
    · rfl
    · exact isNumeral_of_mem_repr digit

theorem repr_inj {n m : Nat} (same : n.repr.toList = m.repr.toList) : n = m := by
  rw [Nat.toList_repr, Nat.toList_repr] at same
  rw [← Nat.ofDigitChars_ten_toDigits (n := n), same, Nat.ofDigitChars_ten_toDigits]

theorem minus_not_mem (n : Nat) : '-' ∉ n.repr.toList := by
  rw [Nat.toList_repr]
  intro member
  have digit := Nat.isDigit_of_mem_toDigits (by decide) (by decide) member
  exact absurd digit (by decide)

theorem toString_int_inj {n m : Int}
    (same : (toString n).toList = (toString m).toList) : n = m := by
  rw [toString_int, toString_int] at same
  split at same <;> split at same
  · have := repr_inj same
    omega
  · exact absurd (same ▸ List.mem_cons_self) (minus_not_mem n.toNat)
  · exact absurd (same ▸ List.mem_cons_self) (minus_not_mem m.toNat)
  · have := repr_inj (List.cons.inj same).2
    omega

theorem takeWhile_number (n : Int) {rest : List Char} (ends : Ends rest) :
    ((toString n).toList ++ rest).takeWhile isNumeral = (toString n).toList := by
  rw [List.takeWhile_append_of_pos fun c => isNumeral_of_mem]
  cases rest with
  | nil => simp
  | cons c rest =>
    have other : isNumeral c = false := by
      rcases ends c rfl with rfl | rfl | rfl <;> decide
    rw [List.takeWhile_cons_of_neg (by simp [other]), List.append_nil]

theorem number_inj {n m : Int} {rest rest' : List Char} (ends : Ends rest) (ends' : Ends rest')
    (same : (toString n).toList ++ rest = (toString m).toList ++ rest') : n = m ∧ rest = rest' := by
  have digits : (toString n).toList = (toString m).toList := by
    rw [← takeWhile_number n ends, same, takeWhile_number m ends']
  rw [digits] at same
  exact ⟨toString_int_inj digits, List.append_cancel_left same⟩

end Numbers

section Texts

def escaped : List Char := '"' :: '\\' :: (List.range 0x20).map Char.ofNat

theorem mem_escaped {c : Char} (low : c.toNat < 0x20) : c ∈ escaped := by
  have spelled : Char.ofNat c.toNat = c := Char.ofNat_toNat c
  rw [← spelled]
  exact List.mem_cons_of_mem _ (List.mem_cons_of_mem _
    (List.mem_map_of_mem (List.mem_range.2 low)))

theorem escape_of_not_mem {c : Char} (plain : c ∉ escaped) : escape c = [c] := by
  have low : ¬c.toNat < 0x20 := mt mem_escaped plain
  have apart {d : Char} (member : d ∈ escaped) : c ≠ d := fun same => plain (same ▸ member)
  have quote : ¬(c = '"' ∨ c = '\\') := not_or.2 ⟨apart (by decide), apart (by decide)⟩
  rw [escape, if_neg quote, if_neg (apart (by decide)), if_neg (apart (by decide)),
    if_neg (apart (by decide)), if_neg (by omega), if_neg (by omega), if_neg low]

theorem head_escaped : ∀ c ∈ escaped, (escape c).head? = some '\\' := by
  -- decided by a walk over the list; all characters would be too many
  have each : (escaped.all fun c => (escape c).head? = some '\\') = true := by decide
  simpa only [List.all_eq_true, decide_eq_true_eq] using each

theorem head_escape (c : Char) (rest : List Char) :
    (escape c ++ rest).head? = some (if c ∈ escaped then '\\' else c) := by
  split
  next special => rw [List.head?_append, head_escaped c special, Option.some_or]
  next plain => rw [escape_of_not_mem plain]; rfl

/-- No escape is the beginning of another one. -/
theorem escape_apart : ∀ c ∈ escaped, ∀ d ∈ escaped, escape c <+: escape d → c = d := by
  have each : (escaped.all fun c => escaped.all fun d => escape c <+: escape d → c = d) = true := by
    decide +kernel
  simpa only [List.all_eq_true, decide_eq_true_eq] using each

theorem escape_inj {c d : Char} {rest rest' : List Char}
    (same : escape c ++ rest = escape d ++ rest') : c = d ∧ rest = rest' := by
  have heads := congrArg List.head? same
  rw [head_escape, head_escape, Option.some.injEq] at heads
  have backslash : '\\' ∈ escaped := by decide
  have equal : c = d := by
    split at heads <;> split at heads
    next special special' =>
      rcases List.append_eq_append_iff.1 same with ⟨more, long, -⟩ | ⟨more, long, -⟩
      · exact escape_apart c special d special' ⟨more, long.symm⟩
      · exact (escape_apart d special' c special ⟨more, long.symm⟩).symm
    next plain => exact absurd (heads ▸ backslash) plain
    next plain _ => exact absurd (heads ▸ backslash) plain
    next => exact heads
  subst equal
  exact ⟨rfl, List.append_cancel_left same⟩

theorem quote_ne_head (c : Char) : '"' ≠ if c ∈ escaped then '\\' else c := by
  have quote : '"' ∈ escaped := by decide
  split
  · decide
  next plain => exact fun same => plain (same ▸ quote)

theorem quoted_inj {s t rest rest' : List Char}
    (same : s.flatMap escape ++ '"' :: rest = t.flatMap escape ++ '"' :: rest') :
    s = t ∧ rest = rest' := by
  induction s generalizing t with
  | nil =>
    cases t with
    | nil => exact ⟨rfl, (List.cons.inj same).2⟩
    | cons d t =>
      rw [List.flatMap_cons, List.append_assoc] at same
      have heads := congrArg List.head? same
      rw [head_escape] at heads
      exact absurd (Option.some.inj heads) (quote_ne_head d)
  | cons c s ih =>
    cases t with
    | nil =>
      rw [List.flatMap_cons, List.append_assoc] at same
      have heads := congrArg List.head? same
      rw [head_escape] at heads
      exact absurd (Option.some.inj heads).symm (quote_ne_head c)
    | cons d t =>
      rw [List.flatMap_cons, List.flatMap_cons, List.append_assoc, List.append_assoc] at same
      obtain ⟨rfl, onward⟩ := escape_inj same
      obtain ⟨rfl, behind⟩ := ih onward
      exact ⟨rfl, behind⟩

theorem writeText_inj {s t : String} {rest rest' : List Char}
    (same : writeText s ++ rest = writeText t ++ rest') : s = t ∧ rest = rest' := by
  have inner : s.toList.flatMap escape ++ '"' :: rest =
      t.toList.flatMap escape ++ '"' :: rest' := by
    simpa [writeText] using same
  obtain ⟨chars, behind⟩ := quoted_inj inner
  exact ⟨String.toList_injective chars, behind⟩

end Texts

section Kinds

def kindOf (c : Char) : Nat :=
  if isNumeral c then 0
  else if c = '"' then 1
  else if c = '[' then 2
  else if c = '\x7b' then 3
  else if c = 'n' then 4
  else if c = 't' ∨ c = 'f' then 5
  else 6

def kind : Document → Nat
  | .int _ => 0
  | .text _ => 1
  | .array _ => 2
  | .object _ => 3
  | .null => 4
  | .bool _ => 5

theorem kind_lt (d : Document) : d.kind < 6 := by
  cases d <;> simp [kind]

theorem number_ne_nil (n : Int) : (toString n).toList ≠ [] := by
  rw [toString_int]
  split
  · rw [Nat.toList_repr]
    exact Nat.toDigits_ne_nil
  · exact nofun

theorem head_write (d : Document) (rest : List Char) :
    (write d ++ rest).head?.map kindOf = some d.kind := by
  cases d with
  | int n =>
    rw [write]
    cases spelled : (toString n).toList with
    | nil => exact absurd spelled (number_ne_nil n)
    | cons c more =>
      have numeral : isNumeral c = true := isNumeral_of_mem (spelled ▸ List.mem_cons_self)
      show some (kindOf c) = some 0
      rw [kindOf, if_pos numeral]
  | bool b => cases b <;> rfl
  | array items => cases items <;> rfl
  | object members => cases members <;> rfl
  | null | text => rfl

theorem kind_eq {d e : Document} {rest rest' : List Char}
    (same : write d ++ rest = write e ++ rest') :
    d.kind = e.kind := by
  have heads := head_write d rest
  rw [same, head_write] at heads
  exact (Option.some.inj heads).symm

theorem write_ne_bracket (d : Document) (rest rest' : List Char) :
    write d ++ rest ≠ ']' :: rest' := by
  intro same
  have heads := head_write d rest
  rw [same] at heads
  have bracket : kindOf ']' = 6 := by decide
  have kind : d.kind = 6 := (Option.some.inj heads).symm.trans bracket
  have := d.kind_lt
  omega

end Kinds

theorem ends_items (items : List Document) (rest : List Char) :
    Ends (writeItems items ++ rest) := by
  cases items <;> exact fun c head => by cases head; simp

theorem ends_members (members : List (String × Document)) (rest : List Char) :
    Ends (writeMembers members ++ rest) := by
  cases members <;> exact fun c head => by cases head; simp

mutual

/-- A document can be read back from the front of a text that goes on as a larger document may. -/
theorem write_inj : (d e : Document) → {rest rest' : List Char} → Ends rest → Ends rest' →
    write d ++ rest = write e ++ rest' → d = e ∧ rest = rest'
  | .null, e, _, _, _, _, same => by
    have kinds := kind_eq same
    cases e with
    | null => exact ⟨rfl, List.append_cancel_left same⟩
    | _ => cases kinds
  | .bool b, e, _, _, _, _, same => by
    have kinds := kind_eq same
    cases e with
    | bool c =>
      cases b <;> cases c
      · exact ⟨rfl, List.append_cancel_left same⟩
      · cases same
      · cases same
      · exact ⟨rfl, List.append_cancel_left same⟩
    | _ => cases kinds
  | .int n, e, _, _, ends, ends', same => by
    have kinds := kind_eq same
    cases e with
    | int m =>
      obtain ⟨rfl, behind⟩ := number_inj ends ends' same
      exact ⟨rfl, behind⟩
    | _ => cases kinds
  | .text s, e, _, _, _, _, same => by
    have kinds := kind_eq same
    cases e with
    | text t =>
      obtain ⟨rfl, behind⟩ := writeText_inj same
      exact ⟨rfl, behind⟩
    | _ => cases kinds
  | .array [], e, rest, rest', _, _, same => by
    have kinds := kind_eq same
    cases e with
    | array others =>
      cases others with
      | nil => exact ⟨rfl, List.append_cancel_left same⟩
      | cons other others =>
        simp only [write, List.cons_append, List.append_assoc, List.cons.injEq, true_and] at same
        exact absurd same.symm (write_ne_bracket other _ _)
    | _ => cases kinds
  | .array (item :: items), e, rest, rest', _, _, same => by
    have kinds := kind_eq same
    cases e with
    | array others =>
      cases others with
      | nil =>
        simp only [write, List.cons_append, List.append_assoc, List.cons.injEq, true_and] at same
        exact absurd same (write_ne_bracket item _ _)
      | cons other others =>
        simp only [write, List.cons_append, List.append_assoc, List.cons.injEq, true_and] at same
        obtain ⟨rfl, onward⟩ := write_inj item other (ends_items items _) (ends_items others _) same
        obtain ⟨rfl, behind⟩ := writeItems_inj items others onward
        exact ⟨rfl, behind⟩
    | _ => cases kinds
  | .object [], e, rest, rest', _, _, same => by
    have kinds := kind_eq same
    cases e with
    | object others =>
      cases others with
      | nil => exact ⟨rfl, List.append_cancel_left same⟩
      | cons other others => cases same
    | _ => cases kinds
  | .object ((key, value) :: members), e, rest, rest', _, _, same => by
    have kinds := kind_eq same
    cases e with
    | object others =>
      cases others with
      | nil => cases same
      | cons other others =>
        simp only [write, List.cons_append, List.append_assoc, List.cons.injEq, true_and] at same
        obtain ⟨rfl, after⟩ := writeText_inj same
        obtain ⟨rfl, onward⟩ := write_inj value other.2 (ends_members members _)
          (ends_members others _) (List.cons.inj after).2
        obtain ⟨rfl, behind⟩ := writeMembers_inj members others onward
        exact ⟨rfl, behind⟩
    | _ => cases kinds

theorem writeItems_inj : (items others : List Document) → {rest rest' : List Char} →
    writeItems items ++ rest = writeItems others ++ rest' → items = others ∧ rest = rest'
  | [], [], _, _, same => ⟨rfl, List.append_cancel_left same⟩
  | [], _ :: _, _, _, same => by cases same
  | _ :: _, [], _, _, same => by cases same
  | item :: items, other :: others, _, _, same => by
    simp only [writeItems, List.cons_append, List.append_assoc, List.cons.injEq, true_and] at same
    obtain ⟨rfl, onward⟩ := write_inj item other (ends_items items _) (ends_items others _) same
    obtain ⟨rfl, behind⟩ := writeItems_inj items others onward
    exact ⟨rfl, behind⟩

theorem writeMembers_inj : (members others : List (String × Document)) → {rest rest' : List Char} →
    writeMembers members ++ rest = writeMembers others ++ rest' → members = others ∧ rest = rest'
  | [], [], _, _, same => ⟨rfl, List.append_cancel_left same⟩
  | [], _ :: _, _, _, same => by cases same
  | _ :: _, [], _, _, same => by cases same
  | (_, value) :: members, (_, other) :: others, _, _, same => by
    simp only [writeMembers, List.cons_append, List.append_assoc, List.cons.injEq, true_and] at same
    obtain ⟨rfl, after⟩ := writeText_inj same
    obtain ⟨rfl, onward⟩ := write_inj value other (ends_members members _) (ends_members others _)
      (List.cons.inj after).2
    obtain ⟨rfl, behind⟩ := writeMembers_inj members others onward
    exact ⟨rfl, behind⟩

end

theorem toText_inj {d e : Document} (same : d.toText = e.toText) : d = e := by
  have chars : write d ++ [] = write e ++ [] := by
    rw [List.append_nil, List.append_nil]
    exact String.ofList_injective same
  exact (write_inj d e ends_nil ends_nil chars).1

section Bytes

theorem toList_loop (bytes : ByteArray) (i : Nat) (read : List UInt8) :
    ByteArray.toList.loop bytes i read = read.reverse ++ bytes.data.toList.drop i := by
  fun_induction ByteArray.toList.loop bytes i read with
  | case1 i read inside ih =>
    have inside : i < bytes.data.toList.length := inside
    have byte : bytes.get! i = bytes.data.toList[i] := getElem!_pos bytes.data i inside
    rw [ih, List.drop_eq_getElem_cons inside, byte, List.reverse_cons, List.append_assoc]
    rfl
  | case2 i read outside =>
    have passed : bytes.data.toList.length ≤ i := Nat.le_of_not_lt outside
    rw [List.drop_of_length_le passed, List.append_nil]

theorem utf8_inj {s t : String} (same : s.toUTF8.toList = t.toUTF8.toList) : s = t := by
  rw [ByteArray.toList, ByteArray.toList, toList_loop, toList_loop] at same
  have data : s.toUTF8.data = t.toUTF8.data := Array.toList_inj.1 same
  exact String.toByteArray_inj.1 (ByteArray.ext data)

end Bytes

theorem members_eq_of_perm {α : Type} {l l' : List (String × α)}
    (keys : l.map Prod.fst = l'.map Prod.fst) (nodup : (l.map Prod.fst).Nodup) (perm : l.Perm l') :
    l = l' := by
  induction l generalizing l' with
  | nil => exact (List.nil_perm.1 perm).symm
  | cons e rest ih =>
    cases l' with
    | nil => cases keys
    | cons e' rest' =>
      obtain ⟨-, tail⟩ := List.cons.inj keys
      obtain ⟨fresh, nodup⟩ := List.nodup_cons.1 nodup
      have same : e = e' := by
        rcases List.mem_cons.1 (perm.subset List.mem_cons_self) with same | later
        · exact same
        · exact absurd (tail ▸ List.mem_map_of_mem later) fresh
      subst same
      rw [ih tail nodup ((List.perm_cons e).1 perm)]

theorem sorted_inj {l l' : List (String × Document)} (keys : l.map Prod.fst = l'.map Prod.fst)
    (nodup : (l.map Prod.fst).Nodup) (same : l.mergeSort byKey = l'.mergeSort byKey) : l = l' :=
  members_eq_of_perm keys nodup
    ((List.mergeSort_perm l byKey).symm.trans (same ▸ List.mergeSort_perm l' byKey))

end LiquidityPools.Document
