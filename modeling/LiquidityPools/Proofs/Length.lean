import Mathlib.Algebra.Order.BigOperators.Group.List
import Mathlib.Algebra.Order.Group.Nat
import LiquidityPools.Proofs.Acceptance
import LiquidityPools.Proofs.Snapshot

/-!
How long canonical texts are. The text of an array or of an object takes as many bytes as its items
or members do, in whatever order they stand. So a store's own snapshot is no longer than any
snapshot that states the same store and leaves nothing out: that one has the same entries, and
perhaps more besides.
-/

namespace LiquidityPools

namespace Document

def extent (chars : List Char) : Nat := (chars.map Char.utf8Size).sum

theorem extent_cons (c : Char) (rest : List Char) :
    extent (c :: rest) = c.utf8Size + extent rest := by
  rw [extent, List.map_cons, List.sum_cons]
  rfl

theorem extent_append (front back : List Char) :
    extent (front ++ back) = extent front + extent back := by
  rw [extent, List.map_append, List.sum_append]
  rfl

theorem size_utf8Encode (chars : List Char) : chars.utf8Encode.size = extent chars := by
  induction chars with
  | nil => rfl
  | cons c rest ih =>
    rw [List.utf8Encode_cons, ByteArray.size_append, List.utf8Encode_singleton,
      List.size_toByteArray, String.length_utf8EncodeChar, ih, extent_cons]

def size (d : Document) : Nat := extent d.write

theorem length_toText (d : Document) : d.toText.toUTF8.toList.length = d.size := by
  have whole : d.toText.toUTF8.toList = d.toText.toUTF8.data.toList := by
    rw [ByteArray.toList, toList_loop]
    rfl
  have encoded : d.toText.toUTF8 = d.write.utf8Encode := String.toByteArray_ofList
  rw [whole, Array.length_toList, encoded]
  exact size_utf8Encode d.write

def itemSize (item : Document) : Nat := item.size + 1

def memberSize (member : String × Document) : Nat :=
  extent (writeText member.1) + member.2.size + 2

theorem extent_writeItems (items : List Document) :
    extent (writeItems items) = (items.map itemSize).sum + 1 := by
  induction items with
  | nil => rfl
  | cons item rest ih =>
    have comma : ','.utf8Size = 1 := rfl
    rw [writeItems, List.cons_append, extent_cons, extent_append, ih, comma, List.map_cons,
      List.sum_cons, itemSize, size]
    omega

theorem extent_writeMembers (members : List (String × Document)) :
    extent (writeMembers members) = (members.map memberSize).sum + 1 := by
  induction members with
  | nil => rfl
  | cons member rest ih =>
    obtain ⟨key, value⟩ := member
    have comma : ','.utf8Size = 1 := rfl
    have colon : ':'.utf8Size = 1 := rfl
    simp only [writeMembers, List.cons_append, List.append_assoc, extent_cons, extent_append, ih,
      comma, colon, List.map_cons, List.sum_cons, memberSize, size]
    omega

theorem size_array (items : List Document) :
    (array items).size = 1 + max 1 (items.map itemSize).sum := by
  cases items with
  | nil => rfl
  | cons item rest =>
    have bracket : '['.utf8Size = 1 := rfl
    rw [size, write, List.cons_append, extent_cons, extent_append, extent_writeItems, bracket,
      List.map_cons, List.sum_cons, itemSize, size]
    omega

theorem size_object (members : List (String × Document)) :
    (object members).size = 1 + max 1 (members.map memberSize).sum := by
  cases members with
  | nil => rfl
  | cons member rest =>
    obtain ⟨key, value⟩ := member
    have brace : '\x7b'.utf8Size = 1 := rfl
    have colon : ':'.utf8Size = 1 := rfl
    simp only [size, write, List.cons_append, List.append_assoc, extent_cons, extent_append,
      extent_writeMembers, brace, colon, List.map_cons, List.sum_cons, memberSize]
    omega

theorem size_array_le {items others : List Document}
    (each : List.Forall₂ (fun d e => d.size ≤ e.size) items others) :
    (array items).size ≤ (array others).size := by
  have below : List.Forall₂ (· ≤ ·) (items.map itemSize) (others.map itemSize) := by
    rw [List.forall₂_map_left_iff, List.forall₂_map_right_iff]
    exact each.imp fun _ _ => Nat.succ_le_succ
  rw [size_array, size_array]
  exact Nat.add_le_add_left (max_le_max_left 1 below.sum_le_sum) 1

theorem size_array_perm {items others : List Document} (perm : items.Perm others) :
    (array items).size = (array others).size := by
  rw [size_array, size_array, (perm.map itemSize).sum_eq]

theorem size_object_perm {members others : List (String × Document)} (perm : members.Perm others) :
    (object members).size = (object others).size := by
  rw [size_object, size_object, (perm.map memberSize).sum_eq]

theorem size_object_le {members others : List (String × Document)}
    (once : (members.map Prod.fst).Nodup)
    (each : ∀ m ∈ members, ∃ d, (m.1, d) ∈ others ∧ m.2.size ≤ d.size) :
    (object members).size ≤ (object others).size := by
  choose! longer found above using each
  have keys : (members.map fun m => (m.1, longer m)).map Prod.fst = members.map Prod.fst := by
    rw [List.map_map]
    rfl
  have within : (members.map fun m => (m.1, longer m)).Subperm others := by
    refine List.subperm_of_subset ((keys ▸ once).of_map) ?_
    rintro _ member
    obtain ⟨m, there, rfl⟩ := List.mem_map.1 member
    exact found m there
  have first : (members.map memberSize).sum ≤
      ((members.map fun m => (m.1, longer m)).map memberSize).sum := by
    rw [List.map_map]
    refine List.sum_le_sum fun m there => ?_
    exact Nat.add_le_add_right (Nat.add_le_add_left (above m there) _) 2
  have second : ((members.map fun m => (m.1, longer m)).map memberSize).sum ≤
      (others.map memberSize).sum := by
    obtain ⟨part, perm, sub⟩ := within
    rw [← (perm.map memberSize).sum_eq]
    exact (sub.map memberSize).sum_le_sum fun _ _ => Nat.zero_le _
  rw [size_object, size_object]
  exact Nat.add_le_add_left (max_le_max_left 1 (first.trans second)) 1

end Document

namespace Snapshot

open Document (ofValue? byKey)
open Canonical (Becomes)
open Value (field?)

variable {fields : List (Value × Value)} {key : String} {value : Value} {d : Document}

theorem exists_member {members : List (String × Document)}
    (become : List.Forall₂ Becomes fields members) (found : field? key fields = some value) :
    ∃ d, (key, d) ∈ members ∧ ofValue? value = some d := by
  induction become with
  | nil => cases found
  | @cons e m _ _ becomes _ ih =>
    obtain ⟨name, held⟩ := e
    obtain ⟨rfl, form⟩ := becomes
    rw [field?] at found
    split at found
    next same =>
      cases found
      exact ⟨m.2, same ▸ .head _, form⟩
    next =>
      obtain ⟨d, there, form⟩ := ih found
      exact ⟨d, .tail _ there, form⟩

def Covers (key : String) (fields : List (Value × Value)) (d : Document) : Prop :=
  ∃ v, field? key fields = some v ∧ ∀ e, ofValue? v = some e → d.size ≤ e.size

theorem covers_of_form (found : field? key fields = some value) (form : ofValue? value = some d) :
    Covers key fields d := by
  refine ⟨value, found, fun e form' => ?_⟩
  cases form.symm.trans form'
  exact Nat.le_refl _

theorem size_fieldsDocument (members : List (String × Document)) :
    (fieldsDocument members).size = 1 + max 1 (members.map Document.memberSize).sum :=
  (Document.size_object_perm (List.mergeSort_perm members byKey)).trans
    (Document.size_object members)

theorem size_fieldsDocument_le {members : List (String × Document)}
    (formed : ofValue? (.map fields) = some d) (once : (members.map Prod.fst).Nodup)
    (each : ∀ m ∈ members, Covers m.1 fields m.2) : (fieldsDocument members).size ≤ d.size := by
  obtain ⟨others, formedEntries, rfl⟩ := Option.map_eq_some_iff.1 formed
  have become := Canonical.ofEntries?_eq_some_iff.1 formedEntries
  rw [fieldsDocument, Document.size_object_perm (List.mergeSort_perm members byKey),
    Document.size_object_perm (List.mergeSort_perm others byKey)]
  refine Document.size_object_le once fun m member => ?_
  obtain ⟨v, found, above⟩ := each m member
  obtain ⟨e, there, form⟩ := exists_member become found
  exact ⟨e, there, above e form⟩

def Names (keys : List String) (fields : List (Value × Value)) : Prop :=
  ∀ key ∈ keys, field? key fields ≠ none

/-- A snapshot that leaves out nothing that may be left out; there may be more besides. -/
structure Complete (fields : List (Value × Value)) : Prop where
  parts : Names ["version", "pools", "positions"] fields
  fees : ∀ items entry, field? "pools" fields = some (.list items) → .map entry ∈ items →
    Names ["collected_base_fees", "collected_quote_fees"] entry

theorem names_poolEntry {market : Market} {pool : Pool} {entry : List (Value × Value)}
    (isEntry : poolEntry market pool = .map entry) :
    Names ["collected_base_fees", "collected_quote_fees"] entry := by
  have base : field? "collected_base_fees" entry = some (.int pool.baseFees) := by
    cases isEntry
    rfl
  have quote : field? "collected_quote_fees" entry = some (.int pool.quoteFees) := by
    cases isEntry
    rfl
  simp [Names, base, quote]

theorem complete_ofStore (s : Store) :
    Complete [(.str "version", .int currentVersion), (.str "pools", .list (poolEntries s)),
      (.str "positions", .list (positionEntries s))] where
  parts := by simp [Names, field?]
  fees items entry found member := by
    have listed : poolEntries s = items := Value.list.inj (Option.some.inj found)
    obtain ⟨e, -, isEntry⟩ := List.mem_map.1 (listed ▸ member)
    exact names_poolEntry isEntry

section Entries

theorem CountOrZero.covers {n : Nat} (count : CountOrZero key fields n)
    (named : field? key fields ≠ none) : Covers key fields (.int n) :=
  count.elim (covers_of_form · rfl) fun absent => absurd absent.1 named

theorem size_poolDocument_le {market : Market} {pool : Pool}
    (stated : PoolFields fields market pool)
    (fees : Names ["collected_base_fees", "collected_quote_fees"] fields)
    (formed : ofValue? (.map fields) = some d) : (poolDocument market pool).size ≤ d.size := by
  refine size_fieldsDocument_le formed (by simp) ?_
  simp only [List.forall_mem_cons, List.not_mem_nil, false_implies, implies_true, and_true]
  exact ⟨covers_of_form stated.base rfl, covers_of_form stated.quote rfl,
    covers_of_form stated.baseReserve rfl, covers_of_form stated.quoteReserve rfl,
    stated.baseFees.covers (fees _ (by simp)), stated.quoteFees.covers (fees _ (by simp))⟩

theorem size_positionDocument_le {textLength : Nat} {market : Market} {provider : Account}
    {position : Position} (stated : PositionFields textLength fields market provider position)
    (formed : ofValue? (.map fields) = some d) :
    (positionDocument market provider position).size ≤ d.size := by
  refine size_fieldsDocument_le formed (by simp) ?_
  simp only [List.forall_mem_cons, List.not_mem_nil, false_implies, implies_true, and_true]
  exact ⟨covers_of_form stated.base rfl, covers_of_form stated.quote rfl,
    covers_of_form stated.provider rfl, covers_of_form stated.baseContributed rfl,
    covers_of_form stated.quoteContributed rfl⟩

section Items

variable {α : Type} {form : α → Document} {states : Value → α → Prop} {items : List Value}
  {stated listed : List α}

theorem forall₂_size_le {ds : List Document} (each : List.Forall₂ states items stated)
    (above : ∀ entry ∈ items, ∀ a d, states entry a → ofValue? entry = some d →
      (form a).size ≤ d.size) (forms : List.Forall₂ (fun v d => ofValue? v = some d) items ds) :
    List.Forall₂ (fun d e => d.size ≤ e.size) (stated.map form) ds := by
  induction each generalizing ds with
  | nil =>
    cases forms
    exact .nil
  | cons first _ ih =>
    cases forms with
    | cons here rest =>
      exact .cons (above _ (.head _) _ _ first here)
        (ih (fun entry member => above entry (.tail _ member)) rest)

theorem covers_lists (named : field? key fields ≠ none) (lists : Lists key fields items)
    (each : List.Forall₂ states items stated)
    (above : ∀ entry ∈ items, ∀ a d, states entry a → ofValue? entry = some d →
      (form a).size ≤ d.size) (perm : listed.Perm stated) :
    Covers key fields (.array (listed.map form)) := by
  rcases lists with found | ⟨none | null, rfl⟩
  · refine ⟨_, found, fun e formed => ?_⟩
    obtain ⟨ds, formedItems, rfl⟩ := Option.map_eq_some_iff.1 formed
    rw [Document.size_array_perm (perm.map form)]
    exact Document.size_array_le
      (forall₂_size_le each above (Canonical.ofItems?_eq_some_iff.1 formedItems))
  · exact absurd none named
  · cases each
    obtain rfl := perm.eq_nil
    refine ⟨_, null, fun e formed => ?_⟩
    cases formed
    -- two brackets against four letters
    exact Nat.le_add_right 2 2

end Items

end Entries

variable {s : Store} {l : Limits} {pools : List (Market × Pool)}
  {positions : List ((Market × Account) × Position)}

theorem Holds.perm_pools (holds : Holds s pools positions) (once : (pools.map Prod.fst).Nodup) :
    s.pools.entries.Perm pools := by
  have nodup : s.pools.entries.Nodup := (Table.nodup_of_sorted s.pools.sorted_keys).of_map
  rw [List.perm_ext_iff_of_nodup nodup once.of_map]
  exact fun e => Table.get?_eq_some_iff.symm.trans (holds.pool? e.1 e.2)

theorem Holds.perm_positions (holds : Holds s pools positions)
    (once : (positions.map Prod.fst).Nodup) : s.positions.entries.Perm positions := by
  have nodup : s.positions.entries.Nodup := (Table.nodup_of_sorted s.positions.sorted_keys).of_map
  rw [List.perm_ext_iff_of_nodup nodup once.of_map]
  exact fun e => Table.get?_eq_some_iff.symm.trans (holds.position? e.1.1 e.1.2 e.2)

/-- A store's own snapshot is no longer than a complete one that states the same. -/
theorem length_bytesOf_le {data : List UInt8} (describes : Describes l fields pools positions)
    (holds : Holds s pools positions) (complete : Complete fields)
    (encoded : Canonical.bytes (.map fields) = .ok data) :
    (bytesOf s currentVersion).length ≤ data.length := by
  obtain ⟨d, formed, encoded'⟩ := Canonical.exists_form describes.encodable
  cases encoded.symm.trans encoded'
  obtain ⟨poolItems, poolsListed, -, statesPools⟩ := describes.statesPools
  obtain ⟨positionItems, positionsListed, -, statesPositions⟩ := describes.statesPositions
  have placed (market : Market) (provider : Account)
      (held : s.hasPosition market provider = true) : s.hasPool market = true := by
    obtain ⟨position, member⟩ := Store.hasPosition_iff.1 held
    exact holds.hasPool_iff.2
      (describes.placed _ ((holds.perm_positions describes.providersOnce).mem_iff.1 member))
  have listed := Store.entries_positions holds.coherent placed
  have version : field? "version" fields = some (.int 1) :=
    describes.version.resolve_left (complete.parts _ (by simp))
  rw [bytesOf, Document.length_toText, Document.length_toText]
  refine size_fieldsDocument_le formed (by simp) ?_
  simp only [List.forall_mem_cons, List.not_mem_nil, false_implies, implies_true, and_true]
  refine ⟨covers_of_form version rfl, ?_, ?_⟩
  · refine covers_lists (complete.parts _ (by simp)) poolsListed statesPools ?_
      (holds.perm_pools describes.marketsOnce)
    rintro entry member stated d ⟨entryFields, rfl, is⟩ form
    refine size_poolDocument_le is ?_ form
    rcases poolsListed with found | ⟨-, rfl⟩
    · exact complete.fees _ _ found member
    · cases member
  · refine covers_lists (complete.parts _ (by simp)) positionsListed statesPositions ?_
      (listed ▸ holds.perm_positions describes.providersOnce)
    rintro entry member stated d ⟨entryFields, rfl, is⟩ form
    exact size_positionDocument_le is form

end Snapshot

end LiquidityPools
