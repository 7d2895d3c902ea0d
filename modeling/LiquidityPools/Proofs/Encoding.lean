import Mathlib.Data.List.Nodup
import Mathlib.Data.List.Perm.Basic
import LiquidityPools.Proofs.Canonical
import LiquidityPools.Proofs.Quote

/-!
What a canonical text tells. Data has one exactly if it is made of truth values, integers and texts,
in lists, tuples and maps under texts; all else is refused for its type, however deep it stands. Two
pieces of such data have the same canonical text exactly if they are equal up to the order in which
maps hold their entries and up to which sequences are lists and which are tuples.
-/

namespace LiquidityPools

namespace Value

def items? : Value → Option (List Value)
  | .list items | .tuple items => some items
  | _ => none

/-- Equal up to the order of the entries of maps, at any depth, and up to which sequences are lists
and which are tuples. -/
inductive Same : Value → Value → Prop
  | null : Same .null .null
  | bool (b : Bool) : Same (.bool b) (.bool b)
  | int (n : Int) : Same (.int n) (.int n)
  | str (s : String) : Same (.str s) (.str s)
  | items {v w : Value} {items others : List Value} (left : v.items? = some items)
    (right : w.items? = some others) (each : List.Forall₂ Same items others) : Same v w
  | map {entries others reordered : List (Value × Value)} (order : others.Perm reordered)
    (keys : entries.map Prod.fst = reordered.map Prod.fst)
    (values : List.Forall₂ Same (entries.map Prod.snd) (reordered.map Prod.snd)) :
    Same (.map entries) (.map others)

/-- What stands somewhere in a value: the value itself, and what stands in its items, keys and
values. -/
inductive Part (x : Value) : Value → Prop
  | self : Part x x
  | item {v item : Value} {items : List Value} (listed : v.items? = some items)
      (member : item ∈ items)
    (part : Part x item) : Part x v
  | key {entries : List (Value × Value)} {e : Value × Value} (member : e ∈ entries)
      (part : Part x e.1) :
    Part x (.map entries)
  | value {entries : List (Value × Value)} {e : Value × Value} (member : e ∈ entries)
      (part : Part x e.2) :
    Part x (.map entries)

def KeysOnce (v : Value) : Prop :=
  ∀ entries, Part (.map entries) v → (entries.map Prod.fst).Nodup

def Unfit : Value → Prop
  | .float _ | .date _ | .moment _ | .bytes _ => True
  | .map entries => ∃ e ∈ entries, ∀ key, e.1 ≠ .str key
  | _ => False

theorem Part.trans {x v w : Value} (inner : Part x v) (outer : Part v w) : Part x w := by
  induction outer with
  | self => exact inner
  | item listed member _ ih => exact .item listed member ih
  | key member _ ih => exact .key member ih
  | value member _ ih => exact .value member ih

theorem KeysOnce.part {v w : Value} (once : KeysOnce w) (part : Part v w) : KeysOnce v :=
  fun entries inner => once entries (inner.trans part)

theorem keysOnce_of_atom {v : Value} (bare : v.items? = none)
    (noMap : ∀ entries, v ≠ .map entries) :
    KeysOnce v := by
  intro entries part
  cases part with
  | self => exact absurd rfl (noMap entries)
  | item listed => cases bare.symm.trans listed
  | key | value => exact absurd rfl (noMap _)

theorem keysOnce_of_items {v : Value} {items : List Value} (listed : v.items? = some items)
    (each : ∀ item ∈ items, KeysOnce item) : KeysOnce v := by
  intro entries part
  cases part with
  | self => cases listed
  | item listed' member part =>
    cases listed.symm.trans listed'
    exact each _ member entries part
  | key | value => cases listed

theorem keysOnce_map {entries : List (Value × Value)} (once : (entries.map Prod.fst).Nodup)
    (each : ∀ e ∈ entries, KeysOnce e.1 ∧ KeysOnce e.2) : KeysOnce (.map entries) := by
  intro inner part
  cases part with
  | self => exact once
  | item listed => cases listed
  | key member part => exact (each _ member).1 inner part
  | value member part => exact (each _ member).2 inner part

end Value

namespace Canonical

open Document (ofValue? ofItems? ofEntries?)

inductive Encodable : Value → Prop
  | null : Encodable .null
  | bool (b : Bool) : Encodable (.bool b)
  | int (n : Int) : Encodable (.int n)
  | str (s : String) : Encodable (.str s)
  | list {items : List Value} (each : ∀ item ∈ items, Encodable item) : Encodable (.list items)
  | tuple {items : List Value} (each : ∀ item ∈ items, Encodable item) : Encodable (.tuple items)
  | map {entries : List (Value × Value)} (keys : ∀ e ∈ entries, ∃ key, e.1 = .str key)
    (each : ∀ e ∈ entries, Encodable e.2) : Encodable (.map entries)

theorem checkItems_cons (item : Value) (rest : List Value) :
    checkItems (item :: rest) = .ok () ↔ check item = .ok () ∧ checkItems rest = .ok () := by
  rw [checkItems, Except.bind_eq_ok_iff]
  exact Unique.exists_iff

theorem checkEntries_cons (key : String) (value : Value) (rest : List (Value × Value)) :
    checkEntries ((.str key, value) :: rest) = .ok () ↔
      check value = .ok () ∧ checkEntries rest = .ok () := by
  rw [checkEntries, Except.bind_eq_ok_iff]
  exact Unique.exists_iff

theorem isSome_ofItems?_cons (item : Value) (rest : List Value) :
    (ofItems? (item :: rest)).isSome = true ↔
      (ofValue? item).isSome = true ∧ (ofItems? rest).isSome = true := by
  rw [ofItems?]
  cases ofValue? item <;> cases ofItems? rest <;> simp

theorem isSome_ofEntries?_cons (key : String) (value : Value) (rest : List (Value × Value)) :
    (ofEntries? ((.str key, value) :: rest)).isSome = true ↔
      (ofValue? value).isSome = true ∧ (ofEntries? rest).isSome = true := by
  rw [ofEntries?]
  cases ofValue? value <;> cases ofEntries? rest <;> simp

mutual

/-- Floats and keys are found by the check, all else that has no text when the normal form is
built. -/
theorem formed_iff : (v : Value) → check v = .ok () ∧ (ofValue? v).isSome = true ↔ Encodable v
  | .null => ⟨fun _ => .null, fun _ => ⟨rfl, rfl⟩⟩
  | .bool b => ⟨fun _ => .bool b, fun _ => ⟨rfl, rfl⟩⟩
  | .int n => ⟨fun _ => .int n, fun _ => ⟨rfl, rfl⟩⟩
  | .str s => ⟨fun _ => .str s, fun _ => ⟨rfl, rfl⟩⟩
  | .float _ => ⟨fun formed => (nomatch formed.1), nofun⟩
  | .date _ => ⟨fun formed => (nomatch formed.2), nofun⟩
  | .moment _ => ⟨fun formed => (nomatch formed.2), nofun⟩
  | .bytes _ => ⟨fun formed => (nomatch formed.2), nofun⟩
  | .list items => by
    rw [check, ofValue?, Option.isSome_map, formedItems_iff items]
    refine ⟨.list, fun encodable => ?_⟩
    cases encodable with
    | list each => exact each
  | .tuple items => by
    rw [check, ofValue?, Option.isSome_map, formedItems_iff items]
    refine ⟨.tuple, fun encodable => ?_⟩
    cases encodable with
    | tuple each => exact each
  | .map entries => by
    rw [check, ofValue?, Option.isSome_map, formedEntries_iff entries]
    refine ⟨fun formed => .map (fun e member => (formed e member).1) fun e member =>
      (formed e member).2, fun encodable => ?_⟩
    cases encodable with
    | map keys each => exact fun e member => ⟨keys e member, each e member⟩

theorem formedItems_iff : (items : List Value) →
    (checkItems items = .ok () ∧ (ofItems? items).isSome = true ↔ ∀ item ∈ items, Encodable item)
  | [] => ⟨fun _ => nofun, fun _ => ⟨rfl, rfl⟩⟩
  | item :: rest => by
    rw [List.forall_mem_cons, ← formed_iff item, ← formedItems_iff rest, checkItems_cons,
      isSome_ofItems?_cons]
    exact and_and_and_comm

theorem formedEntries_iff : (entries : List (Value × Value)) →
    (checkEntries entries = .ok () ∧ (ofEntries? entries).isSome = true ↔
      ∀ e ∈ entries, (∃ key, e.1 = .str key) ∧ Encodable e.2)
  | [] => ⟨fun _ => nofun, fun _ => ⟨rfl, rfl⟩⟩
  | (key, value) :: rest => by
    rw [List.forall_mem_cons, ← formed_iff value, ← formedEntries_iff rest]
    cases key with
    | str key =>
      have isText : ∃ text, Value.str key = .str text := ⟨key, rfl⟩
      rw [checkEntries_cons, isSome_ofEntries?_cons, and_iff_right isText]
      exact and_and_and_comm
    | _ =>
      constructor
      · rintro ⟨⟨⟩, _⟩
      · rintro ⟨⟨⟨_, ⟨⟩⟩, _⟩, _⟩

end

theorem exists_bytes_iff {v : Value} : (∃ data, bytes v = .ok data) ↔ Encodable v := by
  rw [← formed_iff]
  simp only [bytes, text, document, Except.bind_eq_ok_iff]
  cases check v with
  | error fault => simp
  | ok checked => cases ofValue? v <;> simp [pure, Except.pure]

mutual

theorem failsOnly_check : (v : Value) → Except.FailsOnly (check v) (·.kind = .wrongType)
  | .float _ => .error rfl
  | .list items => failsOnly_checkItems items
  | .tuple items => failsOnly_checkItems items
  | .map entries => failsOnly_checkEntries entries
  | .null | .bool _ | .int _ | .str _ | .date _ | .moment _ | .bytes _ => .ok ()

theorem failsOnly_checkItems :
    (items : List Value) → Except.FailsOnly (checkItems items) (·.kind = .wrongType)
  | [] => .ok ()
  | item :: rest => (failsOnly_check item).bind fun _ => failsOnly_checkItems rest

theorem failsOnly_checkEntries : (entries : List (Value × Value)) →
    Except.FailsOnly (checkEntries entries) (·.kind = .wrongType)
  | [] => .ok ()
  | (key, value) :: rest => by
    cases key with
    | str key => exact (failsOnly_check value).bind fun _ => failsOnly_checkEntries rest
    | _ => exact .error rfl

end

theorem failsOnly_bytes (v : Value) : Except.FailsOnly (bytes v) (·.kind = .wrongType) := by
  have formed : Except.FailsOnly (document v) (·.kind = .wrongType) := by
    refine (failsOnly_check v).bind fun _ => ?_
    cases ofValue? v with
    | none => exact .error rfl
    | some d => exact .ok d
  have written : Except.FailsOnly (text v) (·.kind = .wrongType) :=
    formed.bind fun d => .ok d.toText
  exact written.bind fun s => .ok s.toUTF8.toList

section Parts

variable {v x : Value}

theorem Encodable.of_items {items : List Value} (encodable : Encodable v)
    (listed : v.items? = some items) :
    ∀ item ∈ items, Encodable item := by
  cases encodable with
  | list each | tuple each =>
    cases listed
    exact each
  | _ => cases listed

theorem Encodable.part (encodable : Encodable v) (part : x.Part v) : Encodable x := by
  induction part with
  | self => exact encodable
  | item listed member _ ih => exact ih (encodable.of_items listed _ member)
  | key member _ ih =>
    cases encodable with
    | map keys each =>
      obtain ⟨key, same⟩ := keys _ member
      exact ih (same ▸ .str key)
  | value member _ ih =>
    cases encodable with
    | map keys each => exact ih (each _ member)

theorem Encodable.not_unfit (encodable : Encodable v) : ¬v.Unfit := by
  cases encodable with
  | map keys _ =>
    rintro ⟨e, member, noText⟩
    obtain ⟨key, same⟩ := keys e member
    exact noText key same
  | _ => exact id

theorem refused_of_unfit (part : x.Part v) (unfit : x.Unfit) :
    ∃ fault, bytes v = .error fault ∧ fault.kind = .wrongType := by
  cases encoded : bytes v with
  | error fault => exact ⟨fault, rfl, failsOnly_bytes v fault encoded⟩
  | ok data =>
    have encodable := exists_bytes_iff.1 ⟨data, encoded⟩
    exact absurd unfit (encodable.part part).not_unfit

end Parts

section Forms

def Becomes (e : Value × Value) (m : String × Document) : Prop :=
  e.1 = .str m.1 ∧ ofValue? e.2 = some m.2

theorem ofItems?_eq_some_iff {items : List Value} {ds : List Document} :
    ofItems? items = some ds ↔ List.Forall₂ (fun v d => ofValue? v = some d) items ds := by
  induction items generalizing ds with
  | nil => simp [ofItems?, eq_comm]
  | cons item rest ih =>
    rw [List.forall₂_cons_left_iff, ofItems?]
    simp only [bind, pure, Option.bind_eq_some_iff, Option.some.injEq, ih, eq_comm (b := ds)]
    grind

theorem ofEntries?_eq_some_iff {entries : List (Value × Value)} {ms : List (String × Document)} :
    ofEntries? entries = some ms ↔ List.Forall₂ Becomes entries ms := by
  induction entries generalizing ms with
  | nil => simp [ofEntries?, eq_comm]
  | cons e rest ih =>
    obtain ⟨key, value⟩ := e
    rw [List.forall₂_cons_left_iff]
    cases key with
    | str key =>
      simp only [ofEntries?, bind, pure, Option.bind_eq_some_iff, Option.some.injEq, ih, Becomes]
      grind
    | _ => simp [ofEntries?, Becomes]

/-- What a value with this normal form is. -/
def HasForm (v : Value) : Document → Prop
  | .null => v = .null
  | .bool b => v = .bool b
  | .int n => v = .int n
  | .text s => v = .str s
  | .array ds =>
    ∃ items, v.items? = some items ∧ List.Forall₂ (fun v d => ofValue? v = some d) items ds
  | .object sorted => ∃ entries ms, v = .map entries ∧ List.Forall₂ Becomes entries ms ∧
    ms.mergeSort Document.byKey = sorted

theorem ofValue?_of_items {v : Value} {items : List Value} (listed : v.items? = some items) :
    ofValue? v = (ofItems? items).map .array := by
  cases v <;> cases listed <;> rfl

theorem ofValue?_eq_some_iff {v : Value} {d : Document} : ofValue? v = some d ↔ HasForm v d := by
  cases v <;> cases d <;>
    simp [ofValue?, HasForm, Value.items?, ofItems?_eq_some_iff, ofEntries?_eq_some_iff]

end Forms

section Orders

variable {entries : List (Value × Value)} {ms ms' : List (String × Document)}

theorem keys_of_becomes (become : List.Forall₂ Becomes entries ms) :
    entries.map Prod.fst = (ms.map Prod.fst).map .str := by
  induction become with
  | nil => rfl
  | cons first _ ih => rw [List.map_cons, first.1, ih]; rfl

theorem values_of_becomes (become : List.Forall₂ Becomes entries ms) :
    List.Forall₂ (fun v d => ofValue? v = some d) (entries.map Prod.snd) (ms.map Prod.snd) := by
  rw [List.forall₂_map_left_iff, List.forall₂_map_right_iff]
  exact become.imp fun _ _ becomes => becomes.2

theorem pairwise_sorted (ms : List (String × Document)) :
    (ms.mergeSort Document.byKey).Pairwise fun m n => Document.byKey m n = true := by
  refine List.pairwise_mergeSort (fun m n o first second => ?_) (fun m n => ?_) ms
  · show (compare m.1 o.1).isLE = true
    exact Std.TransCmp.isLE_trans first second
  · have swapped : compare n.1 m.1 = (compare m.1 n.1).swap := Std.OrientedCmp.eq_swap
    rw [Document.byKey, Document.byKey, swapped]
    cases compare m.1 n.1 <;> rfl

theorem sorted_eq_of_perm (once : (ms.map Prod.fst).Nodup) (perm : ms.Perm ms') :
    ms.mergeSort Document.byKey = ms'.mergeSort Document.byKey := by
  have same :=
    (List.mergeSort_perm ms Document.byKey).trans
      (perm.trans (List.mergeSort_perm ms' Document.byKey).symm)
  refine same.eq_of_pairwise (fun m n member member' below above => ?_) (pairwise_sorted ms)
    (pairwise_sorted ms')
  have level : compare m.1 n.1 = .eq := Std.OrientedCmp.isLE_antisymm below above
  have keys : m.1 = n.1 := Std.LawfulEqCmp.eq_of_compare level
  exact List.inj_on_of_nodup_map once ((List.mergeSort_perm ms _).subset member)
    (perm.symm.subset ((List.mergeSort_perm ms' _).subset member')) keys

end Orders

section Sameness

variable {v w : Value} {d e : Document} {items others : List Value} {ds es : List Document}

theorem forall₂_same
    (each : ∀ v ∈ items, ∀ w d, ofValue? v = some d → ofValue? w = some d → v.Same w)
    (formed : List.Forall₂ (fun v d => ofValue? v = some d) items ds)
    (formed' : List.Forall₂ (fun v d => ofValue? v = some d) others ds) :
    List.Forall₂ Value.Same items others := by
  induction formed generalizing others with
  | nil =>
    cases formed'
    exact .nil
  | cons first _ ih =>
    cases formed' with
    | cons first' rest' =>
      exact .cons (each _ List.mem_cons_self _ _ first first')
        (ih (fun v member => each v (List.mem_cons_of_mem _ member)) rest')

theorem forms_eq
    (each : ∀ v ∈ items, ∀ w d e, v.Same w → ofValue? v = some d → ofValue? w = some e → d = e)
    (same : List.Forall₂ Value.Same items others)
    (formed : List.Forall₂ (fun v d => ofValue? v = some d) items ds)
    (formed' : List.Forall₂ (fun v d => ofValue? v = some d) others es) : ds = es := by
  induction same generalizing ds es with
  | nil =>
    cases formed
    cases formed'
    rfl
  | cons first _ ih =>
    cases formed with
    | cons here rest =>
      cases formed' with
      | cons here' rest' =>
        rw [each _ List.mem_cons_self _ _ _ first here here',
          ih (fun v member => each v (List.mem_cons_of_mem _ member)) rest rest']

theorem same_of_form (encodable : Encodable v) (formed : ofValue? v = some d)
    (formed' : ofValue? w = some d) :
    v.Same w := by
  induction encodable generalizing w d with
  | null =>
    cases formed
    rw [show w = .null from ofValue?_eq_some_iff.1 formed']
    exact .null
  | bool b =>
    cases formed
    rw [show w = .bool b from ofValue?_eq_some_iff.1 formed']
    exact .bool b
  | int n =>
    cases formed
    rw [show w = .int n from ofValue?_eq_some_iff.1 formed']
    exact .int n
  | str s =>
    cases formed
    rw [show w = .str s from ofValue?_eq_some_iff.1 formed']
    exact .str s
  | list _ ih | tuple _ ih =>
    obtain ⟨ds, items, rfl⟩ := Option.map_eq_some_iff.1 formed
    obtain ⟨others, listed, formedOthers⟩ := ofValue?_eq_some_iff.1 formed'
    exact .items rfl listed
      (forall₂_same (fun v member _ _ => ih v member) (ofItems?_eq_some_iff.1 items) formedOthers)
  | @map entries _ _ ih =>
    obtain ⟨ms, formedEntries, rfl⟩ := Option.map_eq_some_iff.1 formed
    obtain ⟨others, ms', rfl, become', sorted⟩ := ofValue?_eq_some_iff.1 formed'
    have become := ofEntries?_eq_some_iff.1 formedEntries
    have perm : ms.Perm ms' :=
      (List.mergeSort_perm ms Document.byKey).symm.trans
        (sorted ▸ List.mergeSort_perm ms' Document.byKey)
    obtain ⟨reordered, become'', order⟩ := List.perm_comp_forall₂ perm become'.flip
    refine .map order.symm ((keys_of_becomes become).trans (keys_of_becomes become''.flip).symm)
      (forall₂_same (fun v member w d => ?_) (values_of_becomes become)
        (values_of_becomes become''.flip))
    obtain ⟨e, there, rfl⟩ := List.mem_map.1 member
    exact ih e there

theorem form_eq_of_same (encodable : Encodable v) (once : v.KeysOnce) (same : v.Same w)
    (formed : ofValue? v = some d) (formed' : ofValue? w = some e) : d = e := by
  induction encodable generalizing w d e with
  | null | bool | int | str =>
    cases same with
    | items left => cases left
    | _ => exact Option.some.inj (formed.symm.trans formed')
  | list _ ih | tuple _ ih =>
    obtain ⟨ds, formedItems, rfl⟩ := Option.map_eq_some_iff.1 formed
    cases same with
    | items left right each =>
      cases left
      rw [ofValue?_of_items right] at formed'
      obtain ⟨es, formedOthers, rfl⟩ := Option.map_eq_some_iff.1 formed'
      refine congrArg Document.array (forms_eq (fun v member => ?_) each
        (ofItems?_eq_some_iff.1 formedItems) (ofItems?_eq_some_iff.1 formedOthers))
      exact fun _ _ _ => ih v member (once.part (.item rfl member .self))
  | @map entries _ _ ih =>
    obtain ⟨ms, formedEntries, rfl⟩ := Option.map_eq_some_iff.1 formed
    have become := ofEntries?_eq_some_iff.1 formedEntries
    cases same with
    | items left => cases left
    | @map _ others reordered order keys values =>
      obtain ⟨ms', formedOthers, rfl⟩ := Option.map_eq_some_iff.1 formed'
      -- the members of the other map, in the order of the entries of this one
      obtain ⟨ms'', become'', perm⟩ :=
        List.perm_comp_forall₂ order.symm (ofEntries?_eq_some_iff.1 formedOthers)
      have names : ms.map Prod.fst = ms''.map Prod.fst := by
        refine List.map_injective_iff.2 (fun _ _ => Value.str.inj) ?_
        rw [← keys_of_becomes become, ← keys_of_becomes become'', keys]
      have documents : ms.map Prod.snd = ms''.map Prod.snd := by
        refine forms_eq (fun v member => ?_) values (values_of_becomes become)
          (values_of_becomes become'')
        obtain ⟨e, there, rfl⟩ := List.mem_map.1 member
        exact fun _ _ _ => ih e there (once.part (.value there .self))
      have nodup : (ms.map Prod.fst).Nodup := by
        have fresh := once entries .self
        rw [keys_of_becomes become] at fresh
        exact fresh.of_map
      have equal : ms = ms'' :=
        (List.zip_of_prod rfl documents).trans (List.zip_of_prod names.symm rfl).symm
      rw [sorted_eq_of_perm nodup (equal ▸ perm)]

theorem exists_form (encodable : Encodable v) :
    ∃ d, ofValue? v = some d ∧ bytes v = .ok d.toText.toUTF8.toList := by
  obtain ⟨checked, formed⟩ := (formed_iff v).2 encodable
  obtain ⟨d, formed⟩ := Option.isSome_iff_exists.1 formed
  refine ⟨d, formed, ?_⟩
  rw [bytes, text, document, checked]
  simp only [bind, Except.bind, formed, pure, Except.pure]

/-- Any two pieces of data made of truth values, integers and texts, in lists, tuples and maps under
texts, have canonical bytes, and these are equal exactly if the data is the same up to the order of
entries and the kind of sequences. Data that has a float or bytes in it, or a map under anything but
texts, is refused for its type. -/
theorem bytes_eq_iff_same :
    (∀ v w, Encodable v → Encodable w → v.KeysOnce → w.KeysOnce →
      ∃ data data', bytes v = .ok data ∧ bytes w = .ok data' ∧ (data = data' ↔ v.Same w)) ∧
    ∀ v x : Value, x.Part v → x.Unfit →
      ∃ fault, bytes v = .error fault ∧ fault.kind = .wrongType := by
  refine ⟨fun v w encodable encodable' once _ => ?_, fun v x => refused_of_unfit⟩
  obtain ⟨d, formed, encoded⟩ := exists_form encodable
  obtain ⟨e, formed', encoded'⟩ := exists_form encodable'
  refine ⟨_, _, encoded, encoded', fun equal => ?_, fun same => ?_⟩
  · cases Document.toText_inj (Document.utf8_inj equal)
    exact same_of_form encodable formed formed'
  · rw [form_eq_of_same encodable once same formed formed']

section Example

def shuffled : Value := .map [(.str "b", .list [.int (-1), .null]), (.str "a", .bool true)]

def ordered : Value := .map [(.str "a", .bool true), (.str "b", .tuple [.int (-1), .null])]

theorem bytes_shuffled :
    (∃ data, bytes shuffled = .ok data ∧ bytes ordered = .ok data) ∧
      (∃ data data', bytes (.list [.bool true]) = .ok data ∧ bytes (.list [.int 1]) = .ok data' ∧
        data ≠ data') ∧
      ∃ fault, bytes (.tuple [ordered, .map [(.str "x", .list [.bytes [0]])]]) = .error fault ∧
        fault.kind = .wrongType := by
  have encodable {v : Value} (formed : check v = .ok () ∧ (ofValue? v).isSome = true) :
      Encodable v :=
    (formed_iff v).1 formed
  have text (s : String) : (Value.str s).KeysOnce := Value.keysOnce_of_atom rfl (by simp)
  have truth (b : Bool) : (Value.bool b).KeysOnce := Value.keysOnce_of_atom rfl (by simp)
  have number (n : Int) : (Value.int n).KeysOnce := Value.keysOnce_of_atom rfl (by simp)
  have nothing : Value.null.KeysOnce := Value.keysOnce_of_atom rfl (by simp)
  have items : ∀ item ∈ [Value.int (-1), .null], item.KeysOnce := by simp [number, nothing]
  have list : (Value.list [.int (-1), .null]).KeysOnce := Value.keysOnce_of_items rfl items
  have tuple : (Value.tuple [.int (-1), .null]).KeysOnce := Value.keysOnce_of_items rfl items
  refine ⟨?_, ?_, ?_⟩
  · have same : shuffled.Same ordered :=
      .map (.swap _ _ []) rfl
        (.cons (.items rfl rfl (.cons (.int _) (.cons .null .nil))) (.cons (.bool _) .nil))
    obtain ⟨data, data', encoded, encoded', equal⟩ :=
      bytes_eq_iff_same.1 shuffled ordered (encodable ⟨rfl, rfl⟩) (encodable ⟨rfl, rfl⟩)
        (Value.keysOnce_map (by simp) (by simp [text, truth, list]))
        (Value.keysOnce_map (by simp) (by simp [text, truth, tuple]))
    exact ⟨data, encoded, equal.2 same ▸ encoded'⟩
  · obtain ⟨data, data', encoded, encoded', equal⟩ :=
      bytes_eq_iff_same.1 (.list [.bool true]) (.list [.int 1]) (encodable ⟨rfl, rfl⟩)
        (encodable ⟨rfl, rfl⟩)
        (Value.keysOnce_of_items rfl (by simp [truth]))
          (Value.keysOnce_of_items rfl (by simp [number]))
    refine ⟨data, data', encoded, encoded', fun collide => ?_⟩
    obtain _ | _ | _ | _ | ⟨left, right, each⟩ := equal.1 collide
    cases left
    cases right
    cases each with
    | cons first =>
      obtain _ | _ | _ | _ | ⟨none⟩ := first
      cases none
  · exact bytes_eq_iff_same.2 _ (.bytes [0])
      (.item rfl (.tail _ (.head _)) (.value (.head _) (.item rfl (.head _) .self))) trivial

end Example

end Sameness

end Canonical

end LiquidityPools
