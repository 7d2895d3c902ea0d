import LiquidityPools.Config.Environment
import LiquidityPools.Proofs.Tag

/-!
What settings say and what is made of them. A map of settings, or an environment, makes a
configuration exactly if every setting in it is one of the configuration's own, whatever is left out
being the usual value. A configuration can be written into variables, its integers in decimal and
anything with blanks around it, and is read back from them. What was given for its fields is then
within their bounds.
-/

namespace LiquidityPools

namespace Text

section Stripping

def Trimmed (text : List Char) : Prop :=
  (∀ c ∈ text.head?, isBlank c = false) ∧ ∀ c ∈ text.getLast?, isBlank c = false

def Blank (text : List Char) : Prop := ∀ c ∈ text, isBlank c = true

instance (text : List Char) : Decidable (Blank text) :=
  decidable_of_iff (text.all isBlank = true) List.all_eq_true

variable {before text after : List Char}

theorem strip_between (blank : Blank before) (trimmed : Trimmed text) (blank' : Blank after) :
    strip (before ++ text ++ after) = text := by
  rw [strip, List.append_assoc, List.dropWhile_append_of_pos blank]
  cases text with
  | nil =>
    rw [List.nil_append, ← List.append_nil after, List.dropWhile_append_of_pos blank']
    rfl
  | cons c rest =>
    have first : isBlank c = false := trimmed.1 c rfl
    have kept : ((c :: rest) ++ after).dropWhile isBlank = (c :: rest) ++ after := by
      rw [List.cons_append, List.dropWhile_cons_of_neg (by rw [first]; exact Bool.false_ne_true)]
    have tail : ∀ c ∈ after.reverse, isBlank c = true := fun c member =>
      blank' c (List.mem_reverse.1 member)
    rw [kept, List.reverse_append, List.dropWhile_append_of_pos tail]
    have whole := strip_eq_self trimmed.1 trimmed.2
    rwa [strip, List.dropWhile_cons_of_neg (by rw [first]; exact Bool.false_ne_true)] at whole

theorem strip_blank (blank : Blank text) : strip text = [] := by
  have between : strip (text ++ [] ++ []) = [] := strip_between blank ⟨nofun, nofun⟩ nofun
  rwa [List.append_nil, List.append_nil] at between

end Stripping

section Decimals

theorem digitValue?_of_isDigit {c : Char} (digit : c.isDigit = true) :
    digitValue? c = some (c.toNat - '0'.toNat) := by
  have bounds := Digest.toNat_of_isDigit digit
  have first : zeroCodes.find? (fun z => z ≤ c.toNat && c.toNat < z + 10) = some 0x30 :=
    List.find?_cons_of_pos (by simp only [Bool.and_eq_true, decide_eq_true_eq]; omega)
  rw [digitValue?, first]
  rfl

theorem moreDigits?_of_isDigit {text : List Char}
    (digits : ∀ c ∈ text, c.isDigit = true) (n : Nat) :
    moreDigits? n text = some (Nat.ofDigitChars 10 text n) := by
  induction text generalizing n with
  | nil => rfl
  | cons c rest ih =>
    have digit := digits c List.mem_cons_self
    have plain : ∀ d more, c = '_' → rest = d :: more → False := by
      rintro d more rfl -
      exact absurd digit (by decide)
    rw [moreDigits?.eq_3 _ _ _ plain, digitValue?_of_isDigit digit, Option.bind_some,
      ih fun c member => digits c (List.mem_cons_of_mem _ member)]
    rfl

theorem integer?_of_isDigit {text : List Char} (digits : ∀ c ∈ text, c.isDigit = true)
    (present : text ≠ []) : integer? text = some (Nat.ofDigitChars 10 text 0 : Int) := by
  obtain ⟨c, rest, rfl⟩ := List.exists_cons_of_ne_nil present
  have digit := digits c List.mem_cons_self
  have unsigned (sign : Char) (other : sign.isDigit = false) :
      ∀ more, c :: rest = sign :: more → False := by
    rintro more ⟨⟩
    rw [other] at digit
    cases digit
  have first : 10 * 0 + (c.toNat - '0'.toNat) = c.toNat - '0'.toNat := Nat.zero_add _
  have read : natural? (c :: rest) = some (Nat.ofDigitChars 10 (c :: rest) 0) := by
    rw [natural?, digitValue?_of_isDigit digit, Option.bind_some,
      moreDigits?_of_isDigit fun c member => digits c (List.mem_cons_of_mem _ member),
      Nat.ofDigitChars_cons, first]
  rw [integer?.eq_3 _ (unsigned '+' rfl) (unsigned '-' rfl), read]
  rfl

theorem integer?_toString (n : Nat) : integer? (toString n).toList = some (n : Int) := by
  have spelled : (toString n).toList = Nat.toDigits 10 n := Nat.toList_repr
  rw [spelled, integer?_of_isDigit _ Nat.toDigits_ne_nil, Nat.ofDigitChars_ten_toDigits]
  exact fun c member => Nat.isDigit_of_mem_toDigits (by decide) (by decide) member

theorem trimmed_toString (n : Nat) : Trimmed (toString n).toList := by
  have sharp : ∀ c ∈ (toString n).toList, isBlank c = false := fun c member => by
    have digit := Digest.digit_of_mem_repr member
    have apart : ∀ r ∈ blankRanges, r.2 < 48 ∨ 57 < r.1 := by decide
    rw [← Bool.not_eq_true, isBlank, inRanges_iff]
    rintro ⟨r, listed, low, high⟩
    have := apart r listed
    omega
  exact ⟨fun c first => sharp c (List.mem_of_mem_head? first),
    fun c last => sharp c (List.mem_of_mem_getLast? last)⟩

end Decimals

end Text

namespace Value

variable {key : String} {settings others : List (Value × Value)}

theorem field?_append (key : String) (settings others : List (Value × Value)) :
    field? key (settings ++ others) = (field? key settings).or (field? key others) := by
  fun_induction field? key settings with
  | case1 => rfl
  | case2 => simp [field?]
  | case3 k v rest other ih => simp only [List.cons_append, field?, if_neg other, ih]
  | case4 e rest other ih => rw [List.cons_append, field?.eq_3 _ _ _ other, ih]

theorem length_insertInOrder {value : Value} {values sorted : List Value}
    (done : insertInOrder value values = .ok sorted) : sorted.length = values.length + 1 := by
  induction values generalizing sorted with
  | nil =>
    cases done
    rfl
  | cons other rest ih =>
    obtain ⟨below, -, done⟩ := Except.bind_eq_ok done
    split at done
    · cases done
      rfl
    · obtain ⟨inner, inserted, done⟩ := Except.bind_eq_ok done
      cases done
      rw [List.length_cons, ih inserted, List.length_cons]

theorem inOrder_eq_nil_iff {values : List Value} : inOrder values = .ok [] ↔ values = [] := by
  have lengths (values sorted : List Value) {result : List Value}
      (done : values.foldlM (fun sorted value => insertInOrder value sorted) sorted = .ok result) :
      result.length = sorted.length + values.length := by
    induction values generalizing sorted with
    | nil =>
      cases done
      rfl
    | cons value rest ih =>
      rw [List.foldlM_cons] at done
      obtain ⟨inner, inserted, done⟩ := Except.bind_eq_ok done
      rw [ih inner done, length_insertInOrder inserted, List.length_cons]
      omega
  constructor
  · intro done
    have none := lengths values [] done
    simp only [List.length_nil, Nat.zero_add] at none
    exact List.eq_nil_of_length_eq_zero none.symm
  · rintro rfl
    rfl

end Value

theorem Value.integer_eq_ok_iff {name : String} {value : Value} {n : Int} :
    value.integer name = .ok n ↔ value = .int n := by
  cases value with
  | int m => simp [integer]
  | _ => simp only [integer, reduceCtorEq]

theorem FeeRate.ofInts_eq_ok_iff {n d : Int} {rate : FeeRate} :
    ofInts n d = .ok rate ↔ n = rate.numerator ∧ d = rate.denominator := by
  obtain ⟨numerator, denominator, below⟩ := rate
  unfold ofInts
  split
  next positive =>
    split
    next within =>
      simp only [Except.ok.injEq, FeeRate.mk.injEq]
      omega
    next => simp only [reduceCtorEq, false_iff]; omega
  next => simp only [reduceCtorEq, false_iff]; omega

theorem FeeRate.ofValues_eq_ok_iff {numerator denominator : Value} {rate : FeeRate} :
    ofValues numerator denominator = .ok rate ↔
      numerator = .int rate.numerator ∧ denominator = .int rate.denominator := by
  simp only [ofValues, Except.bind_eq_ok_iff, Value.integer_eq_ok_iff, ofInts_eq_ok_iff]
  constructor
  · rintro ⟨n, rfl, d, rfl, rfl, rfl⟩
    exact ⟨rfl, rfl⟩
  · rintro ⟨rfl, rfl⟩
    exact ⟨_, rfl, _, rfl, rfl, rfl⟩

theorem Amount.widthOf_eq_ok_iff {value : Value}
    {width : { bits : Nat // 0 < bits ∧ bits ≤ widthLimit }} :
    widthOf value = .ok width ↔ value = .int width.1 := by
  obtain ⟨bits, positive, le⟩ := width
  cases value with
  | int n =>
    simp only [widthOf, Value.int.injEq]
    split
    next =>
      split
      next => simp only [Except.ok.injEq, Subtype.mk.injEq]; omega
      next => simp only [reduceCtorEq, false_iff]; omega
    next => simp only [reduceCtorEq, false_iff]; omega
  | _ => simp only [widthOf, reduceCtorEq]

namespace Config

variable {c : Config} {env : Environment} {settings : List (Value × Value)} {key name : String}

section Fields

theorem idOf_eq_ok_iff {value : Value} {id : { id : List UInt8 // id.length = palletIdLength }} :
    idOf value = .ok id ↔ value = .bytes id.1 := by
  obtain ⟨id, length⟩ := id
  cases value with
  | bytes given =>
    simp only [idOf, Value.bytes.injEq]
    split
    next => simp only [Except.ok.injEq, Subtype.mk.injEq]
    next other =>
      simp only [reduceCtorEq, false_iff]
      rintro rfl
      exact other length
  | _ => simp only [idOf, reduceCtorEq]

theorem pageSizeOf_eq_ok_iff {value : Value} {size : { n : Nat // 0 < n }} :
    pageSizeOf value = .ok size ↔ value = .int size.1 := by
  obtain ⟨size, positive⟩ := size
  cases value with
  | int n =>
    show (if h : 0 < n then _ else _) = _ ↔ _
    simp only [Value.int.injEq]
    split
    next => simp only [pure, Except.pure, Except.ok.injEq, Subtype.mk.injEq]; omega
    next => simp only [reduceCtorEq, false_iff]; omega
  | _ => simp only [pageSizeOf, Value.integer, bind, Except.bind, reduceCtorEq]

def batchValue : Option Nat → Value
  | none => .null
  | some n => .int n

theorem batchOf_eq_ok_iff {value : Value} {batch : { batch : Option Nat // ∀ n ∈ batch, 0 < n }} :
    batchOf value = .ok batch ↔ value = batchValue batch.1 := by
  obtain ⟨batch, positive⟩ := batch
  cases value with
  | null => cases batch <;> simp [batchOf, batchValue]
  | int n =>
    simp only [batchOf]
    split
    next =>
      cases batch with
      | none => simp [batchValue]
      | some m =>
        simp only [Except.ok.injEq, Subtype.mk.injEq, Option.some.injEq, batchValue,
          Value.int.injEq]
        omega
    next =>
      cases batch with
      | none => simp [batchValue]
      | some m =>
        have := positive m rfl
        simp only [reduceCtorEq, batchValue, Value.int.injEq, false_iff]
        omega
  | _ => cases batch <;> simp only [batchOf, batchValue, reduceCtorEq]

theorem ofFields_eq_ok_iff {rate : Option FeeRate} {bits id pageSize batch : Value} :
    ofFields rate bits id pageSize batch = .ok c ↔
      rate = some c.feeRate ∧ bits = .int c.balanceBits ∧ id = .bytes c.palletId ∧
        pageSize = .int c.pageSize ∧ batch = batchValue c.batch := by
  cases rate with
  | none => simp [ofFields]
  | some rate =>
    constructor
    · intro done
      obtain ⟨⟨_, _, _⟩, bits, done⟩ := Except.bind_eq_ok done
      obtain ⟨⟨_, _⟩, known, done⟩ := Except.bind_eq_ok done
      obtain ⟨⟨_, _⟩, page, done⟩ := Except.bind_eq_ok done
      obtain ⟨⟨_, _⟩, batch, done⟩ := Except.bind_eq_ok done
      cases done
      exact ⟨rfl, Amount.widthOf_eq_ok_iff.1 bits, idOf_eq_ok_iff.1 known,
        pageSizeOf_eq_ok_iff.1 page, batchOf_eq_ok_iff.1 batch⟩
    · rintro ⟨⟨⟩, rfl, rfl, rfl, rfl⟩
      have bits : Amount.widthOf (.int c.balanceBits) =
          .ok ⟨_, c.balanceBits_pos, c.balanceBits_le⟩ :=
        Amount.widthOf_eq_ok_iff.2 rfl
      have id : idOf (.bytes c.palletId) = .ok ⟨_, c.palletId_length⟩ := idOf_eq_ok_iff.2 rfl
      have page : pageSizeOf (.int c.pageSize) = .ok ⟨_, c.pageSize_pos⟩ :=
        pageSizeOf_eq_ok_iff.2 rfl
      have batch : batchOf (batchValue c.batch) = .ok ⟨_, c.batch_pos⟩ := batchOf_eq_ok_iff.2 rfl
      simp only [ofFields, bits, id, page, batch]
      rfl

end Fields

section Mapping

def integerField (c : Config) : String → Option Nat
  | "fee_numerator" => some c.feeRate.numerator
  | "fee_denominator" => some c.feeRate.denominator
  | "balance_bits" => some c.balanceBits
  | "payout_page_size" => some c.pageSize
  | "max_markets_per_payout" => c.batch
  | _ => none

/-- What is given for an integer is what the configuration has, `null` if it has none. What is left
out is as usual. -/
def Tells (c : Config) (key : String) : Option Value → Prop
  | none => c.integerField key = usual.integerField key
  | some .null => c.integerField key = none
  | some (.int n) => ∃ m : Nat, c.integerField key = some m ∧ n = m
  | some _ => False

def TellsId (c : Config) : Option Value → Prop
  | none => c.palletId = usual.palletId
  | some (.bytes id) => id = c.palletId
  | some (.str text) => (∀ ch ∈ text.toList, ch.toNat < 128) ∧ Digest.ascii text = c.palletId
  | some _ => False

structure Stated (c : Config) (settings : List (Value × Value)) : Prop where
  known : ∀ e ∈ settings, isKnown e.1 = true
  integers : ∀ p ∈ integerVariables, c.Tells p.1 (Value.field? p.1 settings)
  id : c.TellsId (Value.field? "pallet_id" settings)

theorem unknownKeys_eq_nil_iff :
    unknownKeys settings = .ok [] ↔ ∀ e ∈ settings, isKnown e.1 = true := by
  rw [unknownKeys, Value.inOrder_eq_nil_iff, List.filter_eq_nil_iff, List.forall_mem_map]
  simp only [Bool.not_eq_true', Bool.not_eq_false]

theorem integerSetting_eq_ok_iff {value given : Value} :
    integerSetting name value = .ok given ↔ ∃ n, value = .int n ∧ given = .int n := by
  cases value with
  | int n => simp [integerSetting, eq_comm]
  | _ => simp [integerSetting]

theorem batchSetting_eq_ok_iff {value given : Value} :
    batchSetting value = .ok given ↔ given = value ∧ (value = .null ∨ ∃ n, value = .int n) := by
  cases value with
  | null => simp [batchSetting, eq_comm]
  | int n => simp [batchSetting, integerSetting, eq_comm]
  | _ => simp [batchSetting, integerSetting]

theorem setting_eq_int_iff {m u : Nat} (own : c.integerField key = some m)
    (left : usual.integerField key = some u) :
    setting key (.int u) settings = .int m ↔ c.Tells key (Value.field? key settings) := by
  unfold setting
  cases Value.field? key settings with
  | none =>
    simp only [Option.getD_none, Value.int.injEq, Tells, own, left, Option.some.injEq]
    omega
  | some value => cases value <;> simp [Tells, own]

theorem setting_eq_batchValue_iff :
    setting "max_markets_per_payout" .null settings = batchValue c.batch ↔
      c.Tells "max_markets_per_payout" (Value.field? "max_markets_per_payout" settings) := by
  unfold setting
  cases Value.field? "max_markets_per_payout" settings with
  | none => cases batch : c.batch <;> simp [Tells, integerField, batch, batchValue, usual]
  | some value =>
    cases batch : c.batch <;> cases value <;> simp [Tells, integerField, batch, batchValue]

theorem idSetting_setting_eq_ok_iff :
    idSetting (setting "pallet_id" usualId settings) = .ok (.bytes c.palletId) ↔
      c.TellsId (Value.field? "pallet_id" settings) := by
  unfold setting
  cases Value.field? "pallet_id" settings with
  | none => simp [TellsId, idSetting, usualId, usual, eq_comm]
  | some value =>
    cases value with
    | str text =>
      simp only [Option.getD_some, idSetting, TellsId, List.all_eq_true, decide_eq_true_eq]
      split
      next plain => simp only [Except.ok.injEq, Value.bytes.injEq, iff_true_intro plain, true_and]
      next other => simp only [reduceCtorEq, iff_false_intro other, false_and]
    | _ => simp [TellsId, idSetting]

theorem ofMapping_eq_ok_iff : ofMapping (.map settings) = .ok c ↔ c.Stated settings := by
  have each : (∀ p ∈ integerVariables, c.Tells p.1 (Value.field? p.1 settings)) ↔
      setting "fee_numerator" (.int 1) settings = .int c.feeRate.numerator ∧
      setting "fee_denominator" (.int 1000) settings = .int c.feeRate.denominator ∧
      setting "balance_bits" usualBits settings = .int c.balanceBits ∧
      setting "payout_page_size" usualPageSize settings = .int c.pageSize ∧
      setting "max_markets_per_payout" .null settings = batchValue c.batch := by
    simp only [integerVariables, List.forall_mem_cons, List.not_mem_nil, false_imp_iff,
      implies_true, and_true]
    rw [← setting_eq_batchValue_iff, ← setting_eq_int_iff (u := 1) rfl rfl,
      ← setting_eq_int_iff (u := 1000) rfl rfl, ← setting_eq_int_iff (u := 128) rfl rfl,
      ← setting_eq_int_iff (u := 256) rfl rfl]
    exact Iff.rfl
  simp only [ofMapping, Except.bind_eq_ok_iff, Except.refuse_eq_ok_iff, integerSetting_eq_ok_iff,
    FeeRate.ofValues_eq_ok_iff, batchSetting_eq_ok_iff, ofFields_eq_ok_iff]
  constructor
  · rintro ⟨unknown, keys, nothing, _, ⟨n, numerator, rfl⟩, _, ⟨d, denominator, rfl⟩, rate,
      ⟨hn, hd⟩, _, ⟨b, bits, rfl⟩, id, known, _, ⟨z, page, rfl⟩, batch, ⟨rfl, -⟩, same, hb,
      rfl, hz, limit⟩
    cases same
    obtain rfl : unknown = [] := by simpa using nothing
    refine ⟨unknownKeys_eq_nil_iff.1 keys, each.2 ⟨?_, ?_, ?_, ?_, limit⟩,
      idSetting_setting_eq_ok_iff.1 known⟩
    · rw [numerator, hn]
    · rw [denominator, hd]
    · rw [bits, hb]
    · rw [page, hz]
  · rintro ⟨known, integers, id⟩
    obtain ⟨numerator, denominator, bits, page, limit⟩ := each.1 integers
    have limited : setting "max_markets_per_payout" .null settings = .null ∨
        ∃ n, setting "max_markets_per_payout" .null settings = .int n := by
      rw [limit]
      cases c.batch with
      | none => exact .inl rfl
      | some n => exact .inr ⟨n, rfl⟩
    exact ⟨[], unknownKeys_eq_nil_iff.2 known, by simp, _, ⟨_, numerator, rfl⟩, _,
      ⟨_, denominator, rfl⟩, c.feeRate, ⟨rfl, rfl⟩, _, ⟨_, bits, rfl⟩, _,
      idSetting_setting_eq_ok_iff.2 id, _, ⟨_, page, rfl⟩, _, ⟨rfl, limited⟩, rfl, rfl,
        rfl, rfl, limit⟩

end Mapping

section Variables

def givenIntegers (env : Environment) (pairs : List (String × String)) : List (Value × Value) :=
  pairs.filterMap fun p => ((setting? env p.2).bind Text.integer?).map fun n => (.str p.1, .int n)

def givenId (env : Environment) : List (Value × Value) :=
  match setting? env idVariable with
  | some text => [(.str "pallet_id", .str (String.ofList text))]
  | none => []

theorem integerOf_eq_ok_iff {given : Option Int} :
    integerOf env name = .ok given ↔
      (∀ text ∈ setting? env name, (Text.integer? text).isSome) ∧
        given = (setting? env name).bind Text.integer? := by
  unfold integerOf
  cases setting? env name with
  | none =>
    exact ⟨fun done => ⟨nofun, (Except.ok.inj done).symm⟩, fun told =>
      congrArg Except.ok told.2.symm⟩
  | some text =>
    simp only [Option.mem_some_iff, forall_eq', Option.bind_some]
    cases Text.integer? text with
    | none => simp
    | some n =>
      exact ⟨fun done => ⟨rfl, (Except.ok.inj done).symm⟩, fun told =>
        congrArg Except.ok told.2.symm⟩

theorem givenIntegers_cons (env : Environment) (p : String × String)
    (rest : List (String × String)) :
    givenIntegers env (p :: rest) =
      match (setting? env p.2).bind Text.integer? with
      | some n => (.str p.1, .int n) :: givenIntegers env rest
      | none => givenIntegers env rest := by
  rw [givenIntegers, List.filterMap_cons]
  cases (setting? env p.2).bind Text.integer? <;> rfl

theorem integerSettings_eq_ok_iff {pairs : List (String × String)} :
    integerSettings env pairs = .ok settings ↔
      (∀ p ∈ pairs, ∀ text ∈ setting? env p.2, (Text.integer? text).isSome) ∧
        settings = givenIntegers env pairs := by
  induction pairs generalizing settings with
  | nil =>
    exact ⟨fun done => ⟨nofun, (Except.ok.inj done).symm⟩, fun told =>
      congrArg Except.ok told.2.symm⟩
  | cons p rest ih =>
    simp only [integerSettings, Except.bind_eq_ok_iff, integerOf_eq_ok_iff, ih,
      List.forall_mem_cons]
    constructor
    · rintro ⟨_, ⟨first, rfl⟩, _, ⟨later, rfl⟩, done⟩
      rw [givenIntegers_cons]
      exact ⟨⟨first, later⟩, (Except.ok.inj done).symm⟩
    · rintro ⟨⟨first, later⟩, rfl⟩
      rw [givenIntegers_cons]
      exact ⟨_, ⟨first, rfl⟩, _, ⟨later, rfl⟩, rfl⟩

theorem field?_givenIntegers_of_not_mem {pairs : List (String × String)}
    (other : key ∉ pairs.map (·.1)) :
    Value.field? key (givenIntegers env pairs) = none := by
  induction pairs with
  | nil => rfl
  | cons p rest ih =>
    obtain ⟨apart, later⟩ := not_or.1 (fun member => other (List.mem_cons.2 member))
    rw [givenIntegers_cons]
    cases (setting? env p.2).bind Text.integer? with
    | none => exact ih later
    | some n => exact (if_neg fun same => apart same.symm).trans (ih later)

theorem field?_givenIntegers {pairs : List (String × String)} (once : (pairs.map (·.1)).Nodup)
    (member : (key, name) ∈ pairs) :
    Value.field? key (givenIntegers env pairs) =
      ((setting? env name).bind Text.integer?).map Value.int := by
  induction pairs with
  | nil => cases member
  | cons p rest ih =>
    obtain ⟨fresh, once⟩ := List.nodup_cons.1 once
    rw [givenIntegers_cons]
    rcases List.mem_cons.1 member with rfl | later
    · cases (setting? env name).bind Text.integer? with
      | none => exact field?_givenIntegers_of_not_mem fresh
      | some n => exact if_pos rfl
    · have apart : p.1 ≠ key := fun same => fresh (List.mem_map.2 ⟨(key, name), later, same.symm⟩)
      cases (setting? env p.2).bind Text.integer? with
      | none => exact ih once later
      | some n => exact (if_neg apart).trans (ih once later)

/-- A variable says what the configuration has, or nothing where that is the usual value. -/
def ShownIn (c : Config) (env : Environment) (key name : String) : Prop :=
  match setting? env name with
  | none => c.integerField key = usual.integerField key
  | some text => ∃ n : Nat, c.integerField key = some n ∧ Text.integer? text = some (n : Int)

structure Shown (c : Config) (env : Environment) : Prop where
  integers : ∀ p ∈ integerVariables, c.ShownIn env p.1 p.2
  id : c.TellsId ((setting? env idVariable).map fun text => .str (String.ofList text))

theorem shownIn_iff :
    c.ShownIn env key name ↔
      (∀ text ∈ setting? env name, (Text.integer? text).isSome) ∧
        c.Tells key (((setting? env name).bind Text.integer?).map Value.int) := by
  unfold ShownIn
  cases setting? env name with
  | none => simp [Tells]
  | some text => cases read : Text.integer? text <;> simp [Tells, read]

theorem isKnown_given :
    ∀ e ∈ givenIntegers env integerVariables ++ givenId env, isKnown e.1 = true := by
  intro e member
  rcases List.mem_append.1 member with integer | id
  · obtain ⟨p, listed, given⟩ := List.mem_filterMap.1 integer
    obtain ⟨n, -, rfl⟩ := Option.map_eq_some_iff.1 given
    have known : ∀ p ∈ integerVariables, knownKeys.contains p.1 = true := by decide
    exact known p listed
  · unfold givenId at id
    split at id
    · cases List.mem_singleton.1 id
      show isKnown (.str "pallet_id") = true
      decide
    · cases id

theorem field?_given (member : (key, name) ∈ integerVariables) :
    Value.field? key (givenIntegers env integerVariables ++ givenId env) =
      ((setting? env name).bind Text.integer?).map Value.int := by
  have apart : ∀ p ∈ integerVariables, "pallet_id" ≠ p.1 := by decide
  have other : Value.field? key (givenId env) = none := by
    unfold givenId
    split
    · exact if_neg (apart _ member)
    · rfl
  rw [Value.field?_append, other, Option.or_none, field?_givenIntegers (by decide) member]

theorem field?_id_given :
    Value.field? "pallet_id" (givenIntegers env integerVariables ++ givenId env) =
      (setting? env idVariable).map fun text => .str (String.ofList text) := by
  rw [Value.field?_append, field?_givenIntegers_of_not_mem (by decide), Option.none_or, givenId]
  cases setting? env idVariable with
  | none => rfl
  | some text => exact if_pos rfl

theorem stated_given_iff :
    c.Stated (givenIntegers env integerVariables ++ givenId env) ↔
      (∀ p ∈ integerVariables,
        c.Tells p.1 (((setting? env p.2).bind Text.integer?).map Value.int)) ∧
      c.TellsId ((setting? env idVariable).map fun text => .str (String.ofList text)) := by
  constructor
  · rintro ⟨-, integers, id⟩
    rw [field?_id_given] at id
    refine ⟨fun p member => ?_, id⟩
    rw [← field?_given member]
    exact integers p member
  · rintro ⟨integers, id⟩
    refine ⟨isKnown_given, fun p member => ?_, ?_⟩
    · rw [field?_given member]
      exact integers p member
    · rw [field?_id_given]
      exact id

theorem ofEnvironment_eq_ok_iff : ofEnvironment env = .ok c ↔ c.Shown env := by
  have shape : ofEnvironment env =
      integerSettings env integerVariables >>= fun integers =>
        ofMapping (.map (integers ++ givenId env)) := rfl
  rw [shape, Except.bind_eq_ok_iff]
  simp only [integerSettings_eq_ok_iff, ofMapping_eq_ok_iff]
  constructor
  · rintro ⟨_, ⟨readable, rfl⟩, stated⟩
    obtain ⟨integers, id⟩ := stated_given_iff.1 stated
    exact ⟨fun p member => shownIn_iff.2 ⟨readable p member, integers p member⟩, id⟩
  · rintro ⟨integers, id⟩
    exact ⟨_, ⟨fun p member => (shownIn_iff.1 (integers p member)).1, rfl⟩,
      stated_given_iff.2 ⟨fun p member => (shownIn_iff.1 (integers p member)).2, id⟩⟩

end Variables

section Writing

def Environment.Holds (env : Environment) (name : String) (text : List Char) : Prop :=
  ∃ before after, Text.Blank before ∧ Text.Blank after ∧
    env.lookup name = some (String.ofList (before ++ text ++ after))

def Environment.Silent (env : Environment) (name : String) : Prop :=
  ∀ raw ∈ env.lookup name, Text.Blank raw.toList

instance (env : Environment) (name : String) : Decidable (env.Silent name) :=
  inferInstanceAs (Decidable (∀ raw ∈ env.lookup name, _))

def idText (c : Config) : List Char := c.palletId.map fun b => Char.ofNat b.toNat

/-- The identifier can be written as a text that is read as it is. -/
def PlainId (c : Config) : Prop := (∀ b ∈ c.palletId, b.toNat < 128) ∧ Text.Trimmed c.idText

/-- The configuration is written into variables, where it is as usual perhaps by leaving them
out. -/
structure Written (c : Config) (env : Environment) : Prop where
  integers : ∀ p ∈ integerVariables,
    (∃ n : Nat, c.integerField p.1 = some n ∧ env.Holds p.2 (toString n).toList) ∨
      c.integerField p.1 = usual.integerField p.1 ∧ env.Silent p.2
  id : env.Holds idVariable c.idText ∨ c.palletId = usual.palletId ∧ env.Silent idVariable

theorem setting?_of_holds {text : List Char} (holds : env.Holds name text)
    (trimmed : Text.Trimmed text) (present : text ≠ []) : setting? env name = some text := by
  obtain ⟨before, after, blank, blank', value⟩ := holds
  rw [setting?, value, Option.map_some, String.toList_ofList,
    Text.strip_between blank trimmed blank', Option.filter_some, if_pos]
  rw [Bool.not_eq_true', List.isEmpty_eq_false_iff]
  exact present

theorem setting?_of_silent (silent : env.Silent name) : setting? env name = none := by
  unfold setting?
  cases value : env.lookup name with
  | none => rfl
  | some raw =>
    rw [Option.map_some, Text.strip_blank (silent raw value)]
    rfl

theorem ascii_idText (low : ∀ b ∈ c.palletId, b.toNat < 128) :
    (∀ ch ∈ c.idText, ch.toNat < 128) ∧ Digest.ascii (String.ofList c.idText) = c.palletId := by
  have number {b : UInt8} (member : b ∈ c.palletId) : (Char.ofNat b.toNat).toNat = b.toNat := by
    have valid : b.toNat.isValidChar := .inl (Nat.lt_trans (low b member) (by decide))
    rw [Char.ofNat, dif_pos valid]
    rfl
  constructor
  · intro ch member
    obtain ⟨b, listed, rfl⟩ := List.mem_map.1 member
    rw [number listed]
    exact low b listed
  · rw [Digest.ascii, String.toList_ofList, idText, List.map_map]
    refine (List.map_congr_left fun b member => ?_).trans (List.map_id _)
    rw [Function.comp_apply, number member]
    exact UInt8.ofNat_toNat

theorem idText_ne_nil (c : Config) : c.idText ≠ [] := by
  intro empty
  have length := c.palletId_length
  rw [List.map_eq_nil_iff.1 empty] at length
  cases length

theorem Written.shown (written : c.Written env) (plain : c.PlainId) : c.Shown env where
  integers p member := by
    unfold ShownIn
    rcases written.integers p member with ⟨n, own, holds⟩ | ⟨usual, silent⟩
    · have spelled : (toString n).toList ≠ [] := Nat.toList_repr ▸ Nat.toDigits_ne_nil
      rw [setting?_of_holds holds (Text.trimmed_toString n) spelled]
      exact ⟨n, own, Text.integer?_toString n⟩
    · rw [setting?_of_silent silent]
      exact usual
  id := by
    rcases written.id with holds | ⟨usual, silent⟩
    · rw [setting?_of_holds holds plain.2 c.idText_ne_nil, Option.map_some]
      obtain ⟨low, same⟩ := ascii_idText plain.1
      exact ⟨by rwa [String.toList_ofList], same⟩
    · rw [setting?_of_silent silent]
      exact usual

structure InRange (c : Config) : Prop where
  numerator : (0 : Int) ≤ c.feeRate.numerator ∧ c.feeRate.numerator < c.feeRate.denominator
  balanceBits : 0 < c.balanceBits
  palletId : c.palletId.length = 8
  pageSize : 0 < c.pageSize
  batch : ∀ n ∈ c.batch, 0 < n

theorem inRange (c : Config) : c.InRange :=
  ⟨⟨Int.natCast_nonneg _, c.feeRate.below_one⟩, c.balanceBits_pos, c.palletId_length,
    c.pageSize_pos, c.batch_pos⟩

/-- A configuration with a plain identifier is read back from all variables that it is written into,
and from all maps that state it. Whatever is read from variables or from a map is what was given
there, and within its bounds. -/
theorem read_back (plain : c.PlainId) :
    (∀ env, c.Written env → ofEnvironment env = .ok c) ∧
      (∀ settings, c.Stated settings → ofMapping (.map settings) = .ok c) ∧
      (∀ env d, ofEnvironment env = .ok d → d.Shown env ∧ d.InRange) ∧
      ∀ value d, ofMapping value = .ok d →
        (∃ settings, value = .map settings ∧ d.Stated settings) ∧ d.InRange := by
  refine ⟨fun env written => ofEnvironment_eq_ok_iff.2 (written.shown plain),
    fun settings stated => ofMapping_eq_ok_iff.2 stated,
    fun env d done => ⟨ofEnvironment_eq_ok_iff.1 done, d.inRange⟩, fun value d done =>
      ⟨?_, d.inRange⟩⟩
  cases value with
  | map settings => exact ⟨settings, rfl, ofMapping_eq_ok_iff.1 done⟩
  | _ => cases done

def sample : Config :=
  { Config.usual with
    feeRate := ⟨5, 10000, by decide⟩
    balanceBits := 64
    palletId := Digest.ascii "envpalle"
    batch := some 2
    balanceBits_pos := by decide
    balanceBits_le := by decide
    palletId_length := by decide
    batch_pos := by simp }

def sampleVariables : Environment :=
  [("CPAMM_FEE_NUMERATOR", " 5\n"), ("CPAMM_FEE_DENOMINATOR", "10000"),
    ("CPAMM_BALANCE_BITS", "64"), ("CPAMM_PALLET_ID", "envpalle\t"),
    ("CPAMM_PAYOUT_PAGE_SIZE", "  "), ("CPAMM_MAX_MARKETS_PER_PAYOUT", "2")]

def sampleSettings : List (Value × Value) :=
  [(.str "fee_numerator", .int 5), (.str "fee_denominator", .int 10000),
    (.str "balance_bits", .int 64), (.str "pallet_id", .str "envpalle"),
    (.str "max_markets_per_payout", .int 2)]

theorem sample_read_back :
    sample.PlainId ∧ sample.Written sampleVariables ∧ sample.Stated sampleSettings ∧
      ofEnvironment sampleVariables = .ok sample ∧
        ofMapping (.map sampleSettings) = .ok sample := by
  have low : ("envpalle".toList.all fun ch => ch.toNat < 128) = true := by decide +kernel
  have plain : sample.PlainId := by
    refine ⟨by decide +kernel, fun c first => ?_, fun c last => ?_⟩
    · cases first
      rfl
    · cases last
      rfl
  have written : sample.Written sampleVariables := by
    refine ⟨?_, .inl ⟨[], ['\t'], nofun, by decide +kernel, by decide +kernel⟩⟩
    simp only [integerVariables, List.forall_mem_cons, List.not_mem_nil, false_imp_iff,
      implies_true, and_true]
    refine ⟨.inl ⟨5, rfl, [' '], ['\n'], ?_⟩, .inl ⟨10000, rfl, [], [], nofun, nofun, ?_⟩,
      .inl ⟨64, rfl, [], [], nofun, nofun, ?_⟩, .inr ⟨rfl, ?_⟩,
        .inl ⟨2, rfl, [], [], nofun, nofun, ?_⟩⟩
    all_goals decide +kernel
  have stated : sample.Stated sampleSettings := by
    refine ⟨by decide +kernel, ?_, fun ch listed => ?_, by decide +kernel⟩
    · simp only [integerVariables, List.forall_mem_cons, List.not_mem_nil, false_imp_iff,
        implies_true, and_true]
      exact ⟨⟨5, rfl, rfl⟩, ⟨10000, rfl, rfl⟩, ⟨64, rfl, rfl⟩, rfl, 2, rfl, rfl⟩
    · exact of_decide_eq_true (List.all_eq_true.1 low ch listed)
  obtain ⟨fromVariables, fromSettings, -⟩ := read_back plain
  exact ⟨plain, written, stated, fromVariables _ written, fromSettings _ stated⟩

end Writing

end Config

end LiquidityPools
