import TronDB.Core.EncodedOrder
import TronDB.Lib.Run
import Mathlib.Data.List.Forall2
import Mathlib.Data.List.Nodup

/-! Field indexes: when lookups return exactly the entries of the values asked for. -/
namespace TronDB.Core
open Binary Bytes

/-! ### What is asked for -/

def Value.below : Value → Value → Bool
  | .bool p, .bool q => !p && q
  | v, w => valueLt v w

theorem Value.not_below_self (v : Value) : v.below v = false := by
  cases v with
  | string s => exact decide_eq_false (String.lt_irrefl s)
  | int n => exact decide_eq_false Int64.lt_irrefl
  | float f =>
    change f.lt f = false
    simp [F64.lt]
  | bool b => cases b <;> rfl
  | null => rfl

/-- The values begin with values that are equal to these. -/
def leads : List Value → List Value → Bool
  | [], _ => true
  | p :: asked, v :: values => v.eq p && leads asked values
  | _ :: _, [] => false

/-- The leading values are these or come after them. -/
def atLeast : List Value → List Value → Bool
  | [], _ => true
  | p :: asked, v :: values => p.below v || (v.eq p && atLeast asked values)
  | _ :: _, [] => false

/-- The leading values are these or come before them. -/
def atMost : List Value → List Value → Bool
  | [], _ => true
  | p :: asked, v :: values => v.below p || (v.eq p && atMost asked values)
  | _ :: _, [] => false

def Fits (v : Value) (t : FieldType) : Prop := ∃ bytes, encodeSortable v t = .ok bytes

/-- The values that may be stored and asked for, some of each type of the index. -/
structure Domain (types : List FieldType) where
  has : Value → Prop
  inhabited : ∀ t ∈ types, ∃ v, has v ∧ Fits v t

namespace Domain
variable {types : List FieldType} (domain : Domain types)

def Leading (values : List Value) : Prop :=
  values.length ≤ types.length ∧
    List.Forall₂ (fun v t => domain.has v ∧ Fits v t) values (types.take values.length)

def Record (values : List Value) : Prop :=
  List.Forall₂ (fun v t => domain.has v ∧ Fits v t) values types

end Domain

/-! ### Histories -/

inductive IndexChange where
  | insert (id : LogicalId) (values : List Value)
  | remove (id : LogicalId) (values : List Value)

/-- A change that fails leaves the index as it is. -/
def FieldIndex.apply (idx : FieldIndex) : IndexChange → FieldIndex
  | .insert id values =>
    match idx.insert id values with
    | .ok idx => idx
    | .error _ => idx
  | .remove id values =>
    match idx.remove id values with
    | .ok idx => idx
    | .error _ => idx

def IndexChange.values : IndexChange → List Value
  | .insert _ values | .remove _ values => values

abbrev Entries := List (LogicalId × List Value)

def Entries.apply (entries : Entries) : IndexChange → Entries
  | .insert id values => if (id, values) ∈ entries then entries else entries ++ [(id, values)]
  | .remove id values => entries.erase (id, values)

/-- The ids of the entries that pass the test, each entry once. -/
def Returns (entries : Entries) (test : List Value → Bool)
    (found : Except EngineError (List LogicalId)) : Prop :=
  ∃ ids, found = .ok ids ∧ ids.Perm ((entries.filter fun entry => test entry.2).map Prod.fst)

structure LookupsExact {types : List FieldType} (domain : Domain types) (idx : FieldIndex)
    (entries : Entries) : Prop where
  equal : ∀ values, domain.Record values → Returns entries (leads values) (idx.lookupEq values)
  leading : ∀ values, domain.Leading values → Returns entries (leads values) (idx.lookupPrefix values)
  range : ∀ lower upper, domain.Leading lower → domain.Leading upper →
    Returns entries (fun values => atLeast lower values && atMost upper values)
      (idx.lookupRange lower upper)

/-- All lookups after all changes with values of the domain, from an empty index on. -/
def AlwaysExact (fieldTypes : List (String × FieldType))
    (domain : Domain (fieldTypes.map Prod.snd)) : Prop :=
  ∀ changes : List IndexChange, (∀ change ∈ changes, domain.Record change.values) →
    LookupsExact domain (changes.foldl FieldIndex.apply ⟨∅, fieldTypes⟩)
      (changes.foldl Entries.apply [])

/-! ### Codes -/

def code (v : Value) (t : FieldType) : List UInt8 := (encodeSortable v t).toOption.getD []

def codes : List Value → List FieldType → List UInt8
  | v :: values, t :: types => code v t ++ codes values types
  | _, _ => []

theorem code_of_ok {v : Value} {t : FieldType} {bytes : List UInt8}
    (ok : encodeSortable v t = .ok bytes) : code v t = bytes := by
  unfold code
  rw [ok]
  rfl

theorem Fits.encoded {v : Value} {t : FieldType} (fits : Fits v t) :
    encodeSortable v t = .ok (code v t) := by
  obtain ⟨bytes, ok⟩ := fits
  rw [ok, code_of_ok ok]

theorem encodeCompoundKey_codes {values : List Value} {types : List FieldType}
    (fits : List.Forall₂ Fits values types) : encodeCompoundKey values types = .ok (codes values types) := by
  induction fits with
  | nil => rfl
  | cons here rest ih =>
    unfold encodeCompoundKey codes
    rw [here.encoded, ih]
    rfl

theorem encodeCompoundKey_take (values : List Value) (types : List FieldType) :
    encodeCompoundKey values types = encodeCompoundKey values (types.take values.length) := by
  induction values generalizing types with
  | nil => cases types <;> rfl
  | cons v values ih =>
    cases types with
    | nil => rfl
    | cons t types =>
      rw [List.length_cons, List.take_succ_cons]
      unfold encodeCompoundKey
      rw [ih]

/-! ### Single values -/

def FieldType.Textual (t : FieldType) : Prop := ∃ s, Fits (.string s) t

/-- No text continues another one behind a null byte, no number is NaN, the negative zero is only
beside positive numbers, and the values behind the leading ones of a record are not encoded with as
many bytes `0xFF` as the padding of an upper bound. -/
structure Admissible {types : List FieldType} (domain : Domain types) : Prop where
  texts : (∃ t ∈ types, t.Textual) → ∀ s s', domain.has (.string s) → domain.has (.string s') →
    s ≠ s' → ¬ utf8 s ++ [0] <+: utf8 s'
  numbers : .float ∈ types → ∀ f, domain.has (.float f) →
    f.isNaN = false ∧ (f = negativeZero → ∀ g, domain.has (.float g) → g ≠ f → 0 < g.key)
  padding : ∀ values, domain.Record values → ∀ k,
    ¬ FieldIndex.rangePadding <+: codes (values.drop k) (types.drop k)

/-- The first of two values of a type is below the second, and so are their codes. -/
structure Under (t : FieldType) (v w : Value) : Prop where
  codes : Precedes (code v t) (code w t)
  below : v.below w = true
  notAbove : w.below v = false
  differs : v.eq w = false

theorem under_of_order {t : FieldType} {v w : Value} (order : KeepsOrder v w (code v t) (code w t))
    (here : v.below w = valueLt v w) (there : w.below v = valueLt w v)
    (precedes : Precedes (code v t) (code w t)) : Under t v w := by
  have less := precedes.compare_eq
  refine ⟨precedes, here.trans (order.less.mp less), ?_, ?_⟩
  · rw [there, Bool.eq_false_iff]
    intro above
    have more := order.greater.mpr above
    rw [bytes_compare_swap, less] at more
    cases more
  · rw [Bool.eq_false_iff]
    intro equal
    exact precedes.no_start.1 (order.equal equal ▸ List.prefix_rfl)

theorem no_start_of_length {a b : List UInt8} (length : a.length = b.length) (differ : a ≠ b) :
    ¬ a <+: b ∧ ¬ b <+: a :=
  ⟨fun starts => differ (starts.eq_of_length length),
    fun starts => differ (starts.eq_of_length length.symm).symm⟩

theorem no_start_of_texts {s s' : String} (differ : s ≠ s') (apart : ¬ utf8 s ++ [0] <+: utf8 s') :
    ¬ utf8 s ++ [0] <+: utf8 s' ++ [0] := by
  intro starts
  rcases Nat.lt_or_ge (utf8 s).length (utf8 s').length with shorter | longer
  · refine apart (List.prefix_of_prefix_length_le starts (List.prefix_append _ _) ?_)
    rw [List.length_append]
    exact shorter
  · have length := starts.length_le
    simp only [List.length_append, List.length_singleton] at length
    have same := starts.eq_of_length (by simp; omega)
    exact differ (utf8_injective (List.append_cancel_right same))

section Fields
variable {types : List FieldType} {domain : Domain types}

/-- Values of one type are the same, or one of them is under the other. -/
theorem Admissible.trichotomy (admissible : Admissible domain) {t : FieldType} (listed : t ∈ types)
    {v w : Value} (has : domain.has v) (has' : domain.has w) (fits : Fits v t) (fits' : Fits w t) :
    (v = w ∧ v.eq w = true) ∨ Under t v w ∨ Under t w v := by
  have ordered {v w : Value} (apart : ¬ code v t <+: code w t ∧ ¬ code w t <+: code v t)
      (order : KeepsOrder v w (code v t) (code w t)) (here : v.below w = valueLt v w)
      (there : w.below v = valueLt w v) : Under t v w ∨ Under t w v := by
    have reversed : KeepsOrder w v (code w t) (code v t) :=
      ⟨order.greater, order.less, fun equal => (order.equal (Value.eq_symm w v ▸ equal)).symm⟩
    rcases precedes_or_precedes apart.1 apart.2 with precedes | precedes
    · exact .inl (under_of_order order here there precedes)
    · exact .inr (under_of_order reversed there here precedes)
  obtain ⟨x, encoded⟩ := fits
  obtain ⟨y, encoded'⟩ := fits'
  have codeV := code_of_ok encoded
  have codeW := code_of_ok encoded'
  cases encoded_of_ok encoded with
  | text s =>
    have textual : ∃ t ∈ types, t.Textual := ⟨t, listed, s, _, encoded⟩
    cases w with
    | string s' =>
      by_cases same : s = s'
      · subst same
        exact .inl ⟨rfl, decide_eq_true rfl⟩
      · have whole : y = utf8 s' ++ [0] := by
          cases encoded_of_ok encoded'
          rfl
        refine .inr (ordered ?_ ?_ rfl rfl)
        · rw [codeV, codeW, whole]
          exact ⟨no_start_of_texts same (admissible.texts textual s s' has has' same),
            no_start_of_texts (Ne.symm same)
              (admissible.texts textual s' s has' has (Ne.symm same))⟩
        · rw [codeV, codeW, whole]
          exact keepsOrder_string s s'
    | _ => cases t <;> simp [encodeSortable] at encoded encoded'
  | bool p =>
    cases encoded_of_ok encoded' with
    | text s' => cases encoded'
    | bool q =>
      cases p <;> cases q
      · exact .inl ⟨rfl, rfl⟩
      · exact .inr (.inl ⟨.head (by decide) [] [], rfl, rfl, rfl⟩)
      · exact .inr (.inr ⟨.head (by decide) [] [], rfl, rfl, rfl⟩)
      · exact .inl ⟨rfl, rfl⟩
  | int m =>
    cases encoded_of_ok encoded' with
    | text s' => cases encoded'
    | int n =>
      by_cases same : m = n
      · subst same
        exact .inl ⟨rfl, decide_eq_true rfl⟩
      · refine .inr (ordered ?_ ?_ rfl rfl)
        · rw [codeV, codeW]
          refine no_start_of_length (by simp) fun bytes => same ?_
          exact sortableInt_injective
            (beBytes_injective (UInt64.toNat_lt _) (UInt64.toNat_lt _) bytes)
        · rw [codeV, codeW]
          exact keepsOrder_int m n
  | float f =>
    cases encoded_of_ok encoded' with
    | text s' => cases encoded'
    | float g =>
      obtain ⟨number, zero⟩ := admissible.numbers listed f has
      obtain ⟨number', zero'⟩ := admissible.numbers listed g has'
      by_cases same : f = g
      · subst same
        refine .inl ⟨rfl, ?_⟩
        change f.eq f = true
        simp [F64.eq, number]
      · refine .inr (ordered ?_ ?_ rfl rfl)
        · rw [codeV, codeW]
          refine no_start_of_length (by simp) fun bytes => same ?_
          exact sortableFloat_injective number number' (UInt64.toNat_inj.mp
            (beBytes_injective (UInt64.toNat_lt _) (UInt64.toNat_lt _) bytes))
        · rw [codeV, codeW]
          refine (keepsOrder_float number number').mpr (.inr ⟨fun lowest => ?_, fun lowest => ?_⟩)
          · exact zero lowest g has' (Ne.symm same)
          · exact zero' lowest f has same

end Fields

/-! ### Tuples -/

section Tuples
variable {has : Value → Prop}

/-- Values of each type are the same, or one of them is under the other. -/
def Ordered (has : Value → Prop) (types : List FieldType) : Prop :=
  ∀ t ∈ types, ∀ v w, has v ∧ Fits v t → has w ∧ Fits w t →
    (v = w ∧ v.eq w = true) ∨ Under t v w ∨ Under t w v

theorem Ordered.tail {t : FieldType} {types : List FieldType} (ordered : Ordered has (t :: types)) :
    Ordered has types := fun t listed => ordered t (List.mem_cons_of_mem _ listed)

/-- The induction over values asked for and the values of a record. -/
theorem tuple_cases {motive : List FieldType → List Value → List Value → Prop}
    (ended : ∀ types values, List.Forall₂ (fun v t => has v ∧ Fits v t) values types →
      motive types [] values)
    (same : ∀ t types v asked values, v.eq v = true → motive types asked values →
      motive (t :: types) (v :: asked) (v :: values))
    (under : ∀ t types p v asked values, Under t p v → motive (t :: types) (p :: asked) (v :: values))
    (over_ : ∀ t types p v asked values, Under t v p → motive (t :: types) (p :: asked) (v :: values))
    {types : List FieldType} (ordered : Ordered has types) {asked values : List Value}
    (length : asked.length ≤ types.length)
    (leading : List.Forall₂ (fun v t => has v ∧ Fits v t) asked (types.take asked.length))
    (record : List.Forall₂ (fun v t => has v ∧ Fits v t) values types) :
    motive types asked values := by
  induction asked generalizing types values with
  | nil => exact ended types values record
  | cons p asked ih =>
    cases record with
    | nil => exact absurd length (Nat.not_succ_le_zero _)
    | @cons v t values types here rest =>
      rw [List.length_cons, List.take_succ_cons] at leading
      cases leading with
      | cons first others =>
        have inside : asked.length ≤ types.length := Nat.le_of_succ_le_succ length
        rcases ordered t List.mem_cons_self p v first here with ⟨rfl, equal⟩ | below | above
        · exact same t types p asked values equal (ih ordered.tail inside others rest)
        · exact under t types p v asked values below
        · exact over_ t types p v asked values above

theorem codes_start (types : List FieldType) (asked values : List Value) (rest : List UInt8)
    (ordered : Ordered has types) (length : asked.length ≤ types.length)
    (leading : List.Forall₂ (fun v t => has v ∧ Fits v t) asked (types.take asked.length))
    (record : List.Forall₂ (fun v t => has v ∧ Fits v t) values types) :
    codes asked types <+: codes values types ++ rest ↔ leads asked values = true := by
  refine tuple_cases (motive := fun types asked values =>
    codes asked types <+: codes values types ++ rest ↔ leads asked values = true)
    ?_ ?_ ?_ ?_ ordered length leading record
  · intro types values record
    cases types <;> simp [codes, leads]
  · intro t types v asked values equal ih
    rw [codes, codes, List.append_assoc, List.prefix_append_right_inj, ih, leads, equal,
      Bool.true_and]
  · intro t types p v asked values below
    rw [leads, Value.eq_symm, below.differs, codes, codes, List.append_assoc]
    have apart := (below.codes.append (codes asked types) (codes values types ++ rest)).no_start.1
    exact iff_of_false apart (by simp)
  · intro t types p v asked values above
    rw [leads, above.differs, codes, codes, List.append_assoc]
    have apart := (above.codes.append (codes values types ++ rest) (codes asked types)).no_start.2
    exact iff_of_false apart (by simp)

theorem codes_atLeast (types : List FieldType) (asked values : List Value) (rest : List UInt8)
    (ordered : Ordered has types) (length : asked.length ≤ types.length)
    (leading : List.Forall₂ (fun v t => has v ∧ Fits v t) asked (types.take asked.length))
    (record : List.Forall₂ (fun v t => has v ∧ Fits v t) values types) :
    (compare (codes asked types) (codes values types ++ rest)).isLE = atLeast asked values := by
  refine tuple_cases (motive := fun types asked values =>
    (compare (codes asked types) (codes values types ++ rest)).isLE = atLeast asked values)
    ?_ ?_ ?_ ?_ ordered length leading record
  · intro types values record
    have empty : codes [] types = [] := by
      cases types <;> rfl
    rw [empty, atLeast, List.compare_eq_compareLex]
    exact List.isLE_compareLex_nil_left
  · intro t types v asked values equal ih
    have notBelow := v.not_below_self
    rw [codes, codes, List.append_assoc, compare_append_left, ih, atLeast, equal, notBelow]
    simp
  · intro t types p v asked values below
    rw [codes, codes, List.append_assoc, (below.codes.append _ _).compare_eq, atLeast, below.below]
    rfl
  · intro t types p v asked values above
    rw [codes, codes, List.append_assoc, bytes_compare_swap,
      (above.codes.append _ _).compare_eq, atLeast, above.notAbove, above.differs]
    rfl

theorem codes_atMost (types : List FieldType) (asked values : List Value) (rest : List UInt8)
    (ordered : Ordered has types) (length : asked.length ≤ types.length)
    (leading : List.Forall₂ (fun v t => has v ∧ Fits v t) asked (types.take asked.length))
    (record : List.Forall₂ (fun v t => has v ∧ Fits v t) values types)
    (short : ∀ k, ¬ FieldIndex.rangePadding <+: codes (values.drop k) (types.drop k)) :
    (compare (codes values types ++ 0 :: rest) (codes asked types ++ FieldIndex.rangePadding)).isLE =
      atMost asked values := by
  refine tuple_cases (motive := fun types asked values =>
    (∀ k, ¬ FieldIndex.rangePadding <+: codes (values.drop k) (types.drop k)) →
      (compare (codes values types ++ 0 :: rest) (codes asked types ++ FieldIndex.rangePadding)).isLE =
        atMost asked values) ?_ ?_ ?_ ?_ ordered length leading record short
  · intro types values record short
    have empty : codes [] types = [] := by
      cases types <;> rfl
    rw [empty, atMost]
    exact compare_padding (short 0) rest
  · intro t types v asked values equal ih short
    have notBelow := v.not_below_self
    rw [codes, codes, List.append_assoc, List.append_assoc, compare_append_left,
      ih fun k => short (k + 1), atMost, equal, notBelow]
    simp
  · intro t types p v asked values below short
    rw [codes, codes, List.append_assoc, List.append_assoc, bytes_compare_swap,
      (below.codes.append _ _).compare_eq, atMost, below.notAbove, Value.eq_symm, below.differs]
    rfl
  · intro t types p v asked values above short
    rw [codes, codes, List.append_assoc, List.append_assoc, (above.codes.append _ _).compare_eq,
      atMost, above.below]
    rfl

/-- A key is made from one record and one id. -/
theorem codes_injective {types : List FieldType} {values values' : List Value} {rest rest' : List UInt8}
    (ordered : Ordered has types)
    (record : List.Forall₂ (fun v t => has v ∧ Fits v t) values types)
    (record' : List.Forall₂ (fun v t => has v ∧ Fits v t) values' types)
    (same : codes values types ++ rest = codes values' types ++ rest') :
    values = values' ∧ rest = rest' := by
  have length := record.length_eq
  refine tuple_cases (motive := fun types asked values => asked.length = types.length →
    codes asked types ++ rest = codes values types ++ rest' → asked = values ∧ rest = rest')
    ?_ ?_ ?_ ?_ ordered (Nat.le_of_eq length) ?_ record' length same
  · intro types values record length same
    cases types with
    | nil =>
      cases record
      exact ⟨rfl, same⟩
    | cons t types => cases length
  · intro t types v asked values equal ih length same
    rw [codes, codes, List.append_assoc, List.append_assoc] at same
    obtain ⟨rfl, rests⟩ := ih (Nat.succ.inj length) (List.append_cancel_left same)
    exact ⟨rfl, rests⟩
  · intro t types p v asked values below length same
    rw [codes, codes, List.append_assoc, List.append_assoc] at same
    exact absurd same (below.codes.append _ _).ne
  · intro t types p v asked values above length same
    rw [codes, codes, List.append_assoc, List.append_assoc] at same
    exact absurd same.symm (above.codes.append _ _).ne
  · rw [length, List.take_length]
    exact record

end Tuples

/-! ### The entries of an index -/

section Index
variable {fieldTypes : List (String × FieldType)} {domain : Domain (fieldTypes.map Prod.snd)}

def entryCode (types : List FieldType) (entry : LogicalId × List Value) : List UInt8 :=
  codes entry.2 types ++ 0 :: utf8 entry.1

/-- The index lists the entries, each under its key. -/
structure Lists (domain : Domain (fieldTypes.map Prod.snd)) (idx : FieldIndex) (entries : Entries) :
    Prop where
  types : idx.fieldTypes = fieldTypes
  nodup : entries.Nodup
  record : ∀ entry ∈ entries, domain.Record entry.2
  listed : ∀ key id, idx.partition[key]? = some id ↔
    ∃ entry ∈ entries, entryCode (fieldTypes.map Prod.snd) entry = key ∧ entry.1 = id

theorem fullKey_record (id : LogicalId) {values : List Value} (record : domain.Record values) :
    fullKey (fieldTypes.map Prod.snd) id values =
      .ok (entryCode (fieldTypes.map Prod.snd) (id, values)) := by
  have fits := record.imp fun _ _ both => both.2
  unfold fullKey entryCode
  rw [encodeCompoundKey_codes fits]

theorem entryCode_injective (ordered : Ordered domain.has (fieldTypes.map Prod.snd))
    {entry entry' : LogicalId × List Value} (record : domain.Record entry.2)
    (record' : domain.Record entry'.2)
    (same : entryCode (fieldTypes.map Prod.snd) entry = entryCode (fieldTypes.map Prod.snd) entry') :
    entry = entry' := by
  obtain ⟨values, ids⟩ := codes_injective ordered record record' same
  exact Prod.ext (utf8_injective (List.cons.inj ids).2) values

theorem lists_empty : Lists domain ⟨∅, fieldTypes⟩ [] where
  types := rfl
  nodup := .nil
  record := nofun
  listed key id := by simp

theorem apply_insert {idx : FieldIndex} (own : idx.types = fieldTypes.map Prod.snd) {id : LogicalId}
    {values : List Value} (record : domain.Record values) :
    idx.apply (.insert id values) =
      ⟨idx.partition.insert (entryCode (fieldTypes.map Prod.snd) (id, values)) id, idx.fieldTypes⟩ := by
  have key := fullKey_record id record
  unfold FieldIndex.apply FieldIndex.insert
  rw [own]
  simp only [key]

theorem apply_remove {idx : FieldIndex} (own : idx.types = fieldTypes.map Prod.snd) {id : LogicalId}
    {values : List Value} (record : domain.Record values) :
    idx.apply (.remove id values) =
      ⟨idx.partition.erase (entryCode (fieldTypes.map Prod.snd) (id, values)), idx.fieldTypes⟩ := by
  have key := fullKey_record id record
  unfold FieldIndex.apply FieldIndex.remove
  rw [own]
  simp only [key]

theorem mem_apply_insert (entries : Entries) (id : LogicalId) (values : List Value)
    (entry : LogicalId × List Value) :
    entry ∈ entries.apply (.insert id values) ↔ entry ∈ entries ∨ entry = (id, values) := by
  unfold Entries.apply
  dsimp only
  split
  · rename_i there
    exact ⟨.inl, fun known => known.elim (fun here => here) fun same => same ▸ there⟩
  · simp

theorem Lists.insert (ordered : Ordered domain.has (fieldTypes.map Prod.snd)) {idx : FieldIndex}
    {entries : Entries} (lists : Lists domain idx entries) (id : LogicalId) {values : List Value}
    (record : domain.Record values) :
    Lists domain (idx.apply (.insert id values)) (entries.apply (.insert id values)) := by
  obtain ⟨types, nodup, records, listed⟩ := lists
  have records' : ∀ entry ∈ entries.apply (.insert id values), domain.Record entry.2 := by
    intro entry there
    rcases (mem_apply_insert entries id values entry).mp there with before | rfl
    · exact records entry before
    · exact record
  rw [apply_insert (congrArg (List.map Prod.snd) types) record]
  refine ⟨types, ?_, records', fun key i => ?_⟩
  · unfold Entries.apply
    dsimp only
    split
    · exact nodup
    · rename_i missing
      exact nodup.append (List.nodup_singleton _) (by simpa using missing)
  · rw [FinMap.get_insert]
    split
    · rename_i own
      constructor
      · intro same
        cases same
        exact ⟨(id, values), (mem_apply_insert ..).mpr (.inr rfl), own, rfl⟩
      · rintro ⟨entry, there, same, rfl⟩
        have here := entryCode_injective ordered record (records' entry there) (own.trans same.symm)
        rw [← here]
    · rename_i other
      rw [listed]
      constructor
      · rintro ⟨entry, there, same, rfl⟩
        exact ⟨entry, (mem_apply_insert ..).mpr (.inl there), same, rfl⟩
      · rintro ⟨entry, there, same, rfl⟩
        rcases (mem_apply_insert entries id values entry).mp there with before | rfl
        · exact ⟨entry, before, same, rfl⟩
        · exact absurd same other

theorem Lists.remove (ordered : Ordered domain.has (fieldTypes.map Prod.snd)) {idx : FieldIndex}
    {entries : Entries} (lists : Lists domain idx entries) (id : LogicalId) {values : List Value}
    (record : domain.Record values) :
    Lists domain (idx.apply (.remove id values)) (entries.apply (.remove id values)) := by
  obtain ⟨types, nodup, records, listed⟩ := lists
  have members (entry : LogicalId × List Value) : entry ∈ entries.apply (.remove id values) ↔
      entry ≠ (id, values) ∧ entry ∈ entries := nodup.mem_erase_iff
  rw [apply_remove (congrArg (List.map Prod.snd) types) record]
  refine ⟨types, nodup.erase _, fun entry there => records entry ((members entry).mp there).2,
    fun key i => ?_⟩
  rw [FinMap.get_erase]
  split
  · rename_i own
    refine iff_of_false nofun ?_
    rintro ⟨entry, there, same, rfl⟩
    obtain ⟨other, before⟩ := (members entry).mp there
    exact other (entryCode_injective ordered (records entry before) record (same.trans own.symm))
  · rename_i other
    rw [listed]
    constructor
    · rintro ⟨entry, there, same, rfl⟩
      refine ⟨entry, (members entry).mpr ⟨?_, there⟩, same, rfl⟩
      rintro rfl
      exact other same
    · rintro ⟨entry, there, same, rfl⟩
      exact ⟨entry, ((members entry).mp there).2, same, rfl⟩

theorem lists_of_changes (ordered : Ordered domain.has (fieldTypes.map Prod.snd))
    (changes : List IndexChange) (records : ∀ change ∈ changes, domain.Record change.values)
    {idx : FieldIndex} {entries : Entries} (lists : Lists domain idx entries) :
    Lists domain (changes.foldl FieldIndex.apply idx) (changes.foldl Entries.apply entries) := by
  induction changes generalizing idx entries with
  | nil => exact lists
  | cons change rest ih =>
    obtain ⟨record, others⟩ := List.forall_mem_cons.mp records
    cases change with
    | insert id values => exact ih others (lists.insert ordered id record)
    | remove id values => exact ih others (lists.remove ordered id record)

theorem Lists.perm (ordered : Ordered domain.has (fieldTypes.map Prod.snd)) {idx : FieldIndex}
    {entries : Entries} (lists : Lists domain idx entries) :
    idx.partition.toList.Perm
      (entries.map fun entry => (entryCode (fieldTypes.map Prod.snd) entry, entry.1)) := by
  refine (List.perm_ext_iff_of_nodup ?_ ?_).mpr fun kv => ?_
  · exact List.Nodup.of_map _ (FinMap.nodup_toList idx.partition)
  · refine lists.nodup.map_on fun entry there entry' there' same => ?_
    exact entryCode_injective ordered (lists.record entry there) (lists.record entry' there')
      (Prod.mk.inj same).1
  · obtain ⟨key, id⟩ := kv
    rw [FinMap.mem_toList, lists.listed, List.mem_map]
    constructor
    · rintro ⟨entry, there, rfl, rfl⟩
      exact ⟨entry, there, rfl⟩
    · rintro ⟨entry, there, same⟩
      cases same
      exact ⟨entry, there, rfl, rfl⟩

theorem Lists.returns (ordered : Ordered domain.has (fieldTypes.map Prod.snd)) {idx : FieldIndex}
    {entries : Entries} (lists : Lists domain idx entries) (chosen : List UInt8 → Bool)
    (test : List Value → Bool)
    (right : ∀ entry ∈ entries,
      chosen (entryCode (fieldTypes.map Prod.snd) entry) = test entry.2) :
    ((idx.partition.toList.filter fun kv => chosen kv.1).map Prod.snd).Perm
      ((entries.filter fun entry => test entry.2).map Prod.fst) := by
  have scanned := ((lists.perm ordered).filter fun kv => chosen kv.1).map Prod.snd
  rw [List.filter_map, List.map_map] at scanned
  refine scanned.trans (List.Perm.of_eq ?_)
  have same : entries.filter ((fun kv : List UInt8 × LogicalId => chosen kv.1) ∘
      fun entry => (entryCode (fieldTypes.map Prod.snd) entry, entry.1)) =
        entries.filter fun entry => test entry.2 := List.filter_congr right
  rw [same]
  rfl

/-! ### Lookups -/

theorem codes_take (values : List Value) (types : List FieldType) :
    codes values (types.take values.length) = codes values types := by
  induction values generalizing types with
  | nil => cases types <;> rfl
  | cons v values ih =>
    cases types with
    | nil => rfl
    | cons t types => rw [List.length_cons, List.take_succ_cons, codes, codes, ih]

theorem Domain.Leading.encoded {values : List Value} (leading : domain.Leading values) :
    encodeCompoundKey values (fieldTypes.map Prod.snd) =
      .ok (codes values (fieldTypes.map Prod.snd)) := by
  have fits := leading.2.imp fun _ _ both => both.2
  rw [encodeCompoundKey_take, encodeCompoundKey_codes fits, codes_take]

theorem Domain.Record.leading {values : List Value} (record : domain.Record values) :
    domain.Leading values := by
  have length := record.length_eq
  refine ⟨Nat.le_of_eq length, ?_⟩
  rw [length, List.take_length]
  exact record

theorem Admissible.ordered (admissible : Admissible domain) :
    Ordered domain.has (fieldTypes.map Prod.snd) :=
  fun _ listed _ _ here there => admissible.trichotomy listed here.1 there.1 here.2 there.2

theorem Lists.prefix_returns (admissible : Admissible domain) {idx : FieldIndex} {entries : Entries}
    (lists : Lists domain idx entries) {values : List Value} (leading : domain.Leading values) :
    Returns entries (leads values)
      (.ok (idx.scanPrefix (codes values (fieldTypes.map Prod.snd)))) := by
  refine ⟨_, rfl, ?_⟩
  refine lists.returns admissible.ordered
    (fun key => (codes values (fieldTypes.map Prod.snd)).isPrefixOf key) _ fun entry there => ?_
  rw [Bool.eq_iff_iff, List.isPrefixOf_iff_prefix]
  exact codes_start _ values entry.2 _ admissible.ordered leading.1 leading.2
    (lists.record entry there)

theorem Lists.lookupsExact (admissible : Admissible domain) {idx : FieldIndex} {entries : Entries}
    (lists : Lists domain idx entries) : LookupsExact domain idx entries := by
  have own : idx.types = fieldTypes.map Prod.snd := congrArg (List.map Prod.snd) lists.types
  constructor
  · intro values record
    have length : values.length = idx.fieldTypes.length := by
      rw [record.length_eq, List.length_map, lists.types]
    have found : idx.lookupEq values =
        .ok (idx.scanPrefix (codes values (fieldTypes.map Prod.snd))) := by
      unfold FieldIndex.lookupEq
      rw [if_neg (not_not.mpr length), own, record.leading.encoded]
      rfl
    rw [found]
    exact lists.prefix_returns admissible record.leading
  · intro values leading
    have found : idx.lookupPrefix values =
        .ok (idx.scanPrefix (codes values (fieldTypes.map Prod.snd))) := by
      unfold FieldIndex.lookupPrefix
      rw [own, ← encodeCompoundKey_take, leading.encoded]
      rfl
    rw [found]
    exact lists.prefix_returns admissible leading
  · intro lower upper above below
    unfold FieldIndex.lookupRange
    rw [own, above.encoded, below.encoded]
    refine ⟨_, rfl, ?_⟩
    refine lists.returns admissible.ordered
      (FieldIndex.inRange (codes lower (fieldTypes.map Prod.snd))
        (codes upper (fieldTypes.map Prod.snd) ++ FieldIndex.rangePadding))
      (fun values => atLeast lower values && atMost upper values) fun entry there => ?_
    have record := lists.record entry there
    unfold FieldIndex.inRange entryCode
    rw [codes_atLeast _ lower entry.2 _ admissible.ordered above.1 above.2 record,
      codes_atMost _ upper entry.2 _ admissible.ordered below.1 below.2 record
        (admissible.padding entry.2 record)]

/-! ### Indexes of one entry -/

theorem single_mem (key : List UInt8) (id : LogicalId) (chosen : List UInt8 → Bool) :
    id ∈ ((((∅ : FinMap (List UInt8) LogicalId).insert key id).toList.filter fun kv =>
      chosen kv.1).map Prod.snd) ↔ chosen key = true := by
  simp only [List.mem_map, List.mem_filter]
  constructor
  · rintro ⟨⟨k, i⟩, ⟨there, passes⟩, rfl⟩
    have found := (FinMap.mem_toList _ _ _).mp there
    rw [FinMap.get_insert] at found
    split at found
    · rename_i same
      exact same ▸ passes
    · simp at found
  · intro passes
    have found : ((∅ : FinMap (List UInt8) LogicalId).insert key id)[key]? = some id := by
      rw [FinMap.get_insert, if_pos rfl]
    exact ⟨(key, id), ⟨(FinMap.mem_toList _ _ _).mpr found, passes⟩, rfl⟩

theorem returned_iff {id : LogicalId} {values : List Value} {test : List Value → Bool}
    {key : List UInt8} (chosen : List UInt8 → Bool) {found : Except EngineError (List LogicalId)}
    (same : found = .ok ((((∅ : FinMap (List UInt8) LogicalId).insert key id).toList.filter fun kv =>
      chosen kv.1).map Prod.snd))
    (returns : Returns [(id, values)] test found) : chosen key = test values := by
  obtain ⟨ids, ok, perm⟩ := returns
  cases same.symm.trans ok
  rw [Bool.eq_iff_iff, ← single_mem key id chosen, perm.mem_iff]
  by_cases passes : test values = true
  · simp [passes]
  · simp [passes]

theorem AlwaysExact.single (exact : AlwaysExact fieldTypes domain) {values : List Value}
    (record : domain.Record values) :
    LookupsExact domain ⟨(∅ : FinMap (List UInt8) LogicalId).insert
      (entryCode (fieldTypes.map Prod.snd) ("x", values)) "x", fieldTypes⟩ [("x", values)] := by
  have here := exact [.insert "x" values] (List.forall_mem_singleton.mpr record)
  rw [List.foldl_cons, List.foldl_nil, apply_insert rfl record] at here
  exact here

theorem AlwaysExact.leading_iff (exact : AlwaysExact fieldTypes domain) {asked values : List Value}
    (leading : domain.Leading asked) (record : domain.Record values) :
    codes asked (fieldTypes.map Prod.snd) <+:
      entryCode (fieldTypes.map Prod.snd) ("x", values) ↔ leads asked values = true := by
  rw [← List.isPrefixOf_iff_prefix, ← Bool.eq_iff_iff]
  refine returned_iff (fun key => (codes asked (fieldTypes.map Prod.snd)).isPrefixOf key) ?_
    ((exact.single record).leading asked leading)
  unfold FieldIndex.lookupPrefix FieldIndex.types
  rw [← encodeCompoundKey_take, leading.encoded]
  rfl

theorem AlwaysExact.range_iff (exact : AlwaysExact fieldTypes domain)
    {lower upper values : List Value} (above : domain.Leading lower) (below : domain.Leading upper)
    (record : domain.Record values) :
    FieldIndex.inRange (codes lower (fieldTypes.map Prod.snd))
      (codes upper (fieldTypes.map Prod.snd) ++ FieldIndex.rangePadding)
      (entryCode (fieldTypes.map Prod.snd) ("x", values)) =
        (atLeast lower values && atMost upper values) := by
  refine returned_iff _ ?_ ((exact.single record).range lower upper above below)
  unfold FieldIndex.lookupRange FieldIndex.types
  rw [above.encoded, below.encoded]
  rfl

/-! ### Records around one field -/

theorem Domain.values (domain : Domain (fieldTypes.map Prod.snd)) (types : List FieldType)
    (listed : ∀ t ∈ types, t ∈ fieldTypes.map Prod.snd) :
    ∃ values, List.Forall₂ (fun v t => domain.has v ∧ Fits v t) values types := by
  induction types with
  | nil => exact ⟨[], .nil⟩
  | cons t types ih =>
    obtain ⟨here, others⟩ := List.forall_mem_cons.mp listed
    obtain ⟨v, has⟩ := domain.inhabited t here
    obtain ⟨values, rest⟩ := ih others
    exact ⟨v :: values, .cons has rest⟩

theorem codes_append {values rest : List Value} {types more : List FieldType}
    (length : values.length = types.length) :
    codes (values ++ rest) (types ++ more) = codes values types ++ codes rest more := by
  induction values generalizing types with
  | nil =>
    cases types with
    | nil => rfl
    | cons t types => cases length
  | cons v values ih =>
    cases types with
    | nil => cases length
    | cons t types =>
      rw [List.cons_append, List.cons_append, codes, codes, ih (Nat.succ.inj length),
        List.append_assoc]

/-- Values of the domain before and behind a field, and the codes of those before it. -/
structure Surrounds (domain : Domain (fieldTypes.map Prod.snd)) (t : FieldType)
    (front back : List Value) (start : List UInt8) : Prop where
  leading : ∀ v, domain.has v → Fits v t → domain.Leading (front ++ [v])
  record : ∀ v, domain.has v → Fits v t → domain.Record (front ++ v :: back)
  known : ∀ v ∈ front, ∃ t ∈ fieldTypes.map Prod.snd, domain.has v ∧ Fits v t
  asked : ∀ v, codes (front ++ [v]) (fieldTypes.map Prod.snd) = start ++ code v t
  key : ∀ v, ∃ rest, entryCode (fieldTypes.map Prod.snd) ("x", front ++ v :: back) =
    start ++ (code v t ++ rest)

theorem Domain.surrounds (domain : Domain (fieldTypes.map Prod.snd)) {t : FieldType}
    (listed : t ∈ fieldTypes.map Prod.snd) :
    ∃ front back start, Surrounds domain t front back start := by
  obtain ⟨before, behind, types⟩ := List.append_of_mem listed
  obtain ⟨front, allFront⟩ := domain.values before fun t there => by
    rw [types]
    exact List.mem_append_left _ there
  obtain ⟨back, allBack⟩ := domain.values behind fun t there => by
    rw [types]
    exact List.mem_append_right _ (List.mem_cons_of_mem _ there)
  have length := allFront.length_eq
  refine ⟨front, back, codes front before, ?_⟩
  constructor
  · intro v has fits
    have taken : (fieldTypes.map Prod.snd).take (front ++ [v]).length = before ++ [t] := by
      rw [types, List.length_append, length, List.length_singleton, List.take_length_add_append]
      rfl
    refine ⟨?_, ?_⟩
    · rw [types, List.length_append, List.length_append, length]
      simp
    · rw [taken]
      exact List.rel_append allFront (.cons ⟨has, fits⟩ .nil)
  · intro v has fits
    have whole := List.rel_append allFront (.cons ⟨has, fits⟩ allBack)
    exact Eq.subst (motive := List.Forall₂ (fun v t => domain.has v ∧ Fits v t) (front ++ v :: back))
      types.symm whole
  · intro v there
    obtain ⟨i, inside, rfl⟩ := List.getElem_of_mem there
    have within : i < before.length := length ▸ inside
    refine ⟨before[i], ?_, (List.forall₂_iff_get.mp allFront).2 i inside within⟩
    rw [types]
    exact List.mem_append_left _ (List.getElem_mem within)
  · intro v
    rw [types, codes_append length, codes]
    cases behind <;> simp [codes]
  · intro v
    refine ⟨codes back behind ++ 0 :: utf8 "x", ?_⟩
    unfold entryCode
    rw [types, codes_append length, codes, List.append_assoc, List.append_assoc]

theorem shared_front {test : List Value → List Value → Bool}
    (next : ∀ v asked values, v.eq v = true → test (v :: asked) (v :: values) = test asked values)
    {front : List Value} (same : ∀ v ∈ front, v.eq v = true) (asked values : List Value) :
    test (front ++ asked) (front ++ values) = test asked values := by
  induction front with
  | nil => rfl
  | cons v front ih =>
    obtain ⟨here, others⟩ := List.forall_mem_cons.mp same
    rw [List.cons_append, List.cons_append, next v _ _ here, ih others]

theorem leads_append {front : List Value} (same : ∀ v ∈ front, v.eq v = true)
    (asked values : List Value) : leads (front ++ asked) (front ++ values) = leads asked values :=
  shared_front (fun v _ _ equal => by rw [leads, equal, Bool.true_and]) same asked values

theorem atLeast_append {front : List Value} (same : ∀ v ∈ front, v.eq v = true)
    (asked values : List Value) : atLeast (front ++ asked) (front ++ values) = atLeast asked values :=
  shared_front (fun v _ _ equal => by rw [atLeast, equal, v.not_below_self, Bool.true_and, Bool.false_or])
    same asked values

theorem atMost_append {front : List Value} (same : ∀ v ∈ front, v.eq v = true)
    (asked values : List Value) : atMost (front ++ asked) (front ++ values) = atMost asked values :=
  shared_front (fun v _ _ equal => by rw [atMost, equal, v.not_below_self, Bool.true_and, Bool.false_or])
    same asked values

theorem codes_split (values : List Value) (types : List FieldType) (k : Nat) :
    codes values types = codes (values.take k) types ++ codes (values.drop k) (types.drop k) := by
  induction k generalizing values types with
  | zero => cases types <;> rfl
  | succ k ih =>
    cases values with
    | nil => cases types <;> simp [codes]
    | cons v values =>
      cases types with
      | nil => simp [codes]
      | cons t types =>
        rw [List.take_succ_cons, List.drop_succ_cons, List.drop_succ_cons, codes, codes,
          List.append_assoc, ← ih]

/-! ### What exact lookups need -/

section Needed
variable (exact : AlwaysExact fieldTypes domain)
include exact

theorem AlwaysExact.not_nan {t : FieldType} (listed : t ∈ fieldTypes.map Prod.snd) {v : Value}
    (has : domain.has v) (fits : Fits v t) : v.eq v = true := by
  obtain ⟨front, back, start, around⟩ := domain.surrounds listed
  obtain ⟨rest, key⟩ := around.key v
  have found : codes (front ++ [v]) (fieldTypes.map Prod.snd) <+:
      entryCode (fieldTypes.map Prod.snd) ("x", front ++ v :: back) := by
    rw [key, around.asked, ← List.append_assoc]
    exact List.prefix_append _ _
  have equal := (exact.leading_iff (around.leading v has fits) (around.record v has fits)).mp found
  have inside (front : List Value) (equal : leads (front ++ [v]) (front ++ v :: back) = true) :
      v.eq v = true := by
    induction front with
    | nil =>
      rw [List.nil_append, List.nil_append, leads, Bool.and_eq_true] at equal
      exact equal.1
    | cons w front ih =>
      rw [List.cons_append, List.cons_append, leads, Bool.and_eq_true] at equal
      exact ih equal.2
  exact inside front equal

theorem AlwaysExact.front_same {t : FieldType} {front back : List Value} {start : List UInt8}
    (around : Surrounds domain t front back start) : ∀ v ∈ front, v.eq v = true := by
  intro v there
  obtain ⟨t, listed, has, fits⟩ := around.known v there
  exact exact.not_nan listed has fits

theorem AlwaysExact.field_start {t : FieldType} (listed : t ∈ fieldTypes.map Prod.snd) {p v : Value}
    (has : domain.has p) (has' : domain.has v) (fits : Fits p t) (fits' : Fits v t) :
    (code p t <+: code v t → v.eq p = true) ∧
      (v.eq p = true → ∃ rest, code p t <+: code v t ++ rest) := by
  obtain ⟨front, back, start, around⟩ := domain.surrounds listed
  obtain ⟨rest, key⟩ := around.key v
  have found := exact.leading_iff (around.leading p has fits) (around.record v has' fits')
  rw [key, around.asked, List.prefix_append_right_inj,
    leads_append (exact.front_same around), leads, leads, Bool.and_true] at found
  exact ⟨fun starts => found.mp (starts.trans (List.prefix_append _ _)),
    fun equal => ⟨rest, found.mpr equal⟩⟩

theorem AlwaysExact.field_range {t : FieldType} (listed : t ∈ fieldTypes.map Prod.snd)
    {low v : Value} (has : domain.has low) (has' : domain.has v) (fits : Fits low t)
    (fits' : Fits v t) (below : low.below v = true) : ¬ Precedes (code v t) (code low t) := by
  intro precedes
  obtain ⟨front, back, start, around⟩ := domain.surrounds listed
  obtain ⟨rest, key⟩ := around.key v
  have same := exact.front_same around
  have found := exact.range_iff (around.leading low has fits) (around.leading v has' fits')
    (around.record v has' fits')
  rw [atLeast_append same, atMost_append same, atLeast, atMost, atMost, below,
    exact.not_nan listed has' fits'] at found
  have low_ : (compare (codes (front ++ [low]) (fieldTypes.map Prod.snd))
      (entryCode (fieldTypes.map Prod.snd) ("x", front ++ v :: back))).isLE = false := by
    rw [key, around.asked, compare_append_left]
    have above := (precedes.append rest []).compare_eq
    rw [List.append_nil] at above
    rw [bytes_compare_swap, above]
    rfl
  unfold FieldIndex.inRange at found
  rw [low_] at found
  simp at found

theorem AlwaysExact.texts {t : FieldType} (listed : t ∈ fieldTypes.map Prod.snd)
    (textual : t.Textual) {s s' : String} (has : domain.has (.string s))
    (has' : domain.has (.string s')) (differ : s ≠ s') : ¬ utf8 s ++ [0] <+: utf8 s' := by
  obtain ⟨witness, bytes, encoded⟩ := textual
  have encode (s : String) : encodeSortable (.string s) t = .ok (utf8 s ++ [0]) := by
    cases t <;> simp [encodeSortable] at encoded ⊢
  intro starts
  have prefixes : code (.string s) t <+: code (.string s') t := by
    rw [code_of_ok (encode s), code_of_ok (encode s')]
    exact starts.trans (List.prefix_append _ _)
  have equal := (exact.field_start listed has has' ⟨_, encode s⟩ ⟨_, encode s'⟩).1 prefixes
  exact differ (of_decide_eq_true equal).symm

theorem AlwaysExact.numbers (listed : .float ∈ fieldTypes.map Prod.snd) {f : F64}
    (has : domain.has (.float f)) :
    f.isNaN = false ∧ (f = negativeZero → ∀ g, domain.has (.float g) → g ≠ f → 0 < g.key) := by
  have fits (f : F64) : Fits (.float f) .float := ⟨_, rfl⟩
  have number {f : F64} (has : domain.has (.float f)) : f.isNaN = false := by
    have same : f.eq f = true := exact.not_nan listed has (fits f)
    simp only [F64.eq, Bool.and_eq_true, Bool.not_eq_true'] at same
    exact same.1.1
  refine ⟨number has, fun lowest g has' differ => ?_⟩
  subst lowest
  have zeroKey : negativeZero.key = 0 := by decide
  have codeZero : code (.float negativeZero) .float = beBytes 8 (sortableFloat negativeZero).toNat := rfl
  have codeG : code (.float g) .float = beBytes 8 (sortableFloat g).toNat := rfl
  have word := sortableFloat_eq (number has)
  have word' := sortableFloat_eq (number has')
  have bounds := key_bounds (number has')
  rw [if_pos rfl] at word
  rw [if_neg differ] at word'
  by_contra notAbove
  rcases Int.lt_or_eq_of_le (Int.not_lt.mp notAbove) with below | zero
  · have order : (Value.float g).below (.float negativeZero) = true := by
      refine (valueLt_float (number has') (number has)).mpr ?_
      rw [zeroKey]
      exact below
    refine exact.field_range listed has' has (fits g) (fits _) order ?_
    rw [codeZero, codeG]
    refine precedes_beBytes (UInt64.toNat_lt _) ?_
    split at word' <;> omega
  · have equal : (Value.float g).eq (.float negativeZero) = true := by
      change g.eq negativeZero = true
      simp [F64.eq, number has, number has', zero, zeroKey]
    obtain ⟨rest, starts⟩ := (exact.field_start listed has has' (fits _) (fits g)).2 equal
    rw [codeZero, codeG] at starts
    have bytes := eq_of_prefix (by simp) starts
    have words := beBytes_injective (UInt64.toNat_lt _) (UInt64.toNat_lt _) bytes
    split at word' <;> omega

theorem AlwaysExact.padding {values : List Value} (record : domain.Record values) (k : Nat) :
    ¬ FieldIndex.rangePadding <+:
      codes (values.drop k) ((fieldTypes.map Prod.snd).drop k) := by
  rintro ⟨rest, suffix⟩
  have same : ∀ v ∈ values, v.eq v = true := by
    intro v there
    obtain ⟨i, inside, rfl⟩ := List.getElem_of_mem there
    have within : i < (fieldTypes.map Prod.snd).length := record.length_eq ▸ inside
    obtain ⟨has, fits⟩ := (List.forall₂_iff_get.mp record).2 i inside within
    exact exact.not_nan (List.getElem_mem within) has fits
  have leading : domain.Leading (values.take k) := by
    refine ⟨?_, ?_⟩
    · rw [← record.length_eq, List.length_take]
      exact Nat.min_le_right _ _
    · rw [List.length_take, record.length_eq, ← List.take_take, List.take_length]
      exact List.forall₂_take k record
  have none_ : domain.Leading [] := ⟨Nat.zero_le _, by simp⟩
  have found := exact.range_iff none_ leading record
  have most : atMost (values.take k) values = true := by
    have front : ∀ v ∈ values.take k, v.eq v = true :=
      fun v there => same v (List.mem_of_mem_take there)
    have here := atMost_append front [] (values.drop k)
    rwa [List.append_nil, List.take_append_drop] at here
  have above : (compare (entryCode (fieldTypes.map Prod.snd) ("x", values))
      (codes (values.take k) (fieldTypes.map Prod.snd) ++ FieldIndex.rangePadding)).isLE = false := by
    unfold entryCode
    rw [codes_split values _ k, ← suffix, List.append_assoc, compare_append_left,
      bytes_compare_swap, List.append_assoc, compare_longer (by simp)]
    rfl
  unfold FieldIndex.inRange at found
  rw [above, most, atLeast] at found
  simp at found

end Needed

/-- Lookups are exact after all changes with values of a domain exactly if the domain is one that
the keys can tell apart and keep in order. -/
theorem alwaysExact_iff (fieldTypes : List (String × FieldType))
    (domain : Domain (fieldTypes.map Prod.snd)) :
    AlwaysExact fieldTypes domain ↔ Admissible domain := by
  constructor
  · intro exact_
    exact {
      texts := fun ⟨_, listed, textual⟩ _ _ has has' differ =>
        exact_.texts listed textual has has' differ
      numbers := fun listed _ has => exact_.numbers listed has
      padding := fun _ record k => exact_.padding record k }
  · intro admissible changes records
    exact (lists_of_changes admissible.ordered changes records lists_empty).lookupsExact admissible

/-- A text with a null byte is found under what precedes the byte. -/
theorem found_under_its_start :
    ¬ ∀ domain : Domain [.text], AlwaysExact [("name", .text)] domain := by
  intro always
  have every (t : FieldType) (listed : t ∈ [FieldType.text]) : ∃ v, True ∧ Fits v t := by
    rw [List.mem_singleton.mp listed]
    exact ⟨.string "", trivial, _, rfl⟩
  let domain : Domain [.text] := ⟨fun _ => True, every⟩
  have fits (s : String) : domain.Record [.string s] := .cons ⟨trivial, _, rfl⟩ .nil
  have exact_ := always domain [.insert "e1" [.string "a\x00b"]] (by
    intro change there
    rw [List.mem_singleton.mp there]
    exact fits _)
  obtain ⟨ids, found, none_⟩ := exact_.equal [.string "a"] (fits _)
  have one : (FieldIndex.apply ⟨∅, [("name", .text)]⟩ (.insert "e1" [.string "a\x00b"])).lookupEq
      [.string "a"] = .ok ["e1"] := by decide
  have listed : [IndexChange.insert "e1" [.string "a\x00b"]].foldl Entries.apply [] =
      [("e1", [.string "a\x00b"])] := rfl
  rw [List.foldl_cons, List.foldl_nil, one] at found
  cases found
  rw [listed] at none_
  have length := none_.length_eq
  have differ : leads [.string "a"] [.string "a\x00b"] = false := by decide
  simp [differ] at length

end Index

end TronDB.Core
