import TronDB.Core.EncodedOrder

/-! What a field index can tell of the values it lists: their types, the places of numbers, and
which values a lookup takes for the one it is asked for. -/
namespace TronDB.Core
open Binary Bytes

/-- The value has the type of the field. -/
def Value.hasType : Value → FieldType → Bool
  | .string _, .text | .string _, .entityRef _ | .string _, .dateTime => true
  | .bool _, .bool | .int _, .int | .float _, .float => true
  | _, _ => false

theorem hasType_iff (v : Value) (t : FieldType) :
    v.hasType t = true ↔ ∃ bytes, encodeSortable v t = .ok bytes := by
  cases v <;> cases t <;> simp [encodeSortable, Value.hasType]

/-! ### Numbers -/

/-- The negative zero is below all other numbers, and a NaN without sign is next to 0. -/
def floatPlace (f : F64) : Int :=
  if f = negativeZero then 1 - 2 ^ 63
  else if f.isNaN ∧ f.bits.toNat < 2 ^ 63 then 2 ^ 63 - 1 - f.magnitude
  else f.key

/-- The place of a number in an index. -/
def Value.place : Value → Option Int
  | .int n => some n.toInt
  | .float f => some (floatPlace f)
  | _ => none

theorem sortableFloat_place (f : F64) : ((sortableFloat f).toNat : Int) =
    if 0 ≤ floatPlace f then 2 ^ 63 + floatPlace f else 2 ^ 63 - 1 + floatPlace f := by
  have range := f.bits.toNat_lt
  have magnitude : f.magnitude = f.bits.toNat % 2 ^ 63 := rfl
  have key : f.key = if 2 ^ 63 ≤ f.bits.toNat then -(f.magnitude : Int) else f.magnitude := by
    simp [F64.key, F64.negative]
  unfold floatPlace
  cases nan : f.isNaN with
  | false =>
    rw [sortableFloat_eq nan]
    split
    · rfl
    · simp
  | true =>
    have number : f ≠ negativeZero := by
      rintro rfl
      cases nan
    have below : f.ge ⟨0⟩ = false := by simp [F64.ge, nan]
    have flipped : (~~~ f.bits).toNat = 2 ^ 64 - 1 - f.bits.toNat := by simp
    have large : 0x7FF * 2 ^ 52 < f.magnitude := of_decide_eq_true nan
    rw [if_neg number, sortableFloat, below]
    simp only [Bool.false_eq_true, if_false, true_and, flipped]
    split at key
    · rw [if_neg (by omega), if_neg (by omega)]
      omega
    · rw [if_pos (by omega), if_pos (by omega)]
      omega

theorem sortableFloat_le_iff (f g : F64) :
    (sortableFloat f).toNat ≤ (sortableFloat g).toNat ↔ floatPlace f ≤ floatPlace g := by
  have word := sortableFloat_place f
  have word' := sortableFloat_place g
  have low := (sortableFloat f).toNat_lt
  split at word <;> split at word' <;> omega

/-- The eight bytes of a number, as a word. -/
def Value.word : Value → UInt64
  | .int n => n.toUInt64 ^^^ signBit
  | .float f => sortableFloat f
  | _ => 0

theorem encode_number {v : Value} {t : FieldType} {k : Int} (typed : v.hasType t = true)
    (number : v.place = some k) : encodeSortable v t = .ok (beBytes 8 v.word.toNat) := by
  cases v <;> cases t <;> first | cases typed; done | cases number; done | rfl

theorem word_le_iff {v w : Value} {t : FieldType} {k m : Int} (typed : v.hasType t = true)
    (typed' : w.hasType t = true) (number : v.place = some k) (number' : w.place = some m) :
    v.word.toNat ≤ w.word.toNat ↔ k ≤ m := by
  cases v with
  | int n =>
    cases t <;> cases typed
    cases w <;> cases typed'
    rename_i n'
    cases number
    cases number'
    have here := sortableInt_eq n
    have there := sortableInt_eq n'
    unfold Value.word
    dsimp only
    omega
  | float f =>
    cases t <;> cases typed
    cases w <;> cases typed'
    rename_i g
    cases number
    cases number'
    exact sortableFloat_le_iff f g
  | string s => cases number
  | bool b => cases number
  | null => cases number

/-! ### What a lookup takes for its literal -/

/-- A lookup of the literal finds an entity with this value: a text goes on with null bytes where
the literal does, numbers are in one place. -/
def Value.takenFor (lit v : Value) (id : LogicalId) : Bool :=
  match lit, v with
  | .string a, .string b => (a.toList ++ ['\x00']).isPrefixOf (b.toList ++ '\x00' :: '\x00' :: id.toList)
  | .float x, .float y => floatPlace x = floatPlace y
  | .int m, .int n => m = n
  | .bool p, .bool q => p = q
  | _, _ => false

theorem utf8_prefix_iff (l m : List Char) :
    l.flatMap String.utf8EncodeChar <+: m.flatMap String.utf8EncodeChar ↔ l <+: m := by
  constructor
  · rintro ⟨rest, same⟩
    refine List.isPrefix_of_utf8Encode_append_eq_utf8Encode ⟨rest.toArray⟩ ?_
    refine ByteArray.ext (Array.toList_inj.mp ?_)
    simpa [List.utf8Encode] using same
  · rintro ⟨rest, rfl⟩
    rw [List.flatMap_append]
    exact List.prefix_append _ _

/-- A key starts with the bytes of the literal if its value is taken for it. -/
theorem starts_iff {lit v : Value} {t : FieldType} {start whole : List UInt8} (id : LogicalId)
    (encoded : encodeSortable lit t = .ok start) (encoded' : encodeSortable v t = .ok whole) :
    start <+: whole ++ 0 :: utf8 id ↔ lit.takenFor v id = true := by
  have textual (s : String) (t : FieldType) (start : List UInt8)
      (ok : encodeSortable (.string s) t = .ok start) : t ≠ .bool ∧ t ≠ .int ∧ t ≠ .float := by
    cases t <;> cases ok <;> simp
  have words (m n : UInt64) : beBytes 8 m.toNat <+: beBytes 8 n.toNat ++ 0 :: utf8 id ↔ m = n := by
    constructor
    · intro starts
      have same := eq_of_prefix (by simp) starts
      exact UInt64.toNat_inj.mp (beBytes_injective m.toNat_lt n.toNat_lt same)
    · rintro rfl
      exact List.prefix_append _ _
  cases encoded_of_ok encoded with
  | text a =>
    obtain ⟨notBool, notInt, notFloat⟩ := textual a t _ encoded
    cases encoded_of_ok encoded' with
    | text b =>
      have null : String.utf8EncodeChar '\x00' = [0] := rfl
      have left : utf8 a ++ [0] = (a.toList ++ ['\x00']).flatMap String.utf8EncodeChar := by
        rw [utf8_eq, List.flatMap_append, List.flatMap_singleton, null]
      have right : utf8 b ++ [0] ++ 0 :: utf8 id =
          (b.toList ++ '\x00' :: '\x00' :: id.toList).flatMap String.utf8EncodeChar := by
        rw [utf8_eq b, utf8_eq id, List.flatMap_append, List.flatMap_cons, List.flatMap_cons, null,
          List.append_assoc]
        rfl
      rw [left, right, utf8_prefix_iff, Value.takenFor, List.isPrefixOf_iff_prefix]
    | bool => exact absurd rfl notBool
    | int => exact absurd rfl notInt
    | float => exact absurd rfl notFloat
  | bool p =>
    cases encoded_of_ok encoded' with
    | text s' => exact absurd rfl (textual s' _ _ encoded').1
    | bool q => cases p <;> cases q <;> simp [Value.takenFor]
  | int m =>
    cases encoded_of_ok encoded' with
    | text s' => exact absurd rfl (textual s' _ _ encoded').2.1
    | int n =>
      rw [words, Value.takenFor, decide_eq_true_eq]
      exact ⟨fun same => sortableInt_injective (congrArg UInt64.toNat same), fun same => same ▸ rfl⟩
  | float x =>
    cases encoded_of_ok encoded' with
    | text s' => exact absurd rfl (textual s' _ _ encoded').2.2
    | float y =>
      have up := sortableFloat_le_iff x y
      have down := sortableFloat_le_iff y x
      rw [words, Value.takenFor, decide_eq_true_eq, ← UInt64.toNat_inj]
      omega

theorem takenFor_typed {lit v : Value} {t : FieldType} {id : LogicalId} (typed : lit.hasType t = true)
    (taken : lit.takenFor v id = true) : v.hasType t = true := by
  cases lit <;> cases v <;> first | cases taken | (cases t <;> first | rfl | cases typed)

/-! ### The key of an entity -/

theorem entryKey_nil (e : Entity) : entryKey [] e = some (0 :: utf8 e.id) := rfl

theorem entryKey_cons (f : String) (t : FieldType) (others : List (String × FieldType)) (e : Entity)
    (key : List UInt8) : entryKey ((f, t) :: others) e = some key ↔
      ∃ v code tail, e.metadata[f]? = some v ∧ encodeSortable v t = .ok code ∧
        entryKey others e = some tail ∧ key = code ++ tail := by
  have short : (indexedValues others e).length ≤ others.length := List.length_filterMap_le _ _
  cases value : e.metadata[f]? with
  | none =>
    have values : indexedValues ((f, t) :: others) e = indexedValues others e := by
      simp [indexedValues, value]
    have missing : (indexedValues others e).length ≠ ((f, t) :: others).length := by
      rw [List.length_cons]
      omega
    unfold entryKey
    rw [values, if_neg missing]
    simp
  | some v =>
    have values : indexedValues ((f, t) :: others) e = v :: indexedValues others e := by
      simp [indexedValues, value]
    unfold entryKey fullKey
    simp only [values, List.length_cons, Nat.add_right_cancel_iff, List.map_cons, encodeCompoundKey]
    cases first : encodeSortable v t with
    | error err => simp [first, Except.toOption, Bind.bind, Except.bind]
    | ok code =>
      cases encodeCompoundKey (indexedValues others e) (others.map Prod.snd) with
      | error err => simp [Except.toOption, Bind.bind, Except.bind]
      | ok rest =>
        by_cases all : (indexedValues others e).length = others.length <;>
          simp [all, first, Except.toOption, Bind.bind, Except.bind, eq_comm]

theorem entryKey_parts {types : List (String × FieldType)} {e : Entity} {key : List UInt8}
    (keyed : entryKey types e = some key) :
    ∃ bytes, encodeCompoundKey (indexedValues types e) (types.map Prod.snd) = .ok bytes ∧
      key = bytes ++ 0 :: utf8 e.id := by
  unfold entryKey fullKey at keyed
  dsimp only at keyed
  split at keyed
  · cases encoded : encodeCompoundKey (indexedValues types e) (types.map Prod.snd) with
    | error err => simp [encoded, Except.toOption] at keyed
    | ok bytes =>
      rw [encoded] at keyed
      exact ⟨bytes, rfl, (Option.some.inj keyed).symm⟩
  · cases keyed

/-- An entity is listed if it has a value of its type for every field. -/
def Entity.listed (e : Entity) (types : List (String × FieldType)) : Prop :=
  ∀ field ∈ types, ∃ v, e.metadata[field.1]? = some v ∧ v.hasType field.2 = true

theorem listed_iff (types : List (String × FieldType)) (e : Entity) :
    e.listed types ↔ ∃ key, entryKey types e = some key := by
  induction types with
  | nil => simp [Entity.listed, entryKey_nil]
  | cons field others ih =>
    obtain ⟨f, t⟩ := field
    have rest : e.listed ((f, t) :: others) ↔
        (∃ v, e.metadata[f]? = some v ∧ v.hasType t = true) ∧ e.listed others := by
      simp [Entity.listed]
    simp only [rest, ih, entryKey_cons, hasType_iff]
    constructor
    · rintro ⟨⟨v, value, code, encoded⟩, tail, listed⟩
      exact ⟨_, v, code, tail, value, encoded, listed, rfl⟩
    · rintro ⟨_, v, code, tail, value, encoded, listed, -⟩
      exact ⟨⟨v, value, code, encoded⟩, tail, listed⟩

/-! ### Keys between bounds -/

theorem compare_words_append (m n : UInt64) (x y : List UInt8) :
    (compare (beBytes 8 m.toNat ++ x) (beBytes 8 n.toNat ++ y)).isLE = true ↔
      m.toNat < n.toNat ∨ m = n ∧ (compare x y).isLE = true := by
  rcases Nat.lt_trichotomy m.toNat n.toNat with below | same | above
  · have precedes : Precedes (beBytes 8 m.toNat) (beBytes 8 n.toNat) := precedes_beBytes n.toNat_lt below
    rw [(precedes.append x y).compare_eq]
    simp [below]
  · rw [UInt64.toNat_inj.mp same, compare_append_left]
    simp
  · have precedes : Precedes (beBytes 8 n.toNat) (beBytes 8 m.toNat) := precedes_beBytes m.toNat_lt above
    have differ : m ≠ n := fun same => absurd above (by simp [same])
    rw [bytes_compare_swap, (precedes.append y x).compare_eq]
    simp [differ, Nat.le_of_lt above]

theorem padding_iff (bytes rest : List UInt8) :
    (compare (bytes ++ 0 :: rest) FieldIndex.rangePadding).isLE = true ↔
      ¬ FieldIndex.rangePadding <+: bytes := by
  constructor
  · rintro below ⟨more, rfl⟩
    rw [List.append_assoc, bytes_compare_swap, compare_longer (by simp)] at below
    cases below
  · exact fun short => compare_padding short rest

theorem inRange_iff (m n w : UInt64) (bytes rest : List UInt8) :
    FieldIndex.inRange (beBytes 8 m.toNat) (beBytes 8 n.toNat ++ FieldIndex.rangePadding)
        (beBytes 8 w.toNat ++ (bytes ++ 0 :: rest)) = true ↔
      m.toNat ≤ w.toNat ∧ w.toNat ≤ n.toNat ∧ (w = n → ¬ FieldIndex.rangePadding <+: bytes) := by
  have lower := compare_words_append m w [] (bytes ++ 0 :: rest)
  have first : (compare [] (bytes ++ 0 :: rest)).isLE = true := by
    have longer : compare [] ([] ++ (bytes ++ 0 :: rest)) = .lt := compare_longer (by simp)
    rw [List.nil_append] at longer
    rw [longer]
    rfl
  rw [List.append_nil, first] at lower
  rw [FieldIndex.inRange, Bool.and_eq_true, lower, compare_words_append, padding_iff]
  simp only [← UInt64.toNat_inj, and_true]
  constructor
  · rintro ⟨above, below | ⟨same, short⟩⟩
    · exact ⟨by omega, by omega, by omega⟩
    · exact ⟨by omega, by omega, fun _ => short⟩
  · rintro ⟨above, below, short⟩
    refine ⟨by omega, ?_⟩
    by_cases same : w.toNat = n.toNat
    · exact .inr ⟨same, short same⟩
    · exact .inl (by omega)

/-! ### Literals that are told apart -/

/-- The lookup and the comparison of the scan differ. -/
def Value.confused (lit v : Value) (id : LogicalId) : Prop := lit.takenFor v id ≠ v.eq lit

/-- Only texts with null bytes are confused, zeros of both signs, and numbers with a NaN. -/
theorem not_confused {lit v : Value} {id : LogicalId} (null : lit ≠ .null) (plain : lit.Plain)
    (plain' : v.Plain) (zero : lit ≠ .float negativeZero) (zero' : v ≠ .float negativeZero) :
    ¬ lit.confused v id := by
  refine not_not.mpr ?_
  cases lit with
  | string a =>
    cases v with
    | string b =>
      have compared : (Value.string b).eq (.string a) = decide (b = a) := rfl
      rw [Bool.eq_iff_iff, ← starts_iff (t := .text) id rfl rfl, compared, decide_eq_true_eq]
      constructor
      · exact fun starts => (utf8_injective (text_of_prefixed plain plain' starts)).symm
      · rintro rfl
        exact List.prefix_append _ _
    | _ => rfl
  | float x =>
    cases v with
    | float y =>
      have here : x.isNaN = false := plain
      have there : y.isNaN = false := plain'
      have x0 : x ≠ negativeZero := fun same => zero (same ▸ rfl)
      have y0 : y ≠ negativeZero := fun same => zero' (same ▸ rfl)
      have compared : (Value.float y).eq (.float x) = y.eq x := rfl
      rw [compared]
      simp [Value.takenFor, F64.eq, floatPlace, here, there, x0, y0, eq_comm]
    | _ => rfl
  | int m =>
    cases v with
    | int n => exact decide_eq_decide.mpr eq_comm
    | _ => rfl
  | bool p =>
    cases v with
    | bool q => exact decide_eq_decide.mpr eq_comm
    | _ => rfl
  | null => exact absurd rfl null

end TronDB.Core
