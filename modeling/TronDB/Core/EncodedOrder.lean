import TronDB.Core.SortableKeys
import TronDB.Lib.ByteOrder

/-! The order of encoded values against the comparison of values. -/
namespace TronDB.Core
open Binary Bytes

/-- The bytes are ordered as the values are compared, and values that are equal have equal bytes. -/
structure KeepsOrder (a b : Value) (x y : List UInt8) : Prop where
  less : compare x y = .lt ↔ valueLt a b = true
  greater : compare y x = .lt ↔ valueLt b a = true
  equal : a.eq b = true → x = y

def negativeZero : F64 := ⟨0x8000000000000000⟩

/-- Truth values are not compared, and the negative zero is encoded below all other numbers. -/
def OrderKept : Value → Value → Prop
  | .bool p, .bool q => p = q
  | .float f, .float g =>
    f = g ∨ (f = negativeZero → 0 < g.key) ∧ (g = negativeZero → 0 < f.key)
  | _, _ => True

theorem symmetric {p q : Prop} {x y : List UInt8} (total : p ∨ x = y ∨ q) : q ∨ y = x ∨ p := by
  rcases total with here | same | there
  · exact .inr (.inr here)
  · exact .inr (.inl same.symm)
  · exact .inl there

/-! ### Text -/

theorem utf8_eq (s : String) : utf8 s = s.toList.flatMap String.utf8EncodeChar := by
  have bytes : s.toUTF8 = s.toList.utf8Encode := String.utf8Encode_toList.symm
  unfold utf8
  rw [bytes, List.utf8Encode, List.toList_data_toByteArray]

theorem compare_utf8 {s t : String} (less : s < t) : compare (utf8 s ++ [0]) (utf8 t ++ [0]) = .lt := by
  rw [utf8_eq, utf8_eq]
  exact compare_text (String.lt_iff.mp less)

theorem keepsOrder_string (s t : String) :
    KeepsOrder (.string s) (.string t) (utf8 s ++ [0]) (utf8 t ++ [0]) := by
  have total : s < t ∨ utf8 s ++ [0] = utf8 t ++ [0] ∨ t < s := by
    by_cases less : s < t
    · exact .inl less
    · by_cases more : t < s
      · exact .inr (.inr more)
      · have same : s = t := String.le_antisymm (String.not_lt.mp more) (String.not_lt.mp less)
        exact .inr (.inl (same ▸ rfl))
  constructor
  · rw [valueLt, decide_eq_true_eq]
    exact compare_lt_iff compare_utf8 compare_utf8 total
  · rw [valueLt, decide_eq_true_eq]
    exact compare_lt_iff compare_utf8 compare_utf8 (symmetric total)
  · intro same
    rw [of_decide_eq_true same]

/-! ### Numbers -/

theorem compare_words {m n : UInt64} (less : m.toNat < n.toNat) :
    compare (beBytes 8 m.toNat) (beBytes 8 n.toNat) = .lt :=
  (precedes_beBytes n.toNat_lt less).compare_eq

theorem sortableInt_eq (n : Int64) :
    ((n.toUInt64 ^^^ signBit).toNat : Int) = n.toInt + 2 ^ 63 := by
  have range := n.toUInt64.toNat_lt
  have value : n.toInt = if 2 * n.toUInt64.toNat < 2 ^ 64 then (n.toUInt64.toNat : Int)
      else (n.toUInt64.toNat : Int) - (2 ^ 64 : Nat) := BitVec.toInt_eq_toNat_cond _
  rw [toNat_xor_signBit, value]
  split <;> split <;> omega

theorem keepsOrder_int (m n : Int64) :
    KeepsOrder (.int m) (.int n) (beBytes 8 (m.toUInt64 ^^^ signBit).toNat)
      (beBytes 8 (n.toUInt64 ^^^ signBit).toNat) := by
  have here := sortableInt_eq m
  have there := sortableInt_eq n
  have less (a b : Int64) : (valueLt (.int a) (.int b) = true) ↔ a.toInt < b.toInt := by
    rw [valueLt, decide_eq_true_eq, Int64.lt_iff_toInt_lt]
  have total : m.toInt < n.toInt ∨ beBytes 8 (m.toUInt64 ^^^ signBit).toNat =
      beBytes 8 (n.toUInt64 ^^^ signBit).toNat ∨ n.toInt < m.toInt := by
    rcases Int.lt_trichotomy m.toInt n.toInt with below | same | above
    · exact .inl below
    · exact .inr (.inl (by rw [Int64.toInt_inj.mp same]))
    · exact .inr (.inr above)
  constructor
  · rw [less]
    exact compare_lt_iff (fun below => compare_words (by omega)) (fun above => compare_words (by omega))
      total
  · rw [less]
    exact compare_lt_iff (fun below => compare_words (by omega)) (fun above => compare_words (by omega))
      (symmetric total)
  · intro same
    rw [of_decide_eq_true same]

theorem keepsOrder_bool (p q : Bool) :
    KeepsOrder (.bool p) (.bool q) [if p then 1 else 0] [if q then 1 else 0] ↔ p = q := by
  constructor
  · rintro ⟨less, greater, -⟩
    cases p <;> cases q
    · rfl
    · cases less.mp rfl
    · cases greater.mp rfl
    · rfl
  · rintro rfl
    have same := bytes_compare_self [if p then 1 else 0]
    have never : valueLt (.bool p) (.bool p) = false := rfl
    constructor
    · rw [same, never]
      simp
    · rw [same, never]
      simp
    · exact fun _ => rfl

theorem sortableFloat_eq {f : F64} (number : f.isNaN = false) : ((sortableFloat f).toNat : Int) =
    if f = negativeZero then 0 else if 0 ≤ f.key then 2 ^ 63 + f.key else 2 ^ 63 - 1 + f.key := by
  have range := f.bits.toNat_lt
  have zero : F64.isNaN ⟨0⟩ = false := by decide
  have zeroKey : F64.key ⟨0⟩ = 0 := by decide
  have magnitude : f.magnitude = f.bits.toNat % 2 ^ 63 := rfl
  have key : f.key = if 2 ^ 63 ≤ f.bits.toNat then -(f.magnitude : Int) else f.magnitude := by
    simp [F64.key, F64.negative]
  have compared : f.ge ⟨0⟩ = decide (0 ≤ f.key) := by simp [F64.ge, number, zero, zeroKey]
  have negative : f = negativeZero ↔ f.bits.toNat = 2 ^ 63 := by
    constructor
    · rintro rfl
      decide
    · intro bits
      have same : f.bits = negativeZero.bits := UInt64.toNat_inj.mp (bits.trans (by decide))
      cases f
      exact congrArg F64.mk same
  have flipped : (~~~ f.bits).toNat = 2 ^ 64 - 1 - f.bits.toNat := by simp
  unfold sortableFloat
  rw [compared]
  by_cases from_ : 0 ≤ f.key
  · rw [if_pos (decide_eq_true from_), toNat_xor_signBit, if_pos from_]
    by_cases below : 2 ^ 63 ≤ f.bits.toNat
    · rw [if_pos below] at key
      rw [if_pos below, if_pos (negative.mpr (by omega))]
      omega
    · rw [if_neg below] at key
      rw [if_neg below, if_neg (mt negative.mp (by omega))]
      omega
  · have not : ¬ decide (0 ≤ f.key) = true := by simpa using from_
    rw [if_neg not, flipped, if_neg from_]
    split at key
    · rw [if_neg (mt negative.mp (by omega))]
      omega
    · omega

theorem key_bounds {f : F64} (number : f.isNaN = false) : -(2 ^ 63 - 1) < f.key ∧ f.key < 2 ^ 63 := by
  rw [F64.isNaN, decide_eq_false_iff_not] at number
  unfold F64.key
  split <;> omega

theorem compare_words_iff (m n : UInt64) :
    compare (beBytes 8 m.toNat) (beBytes 8 n.toNat) = .lt ↔ m.toNat < n.toNat := by
  refine compare_lt_iff compare_words compare_words (b := beBytes 8 n.toNat) ?_
  rcases Nat.lt_trichotomy m.toNat n.toNat with below | same | above
  · exact .inl below
  · exact .inr (.inl (same ▸ rfl))
  · exact .inr (.inr above)

theorem valueLt_float {f g : F64} (number : f.isNaN = false) (number' : g.isNaN = false) :
    valueLt (.float f) (.float g) = true ↔ f.key < g.key := by
  simp [valueLt, F64.lt, number, number']

/-- The comparison of the words is the comparison of the numbers. -/
theorem keepsOrder_words {f g : F64} (number : f.isNaN = false) (number' : g.isNaN = false) :
    KeepsOrder (.float f) (.float g) (beBytes 8 (sortableFloat f).toNat)
      (beBytes 8 (sortableFloat g).toNat) ↔
        ((sortableFloat f).toNat < (sortableFloat g).toNat ↔ f.key < g.key) ∧
          ((sortableFloat g).toNat < (sortableFloat f).toNat ↔ g.key < f.key) ∧
            (f.key = g.key → (sortableFloat f).toNat = (sortableFloat g).toNat) := by
  have equal : (Value.float f).eq (.float g) = true ↔ f.key = g.key := by
    change f.eq g = true ↔ _
    simp [F64.eq, number, number']
  constructor
  · rintro ⟨less, greater, same⟩
    rw [compare_words_iff, valueLt_float number number'] at less
    rw [compare_words_iff, valueLt_float number' number] at greater
    exact ⟨less, greater, fun keys =>
      beBytes_injective (UInt64.toNat_lt _) (UInt64.toNat_lt _) (same (equal.mpr keys))⟩
  · rintro ⟨less, greater, same⟩
    constructor
    · rw [compare_words_iff, valueLt_float number number']
      exact less
    · rw [compare_words_iff, valueLt_float number' number]
      exact greater
    · exact fun values => congrArg (beBytes 8) (same (equal.mp values))

theorem keepsOrder_float {f g : F64} (number : f.isNaN = false) (number' : g.isNaN = false) :
    KeepsOrder (.float f) (.float g) (beBytes 8 (sortableFloat f).toNat)
      (beBytes 8 (sortableFloat g).toNat) ↔ OrderKept (.float f) (.float g) := by
  have word := sortableFloat_eq number
  have word' := sortableFloat_eq number'
  have bounds := key_bounds number
  have bounds' := key_bounds number'
  have zeroKey : negativeZero.key = 0 := by decide
  have kept : OrderKept (.float f) (.float g) ↔
      f = g ∨ (f = negativeZero → 0 < g.key) ∧ (g = negativeZero → 0 < f.key) := Iff.rfl
  rw [keepsOrder_words number number', kept]
  by_cases lowest : f = negativeZero
  · subst lowest
    rw [if_pos rfl] at word
    by_cases lowest' : g = negativeZero
    · simp [lowest']
    · rw [if_neg lowest'] at word'
      have apart : negativeZero ≠ g := fun same => lowest' same.symm
      simp only [apart, lowest', zeroKey, false_or, true_implies, false_implies, and_true]
      split at word' <;> omega
  · rw [if_neg lowest] at word
    by_cases lowest' : g = negativeZero
    · subst lowest'
      rw [if_pos rfl] at word'
      simp only [lowest, zeroKey, false_or, true_implies, false_implies, true_and]
      split at word <;> omega
    · rw [if_neg lowest'] at word'
      simp only [lowest, lowest', false_implies, and_true, or_true, iff_true]
      split at word <;> split at word' <;> omega

/-! ### Values -/

/-- Encoded values other than NaN are in the order of the values exactly if none is the negative
zero without need, and truth values are the same. -/
theorem keepsOrder_iff {a b : Value} {t : FieldType} {x y : List UInt8}
    (encoded : encodeSortable a t = .ok x) (encoded' : encodeSortable b t = .ok y)
    (number : ∀ f, a = .float f → f.isNaN = false) (number' : ∀ f, b = .float f → f.isNaN = false) :
    KeepsOrder a b x y ↔ OrderKept a b := by
  have textual {s : String} {t : FieldType} {x : List UInt8}
      (ok : encodeSortable (.string s) t = .ok x) : t ≠ .bool ∧ t ≠ .int ∧ t ≠ .float := by
    cases t <;> cases ok <;> simp
  cases encoded_of_ok encoded with
  | text s =>
    obtain ⟨notBool, notInt, notFloat⟩ := textual encoded
    cases encoded_of_ok encoded' with
    | text s' => exact iff_of_true (keepsOrder_string s s') trivial
    | bool => exact absurd rfl notBool
    | int => exact absurd rfl notInt
    | float => exact absurd rfl notFloat
  | bool p =>
    cases encoded_of_ok encoded' with
    | text s' => exact absurd rfl (textual encoded').1
    | bool q => exact keepsOrder_bool p q
  | int m =>
    cases encoded_of_ok encoded' with
    | text s' => exact absurd rfl (textual encoded').2.1
    | int n => exact iff_of_true (keepsOrder_int m n) trivial
  | float f =>
    cases encoded_of_ok encoded' with
    | text s' => exact absurd rfl (textual encoded').2.2
    | float g => exact keepsOrder_float (number f rfl) (number' g rfl)

/-- Both zeros are equal, and their bytes are not. -/
theorem zeros_differ :
    (Value.float ⟨0⟩).eq (.float negativeZero) = true ∧
      encodeSortable (.float ⟨0⟩) .float = .ok [0x80, 0, 0, 0, 0, 0, 0, 0] ∧
        encodeSortable (.float negativeZero) .float = .ok [0, 0, 0, 0, 0, 0, 0, 0] := by
  decide

theorem keepsOrder_minusOne_one :
    KeepsOrder (.float (F64.ofInt (-1))) (.float (F64.ofInt 1))
      (beBytes 8 (sortableFloat (F64.ofInt (-1))).toNat) (beBytes 8 (sortableFloat (F64.ofInt 1)).toNat) :=
  (keepsOrder_iff (t := .float) rfl rfl (by rintro f ⟨⟩; decide) (by rintro f ⟨⟩; decide)).mpr
    (.inr ⟨by decide, by decide⟩)

end TronDB.Core
