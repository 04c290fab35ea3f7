import TronDB.Core.FieldIndex
import TronDB.Core.Where

/-! What the key of an index entry says of the value it was made from. -/
namespace TronDB.Core
open Binary Bytes

/-- A text without null bytes, a number that is not NaN, or a value of another type. -/
def Value.Plain : Value → Prop
  | .string s => 0 ∉ utf8 s
  | .float f => f.isNaN = false
  | _ => True

instance : DecidablePred Value.Plain := fun v =>
  match v with
  | .string s => inferInstanceAs (Decidable (0 ∉ utf8 s))
  | .float f => inferInstanceAs (Decidable (f.isNaN = false))
  | .int _ | .bool _ | .null => isTrue trivial

theorem Value.Plain.same {v : Value} (plain : v.Plain) : v.eq v = true := by
  cases v with
  | float f =>
    have number : f.isNaN = false := plain
    unfold Value.eq F64.eq
    simp [number]
  | string s => exact decide_eq_true rfl
  | int n => exact decide_eq_true rfl
  | bool b => exact decide_eq_true rfl
  | null => rfl

theorem beBytes_injective {m n : Nat} (fits : m < 2 ^ 64) (fits' : n < 2 ^ 64)
    (same : beBytes 8 m = beBytes 8 n) : m = n := by
  have back := congrArg fromBE same
  rwa [fromBE_beBytes 8 m (by omega), fromBE_beBytes 8 n (by omega)] at back

def signBit : UInt64 := (1 : UInt64) <<< 63

theorem sortableInt_injective {m n : Int64}
    (same : (m.toUInt64 ^^^ signBit).toNat = (n.toUInt64 ^^^ signBit).toNat) : m = n := by
  have bits := UInt64.toNat_inj.mp same
  have words : m.toUInt64 = n.toUInt64 := by simpa using bits
  cases m
  cases n
  congr

/-- The bits of a number, so that larger numbers come later. -/
def sortableFloat (f : F64) : UInt64 := if f.ge ⟨0⟩ then f.bits ^^^ signBit else ~~~ f.bits

theorem toNat_xor_signBit (w : UInt64) : (w ^^^ signBit).toNat =
    if 2 ^ 63 ≤ w.toNat then w.toNat - 2 ^ 63 else w.toNat + 2 ^ 63 := by
  have range := w.toNat_lt
  have sign : signBit.toNat = 2 ^ 63 := by decide
  have low : (w ^^^ signBit).toNat % 2 ^ 63 = w.toNat % 2 ^ 63 := by
    rw [UInt64.toNat_xor, sign, Nat.xor_mod_two_pow, Nat.mod_self, Nat.xor_zero]
  have high : (w ^^^ signBit).toNat / 2 ^ 63 = w.toNat / 2 ^ 63 ^^^ 1 := by
    rw [UInt64.toNat_xor, sign, Nat.xor_div_two_pow, Nat.div_self (Nat.two_pow_pos 63)]
  split
  · have one : w.toNat / 2 ^ 63 = 1 := by omega
    rw [one, Nat.xor_self] at high
    omega
  · have none_ : w.toNat / 2 ^ 63 = 0 := by omega
    rw [none_, Nat.zero_xor] at high
    omega

/-- Numbers from 0 on have the high bit, or are -0.0; the others do not have it, and are not 0. -/
theorem sortableFloat_parts {f : F64} (number : f.isNaN = false) :
    (f.ge ⟨0⟩ = true → (sortableFloat f).toNat = 0 ∨ 2 ^ 63 ≤ (sortableFloat f).toNat) ∧
      (f.ge ⟨0⟩ = false → 0 < (sortableFloat f).toNat ∧ (sortableFloat f).toNat < 2 ^ 63) := by
  have range := f.bits.toNat_lt
  have zero : F64.isNaN ⟨0⟩ = false := by decide
  have zeroKey : F64.key ⟨0⟩ = 0 := by decide
  have bound : f.magnitude ≤ 0x7FF * 2 ^ 52 := by
    rw [F64.isNaN, decide_eq_false_iff_not] at number
    omega
  have magnitude : f.magnitude = f.bits.toNat % 2 ^ 63 := rfl
  have key : f.key = if 2 ^ 63 ≤ f.bits.toNat then -(f.magnitude : Int) else f.magnitude := by
    simp [F64.key, F64.negative]
  have compared : f.ge ⟨0⟩ = decide (0 ≤ f.key) := by simp [F64.ge, number, zero, zeroKey]
  rw [compared, key, decide_eq_true_eq, decide_eq_false_iff_not]
  unfold sortableFloat
  rw [compared, key]
  constructor
  · intro from_
    rw [if_pos (decide_eq_true from_), toNat_xor_signBit]
    split at from_
    · rename_i negative
      rw [if_pos negative]
      omega
    · rename_i positive
      rw [if_neg positive]
      omega
  · intro below
    have flipped : (~~~ f.bits).toNat = 2 ^ 64 - 1 - f.bits.toNat := by simp
    rw [if_neg (by simpa using below), flipped]
    split at below
    · omega
    · omega

theorem sortableFloat_injective {f g : F64} (number : f.isNaN = false) (number' : g.isNaN = false)
    (same : sortableFloat f = sortableFloat g) : f = g := by
  have parts := sortableFloat_parts number
  have parts' := sortableFloat_parts number'
  have bits : f.bits = g.bits := by
    cases from_ : f.ge ⟨0⟩ with
    | true =>
      cases from' : g.ge ⟨0⟩ with
      | true =>
        unfold sortableFloat at same
        rw [from_, from'] at same
        simpa using same
      | false =>
        have here := parts.1 from_
        have there := parts'.2 from'
        rw [same] at here
        omega
    | false =>
      cases from' : g.ge ⟨0⟩ with
      | true =>
        have here := parts.2 from_
        have there := parts'.1 from'
        rw [same] at here
        omega
      | false =>
        unfold sortableFloat at same
        rw [from_, from'] at same
        simpa using same
  cases f
  cases g
  congr

theorem before_null {s : List UInt8} (plain : 0 ∉ s) (rest : List UInt8) :
    (s ++ 0 :: rest).takeWhile (· ≠ 0) = s := by
  have keeps : ∀ b ∈ s, decide (b ≠ 0) = true := fun b there =>
    decide_eq_true fun null => plain (null ▸ there)
  rw [List.takeWhile_append_of_pos keeps, List.takeWhile_cons_of_neg (by simp), List.append_nil]

theorem text_of_prefixed {s t rest : List UInt8} (plain : 0 ∉ s) (plain' : 0 ∉ t)
    (starts : s ++ [0] <+: t ++ [0] ++ rest) : s = t := by
  obtain ⟨more, same⟩ := starts
  rw [List.append_assoc, List.append_assoc] at same
  have ends := congrArg (List.takeWhile (· ≠ 0)) same
  rwa [List.singleton_append, List.singleton_append, before_null plain, before_null plain'] at ends

theorem eq_of_prefix {s t rest : List UInt8} (length : s.length = t.length) (starts : s <+: t ++ rest) :
    s = t :=
  List.append_inj_left (List.prefix_iff_eq_append.mp starts) length

theorem encodeCompoundKey_single (v : Value) (t : FieldType) (types : List FieldType) :
    encodeCompoundKey [v] (t :: types) = encodeSortable v t := by
  unfold encodeCompoundKey encodeCompoundKey
  cases encodeSortable v t with
  | error e => rfl
  | ok bytes => exact congrArg Except.ok (List.append_nil bytes)

/-- What is encoded, by the type of the value. -/
inductive Encoded : Value → FieldType → List UInt8 → Prop where
  | text (s : String) (t : FieldType) : Encoded (.string s) t (utf8 s ++ [0])
  | bool (b : Bool) : Encoded (.bool b) .bool [if b then 1 else 0]
  | int (n : Int64) : Encoded (.int n) .int (beBytes 8 (n.toUInt64 ^^^ signBit).toNat)
  | float (f : F64) : Encoded (.float f) .float (beBytes 8 (sortableFloat f).toNat)

theorem encoded_of_ok {v : Value} {t : FieldType} {bytes : List UInt8}
    (ok : encodeSortable v t = .ok bytes) : Encoded v t bytes := by
  cases v with
  | string s => cases t <;> cases ok <;> exact .text s _
  | bool b => cases t <;> cases ok; exact .bool b
  | int n => cases t <;> cases ok; exact .int n
  | float f => cases t <;> cases ok; exact .float f
  | null => cases t <;> cases ok

/-- A key that starts with what a value is encoded as is the key of that value. -/
theorem eq_of_encoded {v w : Value} {t : FieldType} {start whole rest : List UInt8}
    (plain : v.Plain) (plain' : w.Plain) (encoded : encodeSortable v t = .ok start)
    (encoded' : encodeSortable w t = .ok whole) (starts : start <+: whole ++ rest) : v = w := by
  have textual (s : String) (t : FieldType) (start : List UInt8)
      (ok : encodeSortable (.string s) t = .ok start) : t ≠ .bool ∧ t ≠ .int ∧ t ≠ .float := by
    cases t <;> cases ok <;> simp
  cases encoded_of_ok encoded with
  | text s =>
    obtain ⟨notBool, notInt, notFloat⟩ := textual s t _ encoded
    cases encoded_of_ok encoded' with
    | text s' => exact congrArg Value.string (utf8_injective (text_of_prefixed plain plain' starts))
    | bool => exact absurd rfl notBool
    | int => exact absurd rfl notInt
    | float => exact absurd rfl notFloat
  | bool b =>
    cases encoded_of_ok encoded' with
    | text s' => exact absurd rfl (textual s' _ _ encoded').1
    | bool b' =>
      have length : [if b then (1 : UInt8) else 0].length = [if b' then (1 : UInt8) else 0].length := rfl
      have same := eq_of_prefix length starts
      cases b <;> cases b' <;> first | rfl | cases same
  | int n =>
    cases encoded_of_ok encoded' with
    | text s' => exact absurd rfl (textual s' _ _ encoded').2.1
    | int n' =>
      have same := eq_of_prefix (by simp) starts
      have words := beBytes_injective (UInt64.toNat_lt _) (UInt64.toNat_lt _) same
      exact congrArg Value.int (sortableInt_injective words)
  | float f =>
    cases encoded_of_ok encoded' with
    | text s' => exact absurd rfl (textual s' _ _ encoded').2.2
    | float f' =>
      have same := eq_of_prefix (by simp) starts
      have words := beBytes_injective (UInt64.toNat_lt _) (UInt64.toNat_lt _) same
      exact congrArg Value.float (sortableFloat_injective plain plain' (UInt64.toNat_inj.mp words))

end TronDB.Core
