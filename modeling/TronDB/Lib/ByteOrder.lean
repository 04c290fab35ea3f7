import Mathlib.Data.List.Basic
import Mathlib.Tactic.Ring

/-! Big-endian integers, the order of byte strings, and codes that keep the order of what they encode. -/
namespace Bytes

/-- The last `width` base-256 digits of a number, most significant first. -/
def beBytes : Nat → Nat → List UInt8
  | 0, _ => []
  | width + 1, n => UInt8.ofNat (n / 256 ^ width) :: beBytes width n

def fromBE (bytes : List UInt8) : Nat := bytes.foldl (fun acc b => acc * 256 + b.toNat) 0

@[simp] theorem length_beBytes (width n : Nat) : (beBytes width n).length = width := by
  induction width with
  | zero => rfl
  | succ width ih => simp [beBytes, ih]

theorem fromBE_beBytes (width n : Nat) (fits : n < 256 ^ width) :
    fromBE (beBytes width n) = n := by
  have digits (width acc : Nat) :
      (beBytes width n).foldl (fun acc b => acc * 256 + b.toNat) acc =
        acc * 256 ^ width + n % 256 ^ width := by
    induction width generalizing acc with
    | zero => simp [beBytes, Nat.mod_one]
    | succ width ih =>
      have byte : (UInt8.ofNat (n / 256 ^ width)).toNat = n / 256 ^ width % 256 := by simp
      have split : n % 256 ^ (width + 1) =
          n / 256 ^ width % 256 * 256 ^ width + n % 256 ^ width := by
        rw [pow_succ, Nat.mod_mul, Nat.mul_comm (256 ^ width), Nat.add_comm]
      rw [beBytes, List.foldl_cons, ih, byte, split]
      ring
  rw [fromBE, digits, Nat.zero_mul, Nat.zero_add, Nat.mod_eq_of_lt fits]

/-! ### Order -/

/-- The first byte in which both differ decides, and it is smaller on the left. -/
def Precedes (a b : List UInt8) : Prop :=
  ∃ common x y u v, a = common ++ x :: u ∧ b = common ++ y :: v ∧ x < y

theorem byte_compare_self (x : UInt8) : compare x x = .eq := Std.ReflCmp.compare_self

theorem bytes_compare_self (a : List UInt8) : compare a a = .eq := Std.ReflCmp.compare_self

theorem bytes_compare_swap (a b : List UInt8) : compare a b = (compare b a).swap :=
  Std.OrientedCmp.eq_swap

theorem compare_cons (x y : UInt8) (a b : List UInt8) :
    compare (x :: a) (y :: b) = (compare x y).then (compare a b) := by
  rw [List.compare_eq_compareLex, List.compareLex_cons_cons]

theorem compare_append_left (common a b : List UInt8) :
    compare (common ++ a) (common ++ b) = compare a b := by
  induction common with
  | nil => rfl
  | cons x common ih =>
    rw [List.cons_append, List.cons_append, compare_cons, ih, byte_compare_self]
    rfl

theorem compare_longer {a rest : List UInt8} (longer : rest ≠ []) : compare a (a ++ rest) = .lt := by
  cases rest with
  | nil => exact absurd rfl longer
  | cons x rest =>
    have step := compare_append_left a [] (x :: rest)
    rw [List.append_nil] at step
    rw [step, List.compare_eq_compareLex, List.compareLex_nil_cons]

namespace Precedes

variable {a b : List UInt8}

theorem head {x y : UInt8} (less : x < y) (u v : List UInt8) : Precedes (x :: u) (y :: v) :=
  ⟨[], x, y, u, v, rfl, rfl, less⟩

theorem prepend (precedes : Precedes a b) (front : List UInt8) : Precedes (front ++ a) (front ++ b) := by
  obtain ⟨common, x, y, u, v, rfl, rfl, less⟩ := precedes
  exact ⟨front ++ common, x, y, u, v, by simp, by simp, less⟩

theorem append (precedes : Precedes a b) (u v : List UInt8) : Precedes (a ++ u) (b ++ v) := by
  obtain ⟨common, x, y, u', v', rfl, rfl, less⟩ := precedes
  exact ⟨common, x, y, u' ++ u, v' ++ v, by simp, by simp, less⟩

theorem compare_eq (precedes : Precedes a b) : compare a b = .lt := by
  obtain ⟨common, x, y, u, v, rfl, rfl, less⟩ := precedes
  have bytes : compare x y = .lt := if_pos less
  rw [compare_append_left, compare_cons, bytes]
  rfl

theorem no_start (precedes : Precedes a b) : ¬ a <+: b ∧ ¬ b <+: a := by
  obtain ⟨common, x, y, u, v, rfl, rfl, less⟩ := precedes
  constructor
  · intro starts
    have heads := (List.prefix_append_right_inj common).mp starts
    exact absurd (List.cons_prefix_cons.mp heads).1 (UInt8.ne_of_lt less)
  · intro starts
    have heads := (List.prefix_append_right_inj common).mp starts
    exact absurd (List.cons_prefix_cons.mp heads).1 (UInt8.ne_of_lt less).symm

theorem ne (precedes : Precedes a b) : a ≠ b := by
  rintro rfl
  exact precedes.no_start.1 List.prefix_rfl

end Precedes

theorem precedes_or_precedes {a b : List UInt8} (not : ¬ a <+: b) (not' : ¬ b <+: a) :
    Precedes a b ∨ Precedes b a := by
  induction a generalizing b with
  | nil => exact absurd List.nil_prefix not
  | cons x a ih =>
    cases b with
    | nil => exact absurd List.nil_prefix not'
    | cons y b =>
      by_cases same : x = y
      · subst same
        rcases ih (fun starts => not (List.cons_prefix_cons.mpr ⟨rfl, starts⟩))
          (fun starts => not' (List.cons_prefix_cons.mpr ⟨rfl, starts⟩)) with here | there
        · exact .inl (here.prepend [x])
        · exact .inr (there.prepend [x])
      · rcases UInt8.lt_or_lt_of_ne same with below | above
        · exact .inl (.head below a b)
        · exact .inr (.head above b a)

theorem compare_lt_iff {a b : List UInt8} {less more : Prop} (up : less → compare a b = .lt)
    (down : more → compare b a = .lt) (total : less ∨ a = b ∨ more) : compare a b = .lt ↔ less := by
  constructor
  · intro lt
    rcases total with here | rfl | there
    · exact here
    · rw [bytes_compare_self] at lt
      cases lt
    · rw [bytes_compare_swap, down there] at lt
      cases lt
  · exact up

/-- A null byte is below the padding unless as many bytes `0xFF` come before it. -/
theorem compare_padding {width : Nat} {a : List UInt8}
    (short : ¬ List.replicate width 0xFF <+: a) (rest : List UInt8) :
    (compare (a ++ 0 :: rest) (List.replicate width 0xFF)).isLE = true := by
  induction width generalizing a with
  | zero => exact absurd List.nil_prefix short
  | succ width ih =>
    rw [List.replicate_succ] at short ⊢
    cases a with
    | nil => exact congrArg Ordering.isLE (Precedes.head (by decide) rest _).compare_eq
    | cons x a =>
      by_cases highest : x = 0xFF
      · subst highest
        have shorter : ¬ List.replicate width 0xFF <+: a := fun starts =>
          short (List.cons_prefix_cons.mpr ⟨rfl, starts⟩)
        rw [List.cons_append, compare_cons, byte_compare_self]
        exact ih shorter
      · have below : x < 0xFF := by
          have range := x.toNat_lt
          have differs : x.toNat ≠ (0xFF : UInt8).toNat := fun same => highest (UInt8.toNat_inj.mp same)
          have value : (0xFF : UInt8).toNat = 255 := rfl
          rw [UInt8.lt_iff_toNat_lt]
          omega
        exact congrArg Ordering.isLE (Precedes.head below (a ++ 0 :: rest) _).compare_eq

/-! ### Numbers -/

theorem fromBE_cons (x : UInt8) (a : List UInt8) :
    fromBE (x :: a) = x.toNat * 256 ^ a.length + fromBE a := by
  have shifted (a : List UInt8) (acc : Nat) :
      a.foldl (fun acc b => acc * 256 + b.toNat) acc = acc * 256 ^ a.length + fromBE a := by
    induction a generalizing acc with
    | nil => simp [fromBE]
    | cons y a ih =>
      rw [fromBE, List.foldl_cons, List.foldl_cons, ih, ih (0 * 256 + y.toNat), List.length_cons]
      ring
  rw [fromBE, List.foldl_cons, shifted, Nat.zero_mul, Nat.zero_add]

theorem fromBE_lt (a : List UInt8) : fromBE a < 256 ^ a.length := by
  induction a with
  | nil => decide
  | cons x a ih =>
    have byte : x.toNat + 1 ≤ 256 := x.toNat_lt
    rw [fromBE_cons, List.length_cons]
    calc _ < x.toNat * 256 ^ a.length + 256 ^ a.length := Nat.add_lt_add_left ih _
      _ = (x.toNat + 1) * 256 ^ a.length := by ring
      _ ≤ 256 * 256 ^ a.length := Nat.mul_le_mul_right _ byte
      _ = 256 ^ (a.length + 1) := by ring

/-- Byte strings of one length are in the order of the big-endian numbers. -/
theorem precedes_of_fromBE {a b : List UInt8} (length : a.length = b.length)
    (less : fromBE a < fromBE b) : Precedes a b := by
  induction a generalizing b with
  | nil =>
    cases b with
    | nil => exact absurd less (Nat.lt_irrefl _)
    | cons y b => cases length
  | cons x a ih =>
    cases b with
    | nil => cases length
    | cons y b =>
      have rest : a.length = b.length := Nat.succ.inj length
      rw [fromBE_cons, fromBE_cons, rest] at less
      rcases Nat.lt_trichotomy x.toNat y.toNat with below | same | above
      · exact .head (UInt8.lt_iff_toNat_lt.mpr below) a b
      · rw [same] at less
        rw [UInt8.toNat_inj.mp same]
        exact (ih rest (Nat.lt_of_add_lt_add_left less)).prepend [y]
      · have bound := fromBE_lt b
        have larger := Nat.mul_le_mul_right (256 ^ b.length) (Nat.succ_le_of_lt above)
        rw [Nat.succ_mul] at larger
        omega

theorem precedes_beBytes {width m n : Nat} (fits : n < 256 ^ width) (less : m < n) :
    Precedes (beBytes width m) (beBytes width n) := by
  refine precedes_of_fromBE (by simp) ?_
  rwa [fromBE_beBytes _ _ fits, fromBE_beBytes _ _ (Nat.lt_trans less fits)]

/-! ### Text -/

theorem byte_lt {x y : Nat} (small : y < 256) (below : x < y) : UInt8.ofNat x < UInt8.ofNat y := by
  rw [UInt8.lt_iff_toNat_lt, UInt8.toNat_ofNat_of_lt' small,
    UInt8.toNat_ofNat_of_lt' (Nat.lt_trans below small)]
  exact below

theorem precedes_cons {x y : Nat} {a b : List UInt8} (small : y < 256) (le : x ≤ y)
    (rest : x = y → Precedes a b) : Precedes (UInt8.ofNat x :: a) (UInt8.ofNat y :: b) := by
  rcases Nat.lt_or_eq_of_le le with below | rfl
  · exact .head (byte_lt small below) a b
  · exact (rest rfl).prepend [UInt8.ofNat x]

/-- Characters with longer encodings begin with larger bytes, and encodings of one length are
numbers of base 64. -/
theorem precedes_utf8EncodeChar {c d : Char} (less : c < d) :
    Precedes (String.utf8EncodeChar c) (String.utf8EncodeChar d) := by
  have values : c.val.toNat < d.val.toNat := less
  have high : d.val.toNat < 0x110000 := by
    rcases d.valid with low | ⟨-, high⟩
    · exact Nat.lt_trans low (by decide)
    · exact high
  unfold String.utf8EncodeChar
  dsimp only
  generalize c.val.toNat = m at *
  generalize d.val.toNat = n at *
  split_ifs
  · exact .head (byte_lt (by omega) values) _ _
  · exact .head (byte_lt (by omega) (by omega)) _ _
  · exact .head (byte_lt (by omega) (by omega)) _ _
  · exact .head (byte_lt (by omega) (by omega)) _ _
  · omega
  · refine precedes_cons (by omega) (by omega) fun first => ?_
    exact .head (byte_lt (by omega) (by omega)) _ _
  · exact .head (byte_lt (by omega) (by omega)) _ _
  · exact .head (byte_lt (by omega) (by omega)) _ _
  · omega
  · omega
  · have quotient : m / 4096 ≤ n / 4096 := Nat.div_le_div_right (Nat.le_of_lt values)
    refine precedes_cons (by omega) (by omega) fun first => ?_
    have quotient' : m / 64 ≤ n / 64 := Nat.div_le_div_right (Nat.le_of_lt values)
    refine precedes_cons (by omega) (by omega) fun second => ?_
    exact .head (byte_lt (by omega) (by omega)) _ _
  · exact .head (byte_lt (by omega) (by omega)) _ _
  · omega
  · omega
  · omega
  · have quotient : m / 262144 ≤ n / 262144 := Nat.div_le_div_right (Nat.le_of_lt values)
    refine precedes_cons (by omega) (by omega) fun first => ?_
    have quotient' : m / 4096 ≤ n / 4096 := Nat.div_le_div_right (Nat.le_of_lt values)
    refine precedes_cons (by omega) (by omega) fun second => ?_
    have quotient'' : m / 64 ≤ n / 64 := Nat.div_le_div_right (Nat.le_of_lt values)
    refine precedes_cons (by omega) (by omega) fun third => ?_
    exact .head (byte_lt (by omega) (by omega)) _ _

/-- Texts that end with a null byte are in the order of the texts; one that continues another has
a byte in the place of the null byte. -/
theorem compare_text {s t : List Char} (less : s < t) :
    compare (s.flatMap String.utf8EncodeChar ++ [0]) (t.flatMap String.utf8EncodeChar ++ [0]) =
      .lt := by
  induction s generalizing t with
  | nil =>
    cases t with
    | nil => exact absurd less (List.lt_irrefl [])
    | cons d t =>
      have null : String.utf8EncodeChar '\x00' = [0] := rfl
      rw [List.flatMap_nil, List.nil_append, List.flatMap_cons, List.append_assoc]
      by_cases first : d = '\x00'
      · rw [first, null]
        exact compare_longer (by simp)
      · have positive : 0 < d.val.toNat :=
          Nat.pos_of_ne_zero fun zero => first (Char.ext (UInt32.toNat_inj.mp zero))
        have below : '\x00' < d := positive
        have precedes := (precedes_utf8EncodeChar below).append [] (t.flatMap String.utf8EncodeChar ++ [0])
        rw [null, List.append_nil] at precedes
        exact precedes.compare_eq
  | cons c s ih =>
    cases t with
    | nil => exact absurd less (List.not_lt_nil _)
    | cons d t =>
      rw [List.flatMap_cons, List.flatMap_cons, List.append_assoc, List.append_assoc]
      rcases List.cons_lt_cons_iff.mp less with below | ⟨rfl, rest⟩
      · exact ((precedes_utf8EncodeChar below).append _ _).compare_eq
      · rw [compare_append_left]
        exact ih rest

end Bytes
