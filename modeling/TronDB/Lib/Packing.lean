import Mathlib.Data.List.Basic
import Mathlib.Data.List.Forall2
import Mathlib.Data.Nat.Bitwise

/-! Computations that can fault, and fields of bits packed into bytes, the highest bit first. -/
namespace Packing

inductive Fault where
  | index | shift | unreachable | assertion
  deriving DecidableEq, Repr

section Access
variable {α : Type*}

def readAt (xs : List α) (i : Nat) : Except Fault α :=
  match xs[i]? with
  | some x => .ok x
  | none => .error .index

def writeAt (xs : List α) (i : Nat) (x : α) : Except Fault (List α) :=
  if i < xs.length then .ok (xs.set i x) else .error .index

theorem readAt_ok {xs : List α} {i : Nat} {x : α} : readAt xs i = .ok x ↔ xs[i]? = some x := by
  unfold readAt
  cases xs[i]? <;> simp

theorem readAt_inside {xs : List α} {i : Nat} (inside : i < xs.length) : ∃ x, readAt xs i = .ok x :=
  ⟨xs[i], readAt_ok.mpr (List.getElem?_eq_getElem inside)⟩

theorem inside_of_readAt {xs : List α} {i : Nat} {x : α} (read : readAt xs i = .ok x) :
    i < xs.length := (List.getElem?_eq_some_iff.mp (readAt_ok.mp read)).1

theorem writeAt_ok {xs xs' : List α} {i : Nat} {x : α} :
    writeAt xs i x = .ok xs' ↔ i < xs.length ∧ xs.set i x = xs' := by
  unfold writeAt
  split
  · simp [*]
  · simp [*]

end Access

theorem bind_ok.{u, v} {ε : Type v} {α β : Type u} {x : Except ε α} {f : α → Except ε β} {b : β} :
    x >>= f = .ok b ↔ ∃ a, x = .ok a ∧ f a = .ok b := by
  cases x with
  | error fault => exact ⟨nofun, fun ⟨_, none_, _⟩ => nomatch none_⟩
  | ok a => exact ⟨fun rest => ⟨a, rfl, rest⟩, fun ⟨_, same, rest⟩ => by cases same; exact rest⟩

theorem foldlM_each {σ ι : Type} {f : σ → ι → Except Fault σ} (inv : σ → Prop) (P : ι → Prop)
    (round : ∀ s x s', inv s → f s x = .ok s' → inv s' ∧ P x) {xs : List ι} {s s' : σ}
    (start : inv s) (ran : xs.foldlM f s = .ok s') : inv s' ∧ ∀ x ∈ xs, P x := by
  induction xs generalizing s with
  | nil =>
    cases ran
    exact ⟨start, nofun⟩
  | cons x xs ih =>
    rw [List.foldlM_cons] at ran
    obtain ⟨next, first, rest⟩ := bind_ok.mp ran
    obtain ⟨kept, here⟩ := round s x next start first
    obtain ⟨last, each⟩ := ih kept rest
    exact ⟨last, List.forall_mem_cons.mpr ⟨here, each⟩⟩

theorem mapM_ok {ε α β : Type} {f : α → Except ε β} {xs : List α} {ys : List β} :
    xs.mapM f = .ok ys ↔ List.Forall₂ (fun x y => f x = .ok y) xs ys := by
  induction xs generalizing ys with
  | nil =>
    constructor
    · rintro ⟨⟩
      exact .nil
    · rintro ⟨⟩
      rfl
  | cons x xs ih =>
    rw [List.mapM_cons, bind_ok]
    constructor
    · rintro ⟨y, first, rest⟩
      obtain ⟨ys', later, rest⟩ := bind_ok.mp rest
      cases rest
      exact .cons first (ih.mp later)
    · rintro ⟨⟩
      rename_i y ys first later
      exact ⟨y, first, bind_ok.mpr ⟨ys, ih.mpr later, rfl⟩⟩

theorem mapM_bind_ok {ε α β γ : Type} {f : α → Except ε β} {g : β → Except ε γ} {xs : List α}
    {zs : List γ} : (xs.mapM fun x => f x >>= g) = .ok zs ↔
      ∃ ys, xs.mapM f = .ok ys ∧ ys.mapM g = .ok zs := by
  simp only [mapM_ok]
  constructor
  · intro each
    induction each with
    | nil => exact ⟨[], .nil, .nil⟩
    | cons here rest ih =>
      obtain ⟨ys, first, second⟩ := ih
      obtain ⟨y, fst, snd⟩ := bind_ok.mp here
      exact ⟨y :: ys, .cons fst first, .cons snd second⟩
  · rintro ⟨ys, first, second⟩
    induction first generalizing zs with
    | nil =>
      cases second
      exact .nil
    | cons here rest ih =>
      cases second with
      | cons next second => exact .cons (bind_ok.mpr ⟨_, here, next⟩) (ih second)

theorem mapM_mem {ε α β : Type} {f : α → Except ε β} {xs : List α} {ys : List β}
    (ran : xs.mapM f = .ok ys) {y : β} (listed : y ∈ ys) : ∃ x ∈ xs, f x = .ok y := by
  rw [mapM_ok] at ran
  induction ran with
  | nil => cases listed
  | cons here rest ih =>
    cases listed with
    | head => exact ⟨_, .head _, here⟩
    | tail _ listed =>
      obtain ⟨x, there, ok⟩ := ih listed
      exact ⟨x, .tail _ there, ok⟩

theorem mapM_total {ε α β : Type} {f : α → Except ε β} {xs : List α}
    (each : ∀ x ∈ xs, ∃ y, f x = .ok y) : ∃ ys, xs.mapM f = .ok ys := by
  simp only [mapM_ok]
  induction xs with
  | nil => exact ⟨[], .nil⟩
  | cons x xs ih =>
    obtain ⟨⟨y, here⟩, rest⟩ := List.forall_mem_cons.mp each
    obtain ⟨ys, later⟩ := ih rest
    exact ⟨y :: ys, .cons here later⟩

theorem mapM_same {ε α β γ : Type} {f : α → Except ε γ} {g : β → Except ε γ} {xs : List α}
    {ys : List β} (long : xs.length = ys.length)
    (each : ∀ (i : Nat) x y, xs[i]? = some x → ys[i]? = some y → f x = g y) :
    xs.mapM f = ys.mapM g := by
  induction xs generalizing ys with
  | nil =>
    cases List.eq_nil_of_length_eq_zero long.symm
    rfl
  | cons x xs ih =>
    cases ys with
    | nil => cases long
    | cons y ys =>
      rw [List.mapM_cons, List.mapM_cons, each 0 x y rfl rfl,
        ih (Nat.succ.inj long) fun i x' y' left right => each (i + 1) x' y' left right]

theorem foldlM_same {ε σ ι : Type} {f g : σ → ι → Except ε σ} {xs : List ι}
    (round : ∀ s, ∀ x ∈ xs, f s x = g s x) (s : σ) : xs.foldlM f s = xs.foldlM g s := by
  induction xs generalizing s with
  | nil => rfl
  | cons x xs ih =>
    obtain ⟨here, rest⟩ : (∀ s, f s x = g s x) ∧ ∀ s, ∀ x ∈ xs, f s x = g s x :=
      ⟨fun s => round s x (.head _), fun s x' listed => round s x' (.tail _ listed)⟩
    rw [List.foldlM_cons, List.foldlM_cons, here s]
    exact bind_congr fun next => ih rest next

theorem writeEach_ok {ι α : Type} (g : ι → Nat → Except Fault α) {xs : List ι} (ys front rest : List α)
    (same : xs.length = ys.length)
    (each : ∀ i x y, xs[i]? = some x → ys[i]? = some y → g x (front.length + i) = .ok y)
    (fits : xs.length ≤ rest.length) :
    (xs.zipIdx front.length).foldlM (fun s x => do
        let y ← g x.1 x.2
        writeAt s x.2 y) (front ++ rest) = .ok (front ++ (ys ++ rest.drop xs.length)) := by
  induction xs generalizing ys front rest with
  | nil =>
    cases List.eq_nil_of_length_eq_zero same.symm
    rfl
  | cons x xs ih =>
    cases ys with
    | nil => cases same
    | cons y ys =>
      cases rest with
      | nil => exact absurd fits (by simp)
      | cons r rest =>
        have first := each 0 x y rfl rfl
        have wrote : writeAt (front ++ r :: rest) front.length y = .ok (front ++ [y] ++ rest) :=
          writeAt_ok.mpr ⟨by simp, by simp⟩
        rw [List.zipIdx_cons, List.foldlM_cons]
        show (do
          let s ← (do
            let y ← g x front.length
            writeAt (front ++ r :: rest) front.length y)
          _) = _
        rw [show g x front.length = .ok y from first]
        show (do
          let s ← writeAt (front ++ r :: rest) front.length y
          _) = _
        rw [wrote]
        have later := @ih ys (front ++ [y]) rest (Nat.succ.inj same)
          (fun i x' y' left right => by
            have step := each (i + 1) x' y' left right
            rwa [List.length_append, List.length_singleton, Nat.add_assoc, Nat.add_comm 1])
          (Nat.le_of_succ_le_succ fits)
        rw [List.length_append, List.length_singleton] at later
        refine later.trans (congrArg Except.ok ?_)
        simp

def shiftLeft (byte : UInt8) (amount : Nat) : Except Fault UInt8 :=
  if amount < 8 then .ok (byte <<< UInt8.ofNat amount) else .error .shift

def shiftRight (byte : UInt8) (amount : Nat) : Except Fault UInt8 :=
  if amount < 8 then .ok (byte >>> UInt8.ofNat amount) else .error .shift

def setBit (data : List UInt8) (k : Nat) : Except Fault (List UInt8) := do
  let byte ← readAt data (k / 8)
  writeAt data (k / 8) (byte ||| (1 <<< UInt8.ofNat (7 - k % 8)))

def getBit (data : List UInt8) (k : Nat) : Except Fault UInt8 := do
  let byte ← readAt data (k / 8)
  return (byte >>> UInt8.ofNat (7 - k % 8)) &&& 1

/-! ### Bits and fields -/

def bit (data : List UInt8) (k : Nat) : Bool := ((data[k / 8]?).getD 0).toNat.testBit (7 - k % 8)

def field (data : List UInt8) (start : Nat) : Nat → Nat
  | 0 => 0
  | width + 1 => 2 * field data start width + (bit data (start + width)).toNat

theorem field_lt (data : List UInt8) (start width : Nat) : field data start width < 2 ^ width := by
  induction width with
  | zero => exact Nat.one_pos
  | succ width ih =>
    have last := Bool.toNat_le (bit data (start + width))
    rw [field, pow_succ]
    omega

theorem testBit_shifted (byte amount : Nat) : byte >>> amount &&& 1 = (byte.testBit amount).toNat := by
  rw [Nat.and_one_is_mod, Nat.shiftRight_eq_div_pow, Nat.toNat_testBit]

theorem toNat_amount {amount : Nat} (small : amount < 8) : (UInt8.ofNat amount).toNat % 8 = amount := by
  rw [UInt8.toNat_ofNat_of_lt' (by have : UInt8.size = 256 := rfl; omega)]
  omega

theorem toNat_bit (byte : UInt8) {amount : Nat} (small : amount < 8) :
    ((byte >>> UInt8.ofNat amount) &&& 1).toNat = (byte.toNat.testBit amount).toNat := by
  rw [UInt8.toNat_and, UInt8.toNat_shiftRight, toNat_amount small]
  exact testBit_shifted _ _

theorem getBit_ok {data : List UInt8} {k : Nat} {b : UInt8} (got : getBit data k = .ok b) :
    k < 8 * data.length ∧ b.toNat = (bit data k).toNat := by
  unfold getBit at got
  cases read : readAt data (k / 8) with
  | error fault => rw [read] at got; cases got
  | ok byte =>
    rw [read] at got
    cases got
    have inside := inside_of_readAt read
    refine ⟨by omega, ?_⟩
    rw [toNat_bit byte (by omega), bit, readAt_ok.mp read]
    rfl

theorem getBit_inside {data : List UInt8} {k : Nat} (inside : k < 8 * data.length) :
    ∃ b, getBit data k = .ok b ∧ b.toNat = (bit data k).toNat := by
  obtain ⟨byte, read⟩ := readAt_inside (show k / 8 < data.length by omega)
  have got : getBit data k = .ok ((byte >>> UInt8.ofNat (7 - k % 8)) &&& 1) := by
    unfold getBit
    rw [read]
    rfl
  exact ⟨_, got, (getBit_ok got).2⟩

theorem setBit_inside {data : List UInt8} {k : Nat} (inside : k < 8 * data.length) :
    ∃ data', setBit data k = .ok data' ∧ data'.length = data.length ∧
      ∀ j, bit data' j = (bit data j || j == k) := by
  obtain ⟨byte, read⟩ := readAt_inside (show k / 8 < data.length by omega)
  refine ⟨data.set (k / 8) (byte ||| (1 <<< UInt8.ofNat (7 - k % 8))), ?_, List.length_set, ?_⟩
  · unfold setBit
    rw [read]
    exact writeAt_ok.mpr ⟨by omega, rfl⟩
  · intro j
    have here := readAt_ok.mp read
    unfold bit
    rw [List.getElem?_set]
    by_cases same : k / 8 = j / 8
    · rw [if_pos same, if_pos (by omega), ← same, here, Option.getD_some, Option.getD_some,
        UInt8.toNat_or, Nat.testBit_or, UInt8.toNat_shiftLeft, toNat_amount (by omega)]
      congr 1
      have one : (1 : UInt8).toNat <<< (7 - k % 8) % 2 ^ 8 = 2 ^ (7 - k % 8) := by
        have small : 2 ^ (7 - k % 8) < 2 ^ 8 := Nat.pow_lt_pow_right (by omega) (by omega)
        rw [Nat.shiftLeft_eq, show (1 : UInt8).toNat = 1 from rfl, Nat.one_mul, Nat.mod_eq_of_lt small]
      rw [one, Nat.testBit_two_pow, beq_eq_decide, decide_eq_decide]
      omega
    · have other : (j == k) = false := beq_eq_false_iff_ne.mpr fun equal => same (by rw [equal])
      rw [if_neg same, other, Bool.or_false]

/-! ### Fields of at most a byte -/

def readField (data : List UInt8) (width start : Nat) : Except Fault UInt8 :=
  (List.range width).foldlM (fun code b => do
    let bitVal ← getBit data (start + b)
    let shifted ← shiftLeft bitVal (width - 1 - b)
    return code ||| shifted) 0

def writeField (data : List UInt8) (width start : Nat) (code : UInt8) : Except Fault (List UInt8) :=
  (List.range width).foldlM (fun data b => do
    let shifted ← shiftRight code (width - 1 - b)
    if shifted &&& 1 = 1 then setBit data (start + b) else return data) data

theorem foldlM_range_succ {σ : Type*} (f : σ → Nat → Except Fault σ) (s : σ) (n : Nat) :
    (List.range (n + 1)).foldlM f s = (do
      let s' ← (List.range n).foldlM f s
      f s' n) := by
  rw [List.range_succ, List.foldlM_append]
  refine bind_congr fun s' => ?_
  rw [List.foldlM_cons]
  exact bind_pure _

theorem shiftLeft_toNat {b : UInt8} {set : Bool} {amount : Nat} (small : amount < 8)
    (is_ : b.toNat = set.toNat) : (b <<< UInt8.ofNat amount).toNat = set.toNat * 2 ^ amount := by
  have bound : 2 ^ amount ≤ 2 ^ 7 := Nat.pow_le_pow_right (by omega) (by omega)
  rw [UInt8.toNat_shiftLeft, toNat_amount small, is_, Nat.shiftLeft_eq]
  refine Nat.mod_eq_of_lt ?_
  cases set
  · rw [Bool.toNat_false]
    omega
  · rw [Bool.toNat_true]
    omega

/-- The rounds of reading a field: each must find its bit, and its shift must be less than a byte. -/
theorem readField_rounds (data : List UInt8) (width start : Nat) {rounds : Nat} (some_ : 0 < rounds)
    (part : rounds ≤ width) (v : UInt8) :
    (List.range rounds).foldlM (fun code b => do
        let bitVal ← getBit data (start + b)
        let shifted ← shiftLeft bitVal (width - 1 - b)
        return code ||| shifted) 0 = .ok v ↔
      width ≤ 8 ∧ start + rounds ≤ 8 * data.length ∧
        v.toNat = field data start rounds * 2 ^ (width - rounds) := by
  induction rounds generalizing v with
  | zero => omega
  | succ n ih =>
    rw [foldlM_range_succ, bind_ok]
    have before (code : UInt8) : (List.range n).foldlM (fun code b => do
        let bitVal ← getBit data (start + b)
        let shifted ← shiftLeft bitVal (width - 1 - b)
        return code ||| shifted) 0 = .ok code ↔
        (n = 0 ∨ width ≤ 8 ∧ start + n ≤ 8 * data.length) ∧
          code.toNat = field data start n * 2 ^ (width - n) := by
      by_cases none_ : n = 0
      · subst none_
        simp only [List.range_zero, List.foldlM_nil, true_or, true_and, field, Nat.zero_mul]
        constructor
        · intro same
          cases same
          rfl
        · intro zero
          exact congrArg Except.ok (UInt8.toNat_inj.mp zero.symm)
      · rw [ih (by omega) (by omega)]
        simp only [none_, false_or, and_assoc]
    -- the next bit goes below what is read
    have joined (code b : UInt8) (small : width - 1 - n < 8)
        (read : code.toNat = field data start n * 2 ^ (width - n))
        (got : b.toNat = (bit data (start + n)).toNat) :
        (code ||| b <<< UInt8.ofNat (width - 1 - n)).toNat =
          field data start (n + 1) * 2 ^ (width - (n + 1)) := by
      have place : width - 1 - n = width - (n + 1) := by omega
      have double : 2 ^ (width - n) = 2 * 2 ^ (width - (n + 1)) := by
        rw [← Nat.pow_succ']
        congr 1
        omega
      have below : (bit data (start + n)).toNat < 2 ^ 1 := by
        have last := Bool.toNat_le (bit data (start + n))
        omega
      rw [UInt8.toNat_or, shiftLeft_toNat small got, read, place, double, field,
        ← Nat.mul_assoc, ← Nat.shiftLeft_eq, ← Nat.shiftLeft_eq, ← Nat.shiftLeft_or_distrib]
      have sum := Nat.shiftLeft_add_eq_or_of_lt below (field data start n)
      rw [Nat.shiftLeft_eq, pow_one] at sum
      rw [← sum, Nat.shiftLeft_eq, Nat.mul_comm 2]
    constructor
    · rintro ⟨code, read, rest⟩
      obtain ⟨reached, value⟩ := (before code).mp read
      obtain ⟨b, got, rest⟩ := bind_ok.mp rest
      obtain ⟨shifted, moved, rest⟩ := bind_ok.mp rest
      cases rest
      obtain ⟨inside, is_⟩ := getBit_ok got
      unfold shiftLeft at moved
      split at moved
      · rename_i small
        cases moved
        exact ⟨by omega, by omega, joined code b small value is_⟩
      · cases moved
    · rintro ⟨byte, inside, value⟩
      obtain ⟨b, got, is_⟩ := getBit_inside (show start + n < 8 * data.length by omega)
      have short : field data start n * 2 ^ (width - n) < UInt8.size := by
        have bound := field_lt data start n
        calc _ < 2 ^ n * 2 ^ (width - n) := Nat.mul_lt_mul_of_pos_right bound (Nat.two_pow_pos _)
          _ = 2 ^ width := by rw [← Nat.pow_add, Nat.add_sub_cancel' (by omega)]
          _ ≤ 2 ^ 8 := Nat.pow_le_pow_right (by omega) byte
      have code := UInt8.toNat_ofNat_of_lt' short
      refine ⟨_, (before _).mpr ⟨.inr ⟨byte, by omega⟩, code⟩, ?_⟩
      rw [got]
      show (do
        let shifted ← shiftLeft b (width - 1 - n)
        return UInt8.ofNat _ ||| shifted) = _
      rw [shiftLeft, if_pos (by omega)]
      exact congrArg Except.ok (UInt8.toNat_inj.mp
        ((joined _ b (by omega) code is_).trans value.symm))

theorem readField_ok (data : List UInt8) (width start : Nat) (v : UInt8) :
    readField data width start = .ok v ↔
      (width = 0 ∨ width ≤ 8 ∧ start + width ≤ 8 * data.length) ∧
        v.toNat = field data start width := by
  unfold readField
  by_cases none_ : width = 0
  · subst none_
    simp only [List.range_zero, List.foldlM_nil, true_or, true_and, field]
    constructor
    · intro same
      cases same
      rfl
    · intro zero
      exact congrArg Except.ok (UInt8.toNat_inj.mp zero.symm)
  · rw [readField_rounds data width start (by omega) (Nat.le_refl _) v]
    simp only [none_, false_or, and_assoc, Nat.sub_self, pow_zero, Nat.mul_one]

/-- Writing a field sets the bits that the code has, and no others. -/
theorem writeField_rounds {data : List UInt8} {width start : Nat} (byte : width ≤ 8)
    (inside : start + width ≤ 8 * data.length) (code : UInt8) {rounds : Nat} (part : rounds ≤ width) :
    ∃ data', (List.range rounds).foldlM (fun data b => do
        let shifted ← shiftRight code (width - 1 - b)
        if shifted &&& 1 = 1 then setBit data (start + b) else return data) data = .ok data' ∧
      data'.length = data.length ∧
      ∀ j, bit data' j = (bit data j ||
        decide (start ≤ j ∧ j < start + rounds) && code.toNat.testBit (width - 1 - (j - start))) := by
  induction rounds with
  | zero => exact ⟨data, rfl, rfl, fun j => by simp⟩
  | succ n ih =>
    obtain ⟨before, ran, length, bits⟩ := ih (by omega)
    have bitVal := toNat_bit code (show width - 1 - n < 8 by omega)
    have step (j : Nat) (other : j ≠ start + n) :
        decide (start ≤ j ∧ j < start + (n + 1)) = decide (start ≤ j ∧ j < start + n) :=
      decide_eq_decide.mpr (by omega)
    by_cases set : code.toNat.testBit (width - 1 - n) = true
    · obtain ⟨after, sets, same, now⟩ := setBit_inside (show start + n < 8 * before.length by omega)
      refine ⟨after, ?_, same.trans length, fun j => ?_⟩
      · rw [foldlM_range_succ, ran]
        show (do
          let shifted ← shiftRight code (width - 1 - n)
          if shifted &&& 1 = 1 then setBit before (start + n) else return before) = _
        rw [shiftRight, if_pos (by omega)]
        exact (if_pos (UInt8.toNat_inj.mp (by rw [bitVal, set]; rfl))).trans sets
      · rw [now, bits]
        by_cases here : j = start + n
        · subst here
          rw [beq_self_eq_true, Bool.or_true, decide_eq_true (by omega), Nat.add_sub_cancel_left, set]
          simp
        · rw [beq_eq_false_iff_ne.mpr here, Bool.or_false, step j here]
    · have clear : code.toNat.testBit (width - 1 - n) = false := Bool.eq_false_iff.mpr set
      refine ⟨before, ?_, length, fun j => ?_⟩
      · rw [foldlM_range_succ, ran]
        show (do
          let shifted ← shiftRight code (width - 1 - n)
          if shifted &&& 1 = 1 then setBit before (start + n) else return before) = _
        rw [shiftRight, if_pos (by omega)]
        refine if_neg fun one => ?_
        rw [one, clear] at bitVal
        cases bitVal
      · rw [bits]
        by_cases here : j = start + n
        · subst here
          rw [Nat.add_sub_cancel_left, clear, Bool.and_false, Bool.and_false]
        · rw [step j here]

theorem writeField_ok {data : List UInt8} {width start : Nat} (byte : width ≤ 8)
    (inside : start + width ≤ 8 * data.length) (code : UInt8) :
    ∃ data', writeField data width start code = .ok data' ∧ data'.length = data.length ∧
      ∀ j, bit data' j = (bit data j ||
        decide (start ≤ j ∧ j < start + width) && code.toNat.testBit (width - 1 - (j - start))) :=
  writeField_rounds byte inside code (Nat.le_refl width)

theorem field_eq {data : List UInt8} {start width n : Nat}
    (spelled : ∀ b < width, bit data (start + b) = n.testBit (width - 1 - b)) (below : n < 2 ^ width) :
    field data start width = n := by
  have part (rounds : Nat) (some_ : rounds ≤ width) :
      field data start rounds = n / 2 ^ (width - rounds) := by
    induction rounds with
    | zero => exact (Nat.div_eq_of_lt below).symm
    | succ r ih =>
      have place : width - 1 - r = width - (r + 1) := by omega
      have halves : n / 2 ^ (width - r) = n / 2 ^ (width - (r + 1)) / 2 := by
        rw [Nat.div_div_eq_div_mul, ← Nat.pow_succ]
        congr 2
        omega
      rw [field, ih (by omega), spelled r (by omega), Nat.toNat_testBit, place, halves]
      exact Nat.div_add_mod _ 2
  rw [part width (Nat.le_refl width), Nat.sub_self, pow_zero, Nat.div_one]

/-! ### Fields one behind the other -/

/-- `writeField` for each code, from field `n` on. -/
def writeFields (data : List UInt8) (width : Nat) (codes : List UInt8) (n : Nat) :
    Except Fault (List UInt8) :=
  (codes.zipIdx n).foldlM (fun data code => writeField data width (code.2 * width) code.1) data

def readFields (data : List UInt8) (count width : Nat) : Except Fault (List UInt8) :=
  (List.range count).mapM fun i => readField data width (i * width)

theorem writeFields_ok {width : Nat} (byte : width ≤ 8) (codes : List UInt8) {data : List UInt8}
    {n : Nat} (inside : (n + codes.length) * width ≤ 8 * data.length)
    (clear : ∀ j, n * width ≤ j → bit data j = false) :
    ∃ data', writeFields data width codes n = .ok data' ∧ data'.length = data.length ∧
      (∀ j < n * width, bit data' j = bit data j) ∧
      ∀ i code, codes[i]? = some code → ∀ b < width,
        bit data' ((n + i) * width + b) = code.toNat.testBit (width - 1 - b) := by
  induction codes generalizing data n with
  | nil => exact ⟨data, rfl, rfl, fun j _ => rfl, nofun⟩
  | cons code codes ih =>
    have next : (n + 1) * width = n * width + width := Nat.succ_mul n width
    have whole : (n + (code :: codes).length) * width = (n + 1 + codes.length) * width := by
      rw [List.length_cons]
      congr 1
      omega
    have more : (n + 1) * width ≤ (n + 1 + codes.length) * width :=
      Nat.mul_le_mul_right width (by omega)
    obtain ⟨first, wrote, length, bits⟩ :=
      writeField_ok byte (show n * width + width ≤ 8 * data.length by omega) code
    obtain ⟨data', ran, same, kept, spelled⟩ := ih
      (show (n + 1 + codes.length) * width ≤ 8 * first.length by omega)
      (fun j above => by
        rw [bits, clear j (by omega), decide_eq_false (by omega)]
        rfl)
    refine ⟨data', ?_, same.trans length, fun j below => ?_, fun i code' listed b low => ?_⟩
    · unfold writeFields
      rw [List.zipIdx_cons, List.foldlM_cons, wrote]
      exact ran
    · rw [kept j (by omega), bits, decide_eq_false (by omega)]
      simp
    · cases i with
      | zero =>
        cases listed
        rw [Nat.add_zero, kept _ (by omega), bits, clear _ (by omega), decide_eq_true (by omega),
          Nat.add_sub_cancel_left]
        simp
      | succ i =>
        have shifted : n + (i + 1) = n + 1 + i := by omega
        rw [shifted]
        exact spelled i code' listed b low

theorem bit_replicate (n j : Nat) : bit (List.replicate n 0) j = false := by
  unfold bit
  rw [List.getElem?_replicate]
  split <;> simp

/-- What is written field by field reads back. -/
theorem readFields_writeFields {width : Nat} (byte : width ≤ 8) {codes : List UInt8}
    (low : ∀ code ∈ codes, code.toNat < 2 ^ width) :
    ∃ data, writeFields (List.replicate ((codes.length * width + 7) / 8) 0) width codes 0 = .ok data ∧
      readFields data codes.length width = .ok codes := by
  obtain ⟨data, wrote, length, -, spelled⟩ := writeFields_ok byte codes
    (show (0 + codes.length) * width ≤ 8 * (List.replicate ((codes.length * width + 7) / 8) 0).length by
      rw [List.length_replicate, Nat.zero_add]
      omega) (fun j _ => bit_replicate _ j)
  rw [List.length_replicate] at length
  refine ⟨data, wrote, ?_⟩
  unfold readFields
  have each (i : Nat) (listed : i ∈ List.range codes.length) :
      readField data width (i * width) = .ok (codes.getD i 0) := by
    have below := List.mem_range.mp listed
    have here : codes[i]? = some (codes.getD i 0) := by
      rw [List.getD_eq_getElem?_getD, List.getElem?_eq_getElem below]
      rfl
    have fits : (i + 1) * width ≤ codes.length * width := Nat.mul_le_mul_right width below
    have next : (i + 1) * width = i * width + width := Nat.succ_mul i width
    refine (readField_ok _ _ _ _).mpr ⟨.inr ⟨byte, by omega⟩, (field_eq (fun b small => ?_) ?_).symm⟩
    · have bits := spelled i _ here b small
      rwa [Nat.zero_add] at bits
    · exact low _ (List.mem_of_getElem? here)
  refine mapM_ok.mpr (List.forall₂_iff_get.mpr ⟨List.length_range, fun i left right => ?_⟩)
  have read := each i (List.mem_range.mpr right)
  simpa [List.getD_eq_getElem?_getD, right] using read

end Packing
