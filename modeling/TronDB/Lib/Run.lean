import Mathlib.Data.List.Basic

/-! Runs of a state machine: a step function iterated over a list of actions, the
states it passes through, and the induction principles over them. -/
namespace Run

variable {S A : Type*} (step : S → A → S)

/-- Every state of a run, the first and the last included. -/
def visited (s : S) : List A → List S
  | [] => [s]
  | a :: rest => s :: visited (step s a) rest

/-- Every action of a run with the state it is taken in. -/
def taken (s : S) : List A → List (S × A)
  | [] => []
  | a :: rest => (s, a) :: taken (step s a) rest

theorem visited_nil (s : S) : visited step s [] = [s] := rfl

theorem visited_cons (s : S) (a : A) (rest : List A) :
    visited step s (a :: rest) = s :: visited step (step s a) rest := rfl

theorem taken_nil (s : S) : taken step s [] = [] := rfl

theorem taken_cons (s : S) (a : A) (rest : List A) :
    taken step s (a :: rest) = (s, a) :: taken step (step s a) rest := rfl

theorem start_visited (s : S) (as : List A) : s ∈ visited step s as := by
  cases as <;> simp [visited_nil, visited_cons]

theorem end_visited (s : S) (as : List A) : as.foldl step s ∈ visited step s as := by
  induction as generalizing s with
  | nil => simp [visited_nil]
  | cons a rest ih => exact List.mem_cons_of_mem _ (ih (step s a))

theorem visited_of_taken (s : S) (as : List A) : ∀ p ∈ taken step s as, p.1 ∈ visited step s as := by
  induction as generalizing s with
  | nil => simp [taken_nil]
  | cons a rest ih =>
    exact List.forall_mem_cons.mpr
      ⟨List.mem_cons_self .., fun p there => List.mem_cons_of_mem _ (ih (step s a) p there)⟩

theorem forall_visited_iff {P : S → Prop} (s : S) (as : List A) :
    (∀ t ∈ visited step s as, P t) ↔ P s ∧ ∀ p ∈ taken step s as, P (step p.1 p.2) := by
  induction as generalizing s with
  | nil => simp [visited_nil, taken_nil]
  | cons a rest ih => simp only [visited_cons, taken_cons, List.forall_mem_cons, ih]

theorem mem_visited_append {s t : S} (as bs : List A) :
    t ∈ visited step s (as ++ bs) ↔
      t ∈ visited step s as ∨ t ∈ visited step (as.foldl step s) bs := by
  induction as generalizing s with
  | nil =>
    simp only [List.nil_append, List.foldl_nil, visited_nil, List.mem_singleton]
    refine ⟨.inr, fun either => either.elim (fun same => ?_) id⟩
    exact same ▸ start_visited step s bs
  | cons a rest ih =>
    simp only [List.cons_append, visited_cons, List.mem_cons, List.foldl_cons, ih, or_assoc]

theorem taken_append (s : S) (as bs : List A) :
    taken step s (as ++ bs) = taken step s as ++ taken step (as.foldl step s) bs := by
  induction as generalizing s with
  | nil => rfl
  | cons a rest ih => simp only [List.cons_append, taken_cons, ih, List.foldl_cons]

theorem last_with {α : Type*} (p : α → Prop) (xs : List α) (some_ : ∃ x ∈ xs, p x) :
    ∃ between last after, xs = between ++ last :: after ∧ p last ∧ ∀ x ∈ after, ¬ p x := by
  induction xs with
  | nil =>
    obtain ⟨x, there, -⟩ := some_
    exact absurd there List.not_mem_nil
  | cons x rest ih =>
    by_cases later : ∃ y ∈ rest, p y
    · obtain ⟨between, last, after, rfl, holds, none_⟩ := ih later
      exact ⟨x :: between, last, after, rfl, holds, none_⟩
    · obtain ⟨y, there, holds⟩ := some_
      rcases List.mem_cons.mp there with rfl | there
      · exact ⟨[], y, rest, rfl, holds, fun z listed bad => later ⟨z, listed, bad⟩⟩
      · exact absurd ⟨y, there, holds⟩ later

theorem foldl_establishes {Q : A → S → Prop} (here : ∀ s a, Q a (step s a))
    (kept : ∀ s a b, Q b s → Q b (step s a)) (as : List A) (s : S) :
    ∀ a ∈ as, Q a (as.foldl step s) := by
  have stays (b : A) (rest : List A) (t : S) (holds : Q b t) : Q b (rest.foldl step t) := by
    induction rest generalizing t with
    | nil => exact holds
    | cons a rest ih => exact ih _ (kept t a b holds)
  induction as generalizing s with
  | nil => simp
  | cons a rest ih =>
    exact List.forall_mem_cons.mpr ⟨stays a rest _ (here s a), ih (step s a)⟩

theorem foldl_unchanged (as : List A) (s : S) (each : ∀ a ∈ as, step s a = s) :
    as.foldl step s = s := by
  induction as with
  | nil => rfl
  | cons a rest ih =>
    rw [List.forall_mem_cons] at each
    rw [List.foldl_cons, each.1]
    exact ih each.2

theorem foldl_first (inv : S → Prop) (a : A) (before after : List A) {s : S} (start : inv s)
    (kept : ∀ b ∈ before, ∀ s, inv s → inv (step s b))
    (swaps : ∀ b ∈ before, ∀ s, inv s → step (step s b) a = step (step s a) b) :
    (before ++ a :: after).foldl step s = (before ++ after).foldl step (step s a) := by
  induction before generalizing s with
  | nil => rfl
  | cons b rest ih =>
    rw [List.forall_mem_cons] at kept swaps
    rw [List.cons_append, List.foldl_cons, ih (kept.1 s start) kept.2 swaps.2, swaps.1 s start]
    rfl

theorem foldl_silent {V : Type*} (view : S → V) (count : V → Nat) (silent : V → A → Prop)
    (each : ∀ s a, silent (view s) a ∧ view (step s a) = view s ∨
      ¬ silent (view s) a ∧ count (view s) < count (view (step s a))) (as : List A) (s : S) :
    (∀ a ∈ as, silent (view s) a) ∧ view (as.foldl step s) = view s ∨
      (¬ ∀ a ∈ as, silent (view s) a) ∧ count (view s) < count (view (as.foldl step s)) := by
  induction as generalizing s with
  | nil => exact .inl ⟨nofun, rfl⟩
  | cons a rest ih =>
    rw [List.forall_mem_cons, List.foldl_cons]
    have later := ih (step s a)
    rcases each s a with ⟨quiet, same⟩ | ⟨loud, more⟩
    · rw [same] at later
      rcases later with ⟨all, kept⟩ | ⟨some, more⟩
      · exact .inl ⟨⟨quiet, all⟩, kept⟩
      · exact .inr ⟨fun both => some both.2, more⟩
    · refine .inr ⟨fun both => loud both.1, ?_⟩
      rcases later with ⟨_, kept⟩ | ⟨_, further⟩
      · exact kept ▸ more
      · exact Nat.lt_trans more further

/-- Where no action adds to what is left, and each of a kind takes from it, there are no more of
that kind than was left at the start. -/
theorem countP_taken_le {P : S → Prop} (left : S → Nat) (kind : S × A → Bool) (as : List A) {s : S}
    (all : ∀ t ∈ visited step s as, P t)
    (each : ∀ t a, P t → left (step t a) + (if kind (t, a) then 1 else 0) ≤ left t) :
    (taken step s as).countP kind ≤ left s := by
  induction as generalizing s with
  | nil => simp [taken_nil]
  | cons a rest ih =>
    rw [visited_cons, List.forall_mem_cons] at all
    rw [taken_cons, List.countP_cons]
    have later := ih all.2
    have here := each s a all.1
    omega

/-- What every action preserves when taken under the guard holds all along a run whose
actions are all taken under it. -/
theorem invariant_under {inv : S → Prop} (guard : S → A → Prop) {s : S} (as : List A)
    (initial : inv s) (guarded : ∀ p ∈ taken step s as, guard p.1 p.2)
    (preserves : ∀ s a, inv s → guard s a → inv (step s a)) :
    ∀ t ∈ visited step s as, inv t := by
  induction as generalizing s with
  | nil => simpa [visited_nil] using initial
  | cons a rest ih =>
    simp only [taken_cons, List.forall_mem_cons] at guarded
    intro t ht
    rcases List.mem_cons.mp ht with ht | ht
    · exact ht ▸ initial
    · exact ih (preserves s a initial guarded.1) guarded.2 t ht

theorem invariant {inv : S → Prop} {s : S} (as : List A) (initial : inv s)
    (preserves : ∀ s a, inv s → inv (step s a)) : ∀ t ∈ visited step s as, inv t :=
  invariant_under step (fun _ _ => True) as initial (fun _ _ => trivial)
    (fun s a h _ => preserves s a h)

theorem invariant_end {inv : S → Prop} {s : S} (as : List A) (initial : inv s)
    (preserves : ∀ s a, inv s → inv (step s a)) : inv (as.foldl step s) :=
  invariant step as initial preserves _ (end_visited step s as)

/-- The exact form: where, in good invariant states, the guard is what decides whether an
allowed action leads to a good state, a run of allowed actions is good throughout iff every
action meets the guard. The invariant itself need only survive guarded actions. -/
theorem good_iff_guarded_on (inv good : S → Prop) (allowed guard : S → A → Prop) {s : S}
    (as : List A) (initial : inv s) (start : good s)
    (admitted : ∀ p ∈ taken step s as, allowed p.1 p.2)
    (preserves : ∀ s a, inv s → good s → allowed s a → guard s a → inv (step s a))
    (decides : ∀ s a, inv s → good s → allowed s a → (good (step s a) ↔ guard s a)) :
    (∀ t ∈ visited step s as, good t) ↔ ∀ p ∈ taken step s as, guard p.1 p.2 := by
  induction as generalizing s with
  | nil => simp [visited_nil, taken_nil, start]
  | cons a rest ih =>
    simp only [taken_cons, List.forall_mem_cons] at admitted
    simp only [visited_cons, taken_cons, List.forall_mem_cons, start, true_and]
    have decided := decides s a initial start admitted.1
    constructor
    · intro all
      have next : good (step s a) := all _ (start_visited step _ rest)
      have here := decided.mp next
      have kept := preserves s a initial start admitted.1 here
      exact ⟨here, (ih kept next admitted.2).mp all⟩
    · rintro ⟨here, later⟩
      have next := decided.mpr here
      have kept := preserves s a initial start admitted.1 here
      exact (ih kept next admitted.2).mpr later

theorem good_iff_guarded (inv good : S → Prop) (guard : S → A → Prop) {s : S} (as : List A)
    (initial : inv s) (start : good s)
    (preserves : ∀ s a, inv s → good s → guard s a → inv (step s a))
    (decides : ∀ s a, inv s → good s → (good (step s a) ↔ guard s a)) :
    (∀ t ∈ visited step s as, good t) ↔ ∀ p ∈ taken step s as, guard p.1 p.2 :=
  good_iff_guarded_on step inv good (fun _ _ => True) guard as initial start
    (fun _ _ => trivial) (fun s a h g _ => preserves s a h g) (fun s a h g _ => decides s a h g)

/-- The form for what an action does, also an action that changes nothing: where the guard
decides whether an allowed action does what it should, in a run of allowed actions all of them do
iff all meet the guard. -/
theorem each_iff_guarded_on (inv : S → Prop) (holds allowed guard : S → A → Prop) {s : S}
    (as : List A) (initial : inv s) (admitted : ∀ p ∈ taken step s as, allowed p.1 p.2)
    (preserves : ∀ s a, inv s → allowed s a → holds s a → inv (step s a))
    (decides : ∀ s a, inv s → allowed s a → (holds s a ↔ guard s a)) :
    (∀ p ∈ taken step s as, holds p.1 p.2) ↔ ∀ p ∈ taken step s as, guard p.1 p.2 := by
  induction as generalizing s with
  | nil => simp [taken_nil]
  | cons a rest ih =>
    simp only [taken_cons, List.forall_mem_cons] at admitted
    simp only [taken_cons, List.forall_mem_cons, decides s a initial admitted.1]
    refine and_congr_right fun here => ih (preserves s a initial admitted.1 ?_) admitted.2
    exact (decides s a initial admitted.1).mpr here

theorem each_iff_guarded (inv : S → Prop) (holds guard : S → A → Prop) {s : S} (as : List A)
    (initial : inv s) (preserves : ∀ s a, inv s → holds s a → inv (step s a))
    (decides : ∀ s a, inv s → (holds s a ↔ guard s a)) :
    (∀ p ∈ taken step s as, holds p.1 p.2) ↔ ∀ p ∈ taken step s as, guard p.1 p.2 :=
  each_iff_guarded_on step inv holds (fun _ _ => True) guard as initial (fun _ _ => trivial)
    (fun s a h _ => preserves s a h) (fun s a h _ => decides s a h)

end Run
