import Mathlib.Data.List.Induction
import Mathlib.Logic.Function.Basic

/-! Journals of the operations on a container with a header and keyed items, and what
replaying a journal onto the very container it has produced does. -/
namespace Journal

/-- A container exists when it has a header. -/
structure Container (H K V : Type) where
  header : Option H
  items : K → Option V

inductive Op (H K V A : Type) where
  | create (h : H)
  | drop
  | alter (a : A)
  | put (k : K) (v : V)
  | erase (k : K)

variable {H K V A : Type}

def Container.empty : Container H K V := ⟨none, fun _ => none⟩

theorem Container.ext {c c' : Container H K V} (header : c.header = c'.header)
    (items : ∀ k, c.items k = c'.items k) : c = c' := by
  cases c
  cases c'
  exact congr (congrArg Container.mk header) (funext items)

/-- A container that does not exist holds nothing. -/
def WellFormed (c : Container H K V) : Prop := c.header = none → c = .empty

def alters : List (Op H K V A) → List A
  | [] => []
  | .alter a :: ops => a :: alters ops
  | _ :: ops => alters ops

theorem alters_append (ops more : List (Op H K V A)) : alters (ops ++ more) = alters ops ++ alters more := by
  induction ops with
  | nil => rfl
  | cons op rest ih =>
    cases op with
    | alter a => exact congrArg (a :: ·) ih
    | _ => exact ih

theorem mem_of_alters {ops : List (Op H K V A)} {a : A} (listed : a ∈ alters ops) : .alter a ∈ ops := by
  induction ops with
  | nil => cases listed
  | cons op rest ih =>
    cases op with
    | alter b =>
      rcases List.mem_cons.mp listed with rfl | later
      · exact List.mem_cons_self
      · exact List.mem_cons_of_mem _ (ih later)
    | _ => exact List.mem_cons_of_mem _ (ih listed)

variable [DecidableEq K] (change : A → H → H) (permits : A → H → Prop)

/-- Creation of what exists and writes to what does not are skipped. -/
def apply (c : Container H K V) : Op H K V A → Container H K V
  | .create h => { c with header := c.header.or (some h) }
  | .drop => .empty
  | .alter a => { c with header := c.header.map (change a) }
  | .put k v => if c.header.isSome then { c with items := Function.update c.items k (some v) } else c
  | .erase k => { c with items := Function.update c.items k none }

def replay (c : Container H K V) (ops : List (Op H K V A)) : Container H K V :=
  ops.foldl (apply change) c

/-- Creation only of what does not exist, writes only to what does. -/
def Legal (c : Container H K V) : Op H K V A → Prop
  | .create _ => c.header = none
  | .alter a => ∃ h, c.header = some h ∧ permits a h
  | .put _ _ => c.header.isSome
  | .drop | .erase _ => True

def LegalAll : Container H K V → List (Op H K V A) → Prop
  | _, [] => True
  | c, op :: ops => Legal permits c op ∧ LegalAll (apply change c op) ops

def PermittedAll : H → List A → Prop
  | _, [] => True
  | h, a :: as => permits a h ∧ PermittedAll (change a h) as

/-- What the last operation on a key leaves there, if there is one. -/
def lastWrite (k : K) : List (Op H K V A) → Option (Option V)
  | [] => none
  | .put k' v :: ops => (lastWrite k ops).or (if k' = k then some (some v) else none)
  | .erase k' :: ops => (lastWrite k ops).or (if k' = k then some none else none)
  | _ :: ops => lastWrite k ops

/-! ### Replay -/

section Replay
variable {change : A → H → H} {permits : A → H → Prop}

omit [DecidableEq K] in
theorem wellFormed_empty : WellFormed (.empty : Container H K V) := fun _ => rfl

theorem wellFormed_apply {c : Container H K V} (formed : WellFormed c) (op : Op H K V A) :
    WellFormed (apply change c op) := by
  intro absent
  cases op with
  | create h => simp [apply] at absent
  | drop => rfl
  | alter a =>
    rw [formed (by simpa [apply] using absent)]
    rfl
  | put k v =>
    cases header : c.header with
    | none => simpa [apply, header] using formed header
    | some h => simp [apply, header] at absent
  | erase k =>
    have nothing : c = .empty := formed absent
    refine Container.ext absent fun k' => ?_
    by_cases here : k' = k <;> simp [apply, nothing, Container.empty, here]

theorem wellFormed_replay {c : Container H K V} (formed : WellFormed c) (ops : List (Op H K V A)) :
    WellFormed (replay change c ops) := by
  induction ops generalizing c with
  | nil => exact formed
  | cons op rest ih => exact ih (wellFormed_apply formed op)

theorem replay_dropped (ops : List (Op H K V A)) (dropped : .drop ∈ ops) (c c' : Container H K V) :
    replay change c ops = replay change c' ops := by
  obtain ⟨before, after, rfl⟩ := List.append_of_mem dropped
  simp only [replay, List.foldl_append, List.foldl_cons, apply]

omit [DecidableEq K] in
theorem not_drop {op : Op H K V A} {ops : List (Op H K V A)} (kept : .drop ∉ op :: ops) :
    op ≠ .drop ∧ .drop ∉ ops :=
  ⟨fun h => kept (h ▸ List.mem_cons_self), fun h => kept (List.mem_cons_of_mem _ h)⟩

theorem header_replay (ops : List (Op H K V A)) (kept : .drop ∉ ops) {c : Container H K V} {h : H}
    (present : c.header = some h) :
    (replay change c ops).header = some ((alters ops).foldl (fun h a => change a h) h) := by
  induction ops generalizing c h with
  | nil => exact present
  | cons op rest ih =>
    obtain ⟨first, later⟩ := not_drop kept
    cases op with
    | drop => exact absurd rfl first
    | create h' => exact ih later (by simp [apply, present])
    | alter a => exact ih later (by simp [apply, present])
    | put k v => exact ih later (by simp [apply, present])
    | erase k => exact ih later present

variable (permits) in
theorem items_replay (ops : List (Op H K V A)) (kept : .drop ∉ ops) {c : Container H K V}
    (found : c.header.isSome ∨ LegalAll change permits c ops) (k : K) :
    (replay change c ops).items k = (lastWrite k ops).getD (c.items k) := by
  induction ops generalizing c with
  | nil => rfl
  | cons op rest ih =>
    obtain ⟨first, later⟩ := not_drop kept
    have next : (apply change c op).header.isSome ∨
        LegalAll change permits (apply change c op) rest := by
      refine found.imp (fun present => ?_) fun legal => legal.2
      cases op with
      | drop => exact absurd rfl first
      | create h => simp [apply]
      | alter a => simpa [apply] using present
      | put k' v => simp [apply, present]
      | erase k' => exact present
    refine (ih later next).trans ?_
    cases op with
    | drop => exact absurd rfl first
    | create h => rfl
    | alter a => rfl
    | put k' v =>
      have present : c.header.isSome := found.elim id fun legal => legal.1
      rw [apply, if_pos present, lastWrite]
      cases lastWrite k rest with
      | some v => rfl
      | none =>
        by_cases here : k = k'
        · simp [here]
        · simp [here, Ne.symm here]
    | erase k' =>
      rw [apply, lastWrite]
      cases lastWrite k rest with
      | some v => rfl
      | none =>
        by_cases here : k = k'
        · simp [here]
        · simp [here, Ne.symm here]

/-! ### Replay onto the result -/

/-- What a legal journal has produced is there again whenever it is replayed onto a
container that exists. -/
theorem items_again {ops : List (Op H K V A)} (legal : LegalAll change permits .empty ops) {k : K}
    {v : V} (written : (replay change .empty ops).items k = some v) {c : Container H K V}
    (present : c.header.isSome) : (replay change c ops).items k = some v := by
  by_cases dropped : .drop ∈ ops
  · rw [replay_dropped ops dropped c .empty]
    exact written
  · rw [items_replay permits ops dropped (.inr legal)] at written
    rw [items_replay permits ops dropped (.inl present)]
    cases last : lastWrite k ops with
    | none => simp [last, Container.empty] at written
    | some v => simpa [last] using written

/-- A legal journal replayed onto its own result gives it back when its changes of the
header do, or when it has a drop. -/
theorem replay_again {ops : List (Op H K V A)} (legal : LegalAll change permits .empty ops)
    (settled : .drop ∉ ops → ∀ h, (replay change .empty ops).header = some h →
      (alters ops).foldl (fun h a => change a h) h = h) :
    replay change (replay change .empty ops) ops = replay change .empty ops := by
  by_cases dropped : .drop ∈ ops
  · exact replay_dropped ops dropped _ _
  · cases header : (replay change .empty ops).header with
    | none =>
      have nothing := wellFormed_replay wellFormed_empty ops header
      rw [nothing, nothing]
    | some h =>
      refine Container.ext ?_ fun k => ?_
      · rw [header_replay ops dropped header, settled dropped h header, header]
      · rw [items_replay permits ops dropped (.inl (by rw [header]; rfl)),
          items_replay permits ops dropped (.inr legal)]
        cases lastWrite k ops <;> rfl

theorem permitted_present {ops : List (Op H K V A)} (kept : .drop ∉ ops) {c : Container H K V}
    (legal : LegalAll change permits c ops) {h : H} (present : c.header = some h) :
    PermittedAll change permits h (alters ops) := by
  induction ops generalizing c h with
  | nil => trivial
  | cons op rest ih =>
    obtain ⟨first, later⟩ := not_drop kept
    cases op with
    | drop => exact absurd rfl first
    | create h' => exact ih later legal.2 (by simp [apply, present])
    | alter a =>
      obtain ⟨h', there, permitted⟩ := legal.1
      cases present.symm.trans there
      exact ⟨permitted, ih later legal.2 (by simp [apply, present])⟩
    | put k v => exact ih later legal.2 (by simp [apply, present])
    | erase k => exact ih later legal.2 present

/-- The header is that of some creation under all changes, each of which was permitted. -/
theorem header_created {ops : List (Op H K V A)} (kept : .drop ∉ ops)
    (legal : LegalAll change permits .empty ops) {h : H}
    (result : (replay change .empty ops).header = some h) :
    ∃ h₀, PermittedAll change permits h₀ (alters ops) ∧
      h = (alters ops).foldl (fun h a => change a h) h₀ := by
  have start : (Container.empty : Container H K V).header = none := rfl
  generalize (Container.empty : Container H K V) = c at start legal result
  induction ops generalizing c with
  | nil => exact absurd (start.symm.trans result) nofun
  | cons op rest ih =>
    obtain ⟨first, later⟩ := not_drop kept
    cases op with
    | drop => exact absurd rfl first
    | create h₀ =>
      have created : (apply change c (.create h₀)).header = some h₀ := by simp [apply, start]
      have final : (replay change _ rest).header = _ := header_replay rest later created
      exact ⟨h₀, permitted_present later legal.2 created, Option.some.inj (result.symm.trans final)⟩
    | alter a =>
      obtain ⟨h', there, -⟩ := legal.1
      exact absurd (start.symm.trans there) nofun
    | put k v =>
      have present : c.header.isSome := legal.1
      simp [start] at present
    | erase k => exact ih later (apply change c (.erase k)) start legal.2 result

/-- The same from any container, where the changes of the header come to rest wherever they are
permitted. -/
theorem replay_again_from {ops : List (Op H K V A)} {c : Container H K V} (formed : WellFormed c)
    (legal : LegalAll change permits c ops)
    (settled : ∀ h, PermittedAll change permits h (alters ops) →
      (alters ops).foldl (fun h a => change a h) ((alters ops).foldl (fun h a => change a h) h) =
        (alters ops).foldl (fun h a => change a h) h) :
    replay change (replay change c ops) ops = replay change c ops := by
  by_cases dropped : .drop ∈ ops
  · exact replay_dropped ops dropped _ _
  · cases header : c.header with
    | none =>
      have nothing := formed header
      subst nothing
      refine replay_again legal fun kept h result => ?_
      obtain ⟨h₀, permitted, rfl⟩ := header_created kept legal result
      exact settled h₀ permitted
    | some h =>
      have after : (replay change c ops).header = _ := header_replay ops dropped header
      refine Container.ext ?_ fun k => ?_
      · rw [header_replay ops dropped after, settled h (permitted_present dropped legal header), after]
      · rw [items_replay permits ops dropped (.inl (by rw [after]; rfl)),
          items_replay permits ops dropped (.inr legal)]
        cases lastWrite k ops <;> rfl

theorem alters_absent {ops : List (Op H K V A)} (kept : .drop ∉ ops) {c : Container H K V}
    (legal : LegalAll change permits c ops) (absent : (replay change c ops).header = none) :
    alters ops = [] := by
  induction ops generalizing c with
  | nil => rfl
  | cons op rest ih =>
    obtain ⟨first, later⟩ := not_drop kept
    have unchanged := ih later legal.2 absent
    cases op with
    | alter a =>
      obtain ⟨h, there, -⟩ := legal.1
      have present : (replay change (apply change c (.alter a)) rest).header = _ :=
        header_replay rest later (by simp [apply, there]; rfl)
      exact absurd (absent.symm.trans present) nofun
    | _ => exact unchanged

omit [DecidableEq K] in
theorem permittedAll_append {as : List A} {a : A} {h : H}
    (permitted : PermittedAll change permits h (as ++ [a])) :
    PermittedAll change permits h as ∧ permits a (as.foldl (fun h a => change a h) h) := by
  induction as generalizing h with
  | nil => exact ⟨trivial, permitted.1⟩
  | cons first rest ih =>
    obtain ⟨later, last⟩ := ih permitted.2
    exact ⟨⟨permitted.1, later⟩, last⟩

end Replay

/-! ### Folds replayed onto their result -/

section Folds
variable {X : Type} (f : X → A → X)

theorem foldl_kernel {a : A} (respects : ∀ b x y, f x a = f y a → f (f x b) a = f (f y b) a)
    (as : List A) {x y : X} (same : f x a = f y a) : f (as.foldl f x) a = f (as.foldl f y) a := by
  induction as generalizing x y with
  | nil => exact same
  | cons b rest ih => exact ih (respects b x y same)

theorem foldl_again (as : List A) (idempotent : ∀ a x, f (f x a) a = f x a)
    (respects : ∀ a b x y, f x a = f y a → f (f x b) a = f (f y b) a) (x : X) :
    as.foldl f (as.foldl f x) = as.foldl f x := by
  induction as using List.reverseRecOn with
  | nil => rfl
  | append_singleton as a ih =>
    simp only [List.foldl_append, List.foldl_cons, List.foldl_nil]
    rw [foldl_kernel f (respects a) as (idempotent a _), ih]

end Folds
end Journal
