import Mathlib.Data.List.Forall2

/-! Values that are encoded and decoded again, where both may fail. -/
namespace Codec

variable {ε A B : Type}

def Survives (encode : A → Except ε B) (decode : B → Except ε A) (a : A) : Prop :=
  encode a >>= decode = .ok a

theorem survives_iff {encode : A → Except ε B} {decode : B → Except ε A} {a : A} :
    Survives encode decode a ↔ ∃ b, encode a = .ok b ∧ decode b = .ok a := by
  unfold Survives
  cases encoded : encode a with
  | error e => exact iff_of_false nofun fun ⟨b, none_, _⟩ => nomatch none_
  | ok b =>
    constructor
    · intro back
      exact ⟨b, rfl, back⟩
    · rintro ⟨b', same, back⟩
      cases same
      exact back

section Lists
variable (encode : A → Except ε B) (decode : B → Except ε A)

theorem mapM_ok {f : A → Except ε B} {as : List A} {bs : List B} :
    as.mapM f = .ok bs ↔ List.Forall₂ (fun a b => f a = .ok b) as bs := by
  induction as generalizing bs with
  | nil =>
    rw [List.mapM_nil, List.forall₂_nil_left_iff]
    constructor
    · intro same
      cases same
      rfl
    · rintro rfl
      rfl
  | cons a rest ih =>
    rw [List.mapM_cons]
    cases first : f a with
    | error e =>
      refine iff_of_false nofun fun both => ?_
      cases both with
      | cons here _ => cases first.symm.trans here
    | ok b =>
      cases later : rest.mapM f with
      | error e =>
        refine iff_of_false nofun fun both => ?_
        cases both with
        | cons _ there => cases later.symm.trans (ih.mpr there)
      | ok bs' =>
        have there := ih.mp later
        constructor
        · intro same
          cases same
          exact .cons first there
        · intro both
          cases both with
          | cons here there' =>
            cases first.symm.trans here
            cases later.symm.trans (ih.mpr there')
            rfl

theorem mem_of_mapM {f : A → Except ε B} {as : List A} {bs : List B} (ok : as.mapM f = .ok bs) :
    ∀ b ∈ bs, ∃ a ∈ as, f a = .ok b := by
  have each := mapM_ok.mp ok
  induction each with
  | nil => simp
  | cons here later ih =>
    refine List.forall_mem_cons.mpr ⟨⟨_, List.mem_cons_self, here⟩, fun b listed => ?_⟩
    obtain ⟨a, there, made⟩ := ih (mapM_ok.mpr later) b listed
    exact ⟨a, List.mem_cons_of_mem _ there, made⟩

theorem survives_mapM (as : List A) :
    Survives (fun as : List A => as.mapM encode) (fun bs => bs.mapM decode) as ↔
      ∀ a ∈ as, Survives encode decode a := by
  rw [survives_iff]
  simp only [mapM_ok]
  induction as with
  | nil =>
    refine iff_of_true ⟨[], .nil, .nil⟩ ?_
    intro a there
    cases there
  | cons a rest ih =>
    rw [List.forall_mem_cons, ← ih, survives_iff]
    constructor
    · rintro ⟨bs, there, back⟩
      cases there with
      | cons here there =>
        cases back with
        | cons here' back => exact ⟨⟨_, here, here'⟩, _, there, back⟩
    · rintro ⟨⟨b, here, here'⟩, bs, there, back⟩
      exact ⟨b :: bs, .cons here there, .cons here' back⟩

theorem mapM_some_map (f : A → Except ε B) (a : A) : (some a).mapM f = (f a).map some := rfl

theorem mapM_some {f : A → Except ε B} {a : A} {o : Option B} :
    (some a).mapM f = .ok o ↔ ∃ b, f a = .ok b ∧ o = some b := by
  rw [mapM_some_map]
  cases f a with
  | error e =>
    constructor
    · intro same
      cases same
    · rintro ⟨b, same, -⟩
      cases same
  | ok b =>
    constructor
    · intro same
      cases same
      exact ⟨b, rfl, rfl⟩
    · rintro ⟨b', same, rfl⟩
      cases same
      rfl

theorem survives_option (o : Option A) :
    Survives (fun o : Option A => o.mapM encode) (fun b => b.mapM decode) o ↔
      ∀ a ∈ o, Survives encode decode a := by
  cases o with
  | none => exact iff_of_true rfl nofun
  | some a =>
    rw [survives_iff]
    simp only [mapM_some, Option.mem_some_iff, forall_eq', survives_iff]
    constructor
    · rintro ⟨_, ⟨b, here, rfl⟩, back⟩
      obtain ⟨a', back, same⟩ := mapM_some.mp back
      cases same
      exact ⟨b, here, back⟩
    · rintro ⟨b, here, back⟩
      exact ⟨some b, ⟨b, here, rfl⟩, mapM_some.mpr ⟨a, back, rfl⟩⟩

variable {encode decode}

theorem mapM_map {f : A → B} {g : B → Except ε A} (back : ∀ a, g (f a) = .ok a) (as : List A) :
    (as.map f).mapM g = .ok as := by
  rw [mapM_ok, List.forall₂_map_left_iff, List.forall₂_same]
  exact fun a _ => back a

theorem mapM_map_option {f : A → B} {g : B → Except ε A} (back : ∀ a, g (f a) = .ok a) (o : Option A) :
    (o.map f).mapM g = .ok o := by
  cases o with
  | none => rfl
  | some a => exact mapM_some.mpr ⟨a, back a, rfl⟩

end Lists

theorem filterMap_eq_self {f : A → Option A} {as : List A} :
    as.filterMap f = as ↔ ∀ a ∈ as, f a = some a := by
  induction as with
  | nil => simp
  | cons a rest ih =>
    rw [List.forall_mem_cons]
    cases here : f a with
    | none =>
      rw [List.filterMap_cons_none here]
      refine iff_of_false (fun same => ?_) fun both => nomatch both.1
      have shorter := List.length_filterMap_le f rest
      rw [same, List.length_cons] at shorter
      omega
    | some b =>
      rw [List.filterMap_cons_some here, List.cons.injEq, ih, Option.some.injEq]
end Codec
