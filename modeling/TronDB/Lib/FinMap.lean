import Mathlib.Data.List.Nodup
import Mathlib.Tactic.Ring

/-! Finite maps over lawfully ordered keys. -/

/-- Keys are kept in order, and two maps with the same entries are equal. -/
abbrev FinMap (K V : Type) [Ord K] := Std.ExtTreeMap K V

-- pairs serve as keys, ordered by their first component and then their second
attribute [instance] lexOrd

namespace FinMap

variable {K V : Type} [Ord K] [Std.TransOrd K] [Std.LawfulEqOrd K]

def adjust (m : FinMap K V) (k : K) (f : V → V) : FinMap K V :=
  match m[k]? with
  | some v => m.insert k (f v)
  | none => m

theorem get_insert [DecidableEq K] (m : FinMap K V) (k a : K) (v : V) :
    (m.insert k v)[a]? = if k = a then some v else m[a]? := by
  rw [Std.ExtTreeMap.getElem?_insert]
  by_cases same : k = a <;> simp [same]

theorem contains_insert [DecidableEq K] (m : FinMap K V) (k a : K) (v : V)
    (there : m.contains a = true) : (m.insert k v).contains a = true := by
  rw [Std.ExtTreeMap.contains_eq_isSome_getElem?] at there ⊢
  rw [get_insert]
  split
  · rfl
  · exact there

theorem get_erase [DecidableEq K] (m : FinMap K V) (k a : K) :
    (m.erase k)[a]? = if k = a then none else m[a]? := by
  rw [Std.ExtTreeMap.getElem?_erase]
  by_cases same : k = a <;> simp [same]

theorem get_filter (m : FinMap K V) (p : K → V → Bool) (a : K) :
    (m.filter p)[a]? = m[a]?.filter (p a) := by
  rw [Std.ExtTreeMap.getElem?_filter']

theorem get_filterKeys (m : FinMap K V) (p : K → Prop) [DecidablePred p] (a : K) :
    (m.filter fun k _ => p k)[a]? = if p a then m[a]? else none := by
  rw [get_filter]
  split <;> rename_i here <;> cases m[a]? <;> simp [here]

theorem get_adjust [DecidableEq K] (m : FinMap K V) (k a : K) (f : V → V) :
    (adjust m k f)[a]? = if k = a then m[a]?.map f else m[a]? := by
  unfold adjust
  cases found : m[k]? with
  | none =>
    dsimp only
    split
    · rename_i here
      rw [← here, found]
      rfl
    · rfl
  | some v =>
    dsimp only
    rw [get_insert]
    split
    · rename_i here
      rw [← here, found]
      rfl
    · rfl

theorem adjust_same [DecidableEq K] {m : FinMap K V} {k : K} {f : V → V}
    (same : ∀ v, m[k]? = some v → f v = v) : adjust m k f = m := by
  refine Std.ExtTreeMap.ext_getElem? fun {a} => ?_
  rw [get_adjust]
  split
  · rename_i here
    subst here
    cases found : m[k]? with
    | none => rfl
    | some v => exact congrArg some (same v found)
  · rfl

theorem ext {m m' : FinMap K V} (same : ∀ k : K, m[k]? = m'[k]?) : m = m' :=
  Std.ExtTreeMap.ext_getElem? same

theorem insert_eq_self_iff [DecidableEq K] (m : FinMap K V) (k : K) (v : V) :
    m.insert k v = m ↔ m[k]? = some v := by
  constructor
  · intro same
    rw [← same, get_insert, if_pos rfl]
  · intro there
    apply ext
    intro a
    rw [get_insert]
    split
    · rename_i here
      rw [← here, there]
    · rfl

theorem filter_insert_of_not [DecidableEq K] (m : FinMap K V) {p : K → V → Bool} {k : K} {v : V}
    (dropped : p k v = false) : (m.insert k v).filter p = (m.filter p).erase k := by
  apply ext
  intro a
  rw [get_filter, get_erase, get_insert, get_filter]
  split
  · rename_i here
    simp [← here, dropped]
  · rfl

theorem filter_erase [DecidableEq K] (m : FinMap K V) (p : K → V → Bool) (k : K) :
    (m.erase k).filter p = (m.filter p).erase k := by
  apply ext
  intro a
  rw [get_filter, get_erase, get_erase, get_filter]
  split <;> rfl

theorem mem_toList (m : FinMap K V) (k : K) (v : V) : (k, v) ∈ m.toList ↔ m[k]? = some v :=
  Std.ExtTreeMap.mem_toList_iff_getElem?_eq_some

theorem nodup_toList (m : FinMap K V) : (m.toList.map Prod.fst).Nodup := by
  have distinct := Std.ExtTreeMap.distinct_keys_toList (t := m)
  rw [List.Nodup, List.pairwise_map]
  exact distinct.imp fun {a b} h same => h (by simp [same])

omit [Std.LawfulEqOrd K] in
theorem sorted_toList (m : FinMap K V) : m.toList.Pairwise fun a b => compare a.1 b.1 = .lt :=
  Std.ExtTreeMap.ordered_keys_toList

theorem toList_erase [DecidableEq K] (m : FinMap K V) (k : K) :
    (m.erase k).toList = m.toList.filter fun kv => kv.1 ≠ k := by
  have distinct (m : FinMap K V) : m.toList.Nodup := List.Nodup.of_map Prod.fst (nodup_toList m)
  have same : (m.erase k).toList.Perm (m.toList.filter fun kv => kv.1 ≠ k) := by
    rw [List.perm_ext_iff_of_nodup (distinct _) ((distinct _).filter _)]
    rintro ⟨a, v⟩
    rw [List.mem_filter, mem_toList, mem_toList, get_erase, decide_eq_true_iff]
    by_cases here : k = a
    · simp [here]
    · simp [here, Ne.symm here]
  apply same.eq_of_pairwise _ (sorted_toList _) ((sorted_toList m).filter _)
  intro a b _ _ less more
  exact absurd more (Std.OrientedCmp.not_lt_of_lt less)

theorem mem_keys (m : FinMap K V) (k : K) : k ∈ m.toList.map Prod.fst ↔ m.contains k = true := by
  rw [List.mem_map, Std.ExtTreeMap.contains_eq_isSome_getElem?, Option.isSome_iff_exists]
  constructor
  · rintro ⟨⟨k, v⟩, listed, rfl⟩
    exact ⟨v, (mem_toList m k v).mp listed⟩
  · rintro ⟨v, found⟩
    exact ⟨(k, v), (mem_toList m k v).mpr found, rfl⟩

def insertAll (m : FinMap K V) (entries : List (K × V)) : FinMap K V :=
  entries.foldl (fun m kv => m.insert kv.1 kv.2) m

theorem get_insertAll_absent [DecidableEq K] (entries : List (K × V)) (m : FinMap K V) {k : K}
    (absent : k ∉ entries.map Prod.fst) : (insertAll m entries)[k]? = m[k]? := by
  induction entries generalizing m with
  | nil => rfl
  | cons kv rest ih =>
    rw [List.map_cons, List.mem_cons, not_or] at absent
    have step : insertAll m (kv :: rest) = insertAll (m.insert kv.1 kv.2) rest := rfl
    rw [step, ih _ absent.2, get_insert, if_neg (Ne.symm absent.1)]

theorem get_insertAll [DecidableEq K] (entries : List (K × V)) (m : FinMap K V)
    (distinct : (entries.map Prod.fst).Nodup) :
    ∀ kv ∈ entries, (insertAll m entries)[kv.1]? = some kv.2 := by
  induction entries generalizing m with
  | nil => simp
  | cons kv rest ih =>
    rw [List.map_cons, List.nodup_cons] at distinct
    have step : insertAll m (kv :: rest) = insertAll (m.insert kv.1 kv.2) rest := rfl
    rw [step]
    refine List.forall_mem_cons.mpr ⟨?_, ih _ distinct.2⟩
    rw [get_insertAll_absent rest _ distinct.1, get_insert, if_pos rfl]

theorem get_insertAll_toList [DecidableEq K] (m base : FinMap K V) (k : K) :
    (insertAll base m.toList)[k]? = m[k]?.or base[k]? := by
  cases found : m[k]? with
  | none =>
    refine get_insertAll_absent _ _ fun listed => ?_
    obtain ⟨⟨k', v⟩, there, rfl⟩ := List.mem_map.mp listed
    cases found.symm.trans ((mem_toList m k' v).mp there)
  | some v => exact get_insertAll m.toList base (nodup_toList m) (k, v) ((mem_toList m k v).mpr found)

theorem get_insertValues [DecidableEq K] {name : V → K} {m : FinMap K V}
    (named : ∀ k v, m[k]? = some v → name v = k) (base : FinMap K V) (k : K) :
    ((m.toList.map Prod.snd).foldl (fun base v => base.insert (name v) v) base)[k]? =
      m[k]?.or base[k]? := by
  rw [← get_insertAll_toList, insertAll, List.foldl_map]
  refine congrArg (·[k]?) (List.foldl_ext _ _ base fun base kv listed => ?_)
  rw [named kv.1 kv.2 ((mem_toList m kv.1 kv.2).mp listed)]

end FinMap
