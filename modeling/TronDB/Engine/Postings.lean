import TronDB.Engine.SubgraphPath

/-! Posting lists: what a sparse index holds of an entity, and what a search makes of it. -/
namespace TronDB.Engine
open TronDB.Core Binary Ranked Wal

/-! ### The weights of an entity -/

namespace SparseIndex

/-- The weights that are listed for the entity in a dimension. -/
def weights (idx : SparseIndex) (d : UInt32) (id : LogicalId) : List F32 :=
  ((idx.postings[d]?.getD []).filter fun e => e.1 = id).map Prod.snd

/-- The weights of a vector in a dimension that are not too small to be listed. -/
def listedWeights (vector : List (UInt32 × F32)) (d : UInt32) : List F32 :=
  (vector.filter fun entry => entry.1 = d && !entry.2.absLt minWeight).map Prod.snd

variable (idx : SparseIndex) (entityId : LogicalId) (vector : List (UInt32 × F32)) (d : UInt32)
  (id : LogicalId)

@[simp] theorem weights_new : new.weights d id = [] := by
  simp [weights, new]

theorem weights_insert : (idx.insert entityId vector).weights d id =
    idx.weights d id ++ if entityId = id then listedWeights vector d else [] := by
  unfold insert weights
  induction vector generalizing idx with
  | nil => simp [listedWeights]
  | cons entry rest ih =>
    rw [List.foldl_cons]
    cases small : entry.2.absLt minWeight with
    | true =>
      have skipped : listedWeights (entry :: rest) d = listedWeights rest d := by
        simp [listedWeights, small]
      rw [if_pos rfl, skipped]
      exact ih idx
    | false =>
      rw [if_neg Bool.false_ne_true]
      refine (ih ⟨idx.postings.insert entry.1
        (idx.postings[entry.1]?.getD [] ++ [(entityId, entry.2)])⟩).trans ?_
      rw [FinMap.get_insert]
      by_cases here : entry.1 = d
      · subst here
        by_cases own : entityId = id <;> simp [listedWeights, small, own]
      · by_cases own : entityId = id <;> simp [listedWeights, here, own]

/-- One dimension loses the entity; an empty posting list is as good as none. -/
theorem entries_remove (entry : UInt32 × F32) : (idx.remove entityId [entry]).postings[d]?.getD [] =
    if entry.1 = d then (idx.postings[d]?.getD []).filter fun e => e.1 ≠ entityId
    else idx.postings[d]?.getD [] := by
  unfold remove
  rw [List.foldl_cons, List.foldl_nil]
  dsimp only
  split
  · rename_i entries found
    by_cases here : entry.1 = d
    · subst here
      rw [if_pos rfl, found, Option.getD_some]
      split
      · rename_i none_
        rw [FinMap.get_erase, if_pos rfl, none_]
        rfl
      · rw [FinMap.get_insert, if_pos rfl]
        rfl
    · rw [if_neg here]
      split
      · rw [FinMap.get_erase, if_neg here]
      · rw [FinMap.get_insert, if_neg here]
  · rename_i missing
    split
    · rename_i here
      rw [← here, missing]
      rfl
    · rfl

theorem weights_remove : (idx.remove entityId vector).weights d id =
    if entityId = id ∧ d ∈ vector.map Prod.fst then [] else idx.weights d id := by
  induction vector generalizing idx with
  | nil => simp [remove]
  | cons entry rest ih =>
    have step : idx.remove entityId (entry :: rest) = (idx.remove entityId [entry]).remove entityId rest :=
      rfl
    rw [step, ih, List.map_cons]
    unfold weights
    rw [entries_remove]
    by_cases own : entityId = id
    · subst own
      by_cases later : d ∈ rest.map Prod.fst
      · rw [if_pos ⟨rfl, later⟩, if_pos ⟨rfl, List.mem_cons_of_mem _ later⟩]
      · rw [if_neg fun both => later both.2]
        by_cases here : entry.1 = d
        · rw [if_pos here, if_pos ⟨rfl, here ▸ List.mem_cons_self⟩, List.filter_filter]
          simp
        · rw [if_neg here, if_neg]
          rintro ⟨-, there⟩
          rcases List.mem_cons.mp there with this | later'
          · exact here this.symm
          · exact later later'
    · have others : (fun e : LogicalId × F32 => decide (e.1 = id) && decide (e.1 ≠ entityId)) =
          fun e => decide (e.1 = id) := by
        funext e
        by_cases this : e.1 = id <;> simp [this, Ne.symm own]
      have never {p : Prop} : ¬ (entityId = id ∧ p) := fun both => own both.1
      rw [if_neg never, if_neg never]
      by_cases here : entry.1 = d
      · rw [if_pos here, List.filter_filter, others]
      · rw [if_neg here]

/-! ### Searches -/

/-- The products of the weights of a query with those of a vector. -/
def products (query : List (UInt32 × F32)) (weights : UInt32 → List F32) : List F32 :=
  query.flatMap fun entry => (weights entry.1).map entry.2.mul

/-- Terms added to a score that may not be there yet. -/
def addTerms (score : Option F32) (terms : List F32) : Option F32 :=
  terms.foldl (fun score term => some ((score.getD ⟨0⟩).add term)) score

theorem addTerms_append (score : Option F32) (terms terms' : List F32) :
    addTerms score (terms ++ terms') = addTerms (addTerms score terms) terms' :=
  List.foldl_append

theorem addTerms_none (terms : List F32) :
    addTerms none terms = if terms = [] then none else some (terms.foldl F32.add ⟨0⟩) := by
  have some_ (terms : List F32) (score : F32) :
      addTerms (some score) terms = some (terms.foldl F32.add score) := by
    induction terms generalizing score with
    | nil => rfl
    | cons term rest ih => exact ih (score.add term)
  cases terms with
  | nil => rfl
  | cons term rest =>
    rw [if_neg (List.cons_ne_nil _ _), List.foldl_cons]
    unfold addTerms
    rw [List.foldl_cons]
    exact some_ rest (F32.add ⟨0⟩ term)

def scores (query : List (UInt32 × F32)) : FinMap LogicalId F32 :=
  query.foldl (fun scores entry =>
    match idx.postings[entry.1]? with
    | some postings =>
      postings.foldl (fun scores posting => addScore scores posting.1 (entry.2.mul posting.2)) scores
    | none => scores) ∅

omit idx entityId vector d in
theorem get_addScores (postings : List (LogicalId × F32)) (q : F32) (scores : FinMap LogicalId F32) :
    (postings.foldl (fun scores posting => addScore scores posting.1 (q.mul posting.2)) scores)[id]? =
      addTerms scores[id]?
        (((postings.filter fun posting => posting.1 = id).map Prod.snd).map q.mul) := by
  induction postings generalizing scores with
  | nil => rfl
  | cons posting rest ih =>
    rw [List.foldl_cons, ih, addScore, FinMap.get_insert]
    by_cases own : posting.1 = id
    · subst own
      rw [if_pos rfl, List.filter_cons, if_pos (by simp), List.map_cons, List.map_cons]
      exact (List.foldl_cons ..).symm
    · rw [if_neg own, List.filter_cons, if_neg (by simpa using own)]

/-- The score of an entity is made of the products with its listed weights. -/
theorem get_scores (query : List (UInt32 × F32)) :
    (idx.scores query)[id]? = addTerms none (products query fun d => idx.weights d id) := by
  have all (scores : FinMap LogicalId F32) :
      (query.foldl (fun scores entry =>
        match idx.postings[entry.1]? with
        | some postings =>
          postings.foldl (fun scores posting => addScore scores posting.1 (entry.2.mul posting.2)) scores
        | none => scores) scores)[id]? =
        addTerms scores[id]? (products query fun d => idx.weights d id) := by
    induction query generalizing scores with
    | nil => rfl
    | cons entry rest ih =>
      have terms : products (entry :: rest) (fun d => idx.weights d id) =
          (idx.weights entry.1 id).map entry.2.mul ++ products rest fun d => idx.weights d id :=
        List.flatMap_cons ..
      rw [List.foldl_cons, ih, terms, addTerms_append]
      congr 1
      unfold weights
      cases found : idx.postings[entry.1]? with
      | none => rfl
      | some postings => exact get_addScores id postings entry.2 scores
  exact (all ∅).trans (by rw [Std.ExtTreeMap.getElem?_empty])

end SparseIndex

/-- The entities that share a dimension with the query, each once and with its dot product; the
weights of one dimension may come in any order. -/
structure DotProducts (stored : LogicalId → UInt32 → List F32) (query : List (UInt32 × F32))
    (pool : Hits) : Prop where
  distinct : (pool.map Prod.fst).Nodup
  sharing : ∀ id, id ∈ pool.map Prod.fst ↔ ∃ entry ∈ query, stored id entry.1 ≠ []
  scores : ∀ hit ∈ pool, ∃ weights : UInt32 → List F32, (∀ d, (weights d).Perm (stored hit.1 d)) ∧
    hit.2 = (SparseIndex.products query weights).foldl F32.add ⟨0⟩

/-- Every search returns the first of the dot products in the order of their scores, which are the
best if all scores are numbers. -/
def SparseIndex.Answers (idx : SparseIndex) (stored : LogicalId → UInt32 → List F32) : Prop :=
  ∀ (order : HashOrder (LogicalId × F32)) (query : List (UInt32 × F32)), ∃ pool,
    DotProducts stored query pool ∧ ∀ k, idx.search order query k = (byScore pool).take k ∧
      ((∀ hit ∈ pool, Scored hit) → Best Better k pool (idx.search order query k))

theorem products_eq_nil (query : List (UInt32 × F32)) (weights : UInt32 → List F32) :
    SparseIndex.products query weights = [] ↔ ∀ entry ∈ query, weights entry.1 = [] := by
  simp [SparseIndex.products, List.flatMap_eq_nil_iff]

/-- An index that lists the stored weights answers with their dot products. -/
theorem SparseIndex.answers {idx : SparseIndex} {stored : LogicalId → UInt32 → List F32}
    (lists : ∀ id d, (idx.weights d id).Perm (stored id d)) : idx.Answers stored := by
  intro order query
  have perm := order.perm (idx.scores query).toList
  have score (id : LogicalId) := (idx.get_scores id query).trans (addTerms_none _)
  refine ⟨order.order (idx.scores query).toList, ⟨?_, fun id => ?_, fun hit there => ?_⟩, fun k => ?_⟩
  · exact (perm.map Prod.fst).nodup_iff.mpr (FinMap.nodup_toList _)
  · have same (d : UInt32) : idx.weights d id = [] ↔ stored id d = [] :=
      ⟨fun none_ => (none_ ▸ lists id d).nil_eq.symm, fun none_ => (none_ ▸ lists id d).eq_nil⟩
    have empty := products_eq_nil query fun d => idx.weights d id
    rw [(perm.map Prod.fst).mem_iff, FinMap.mem_keys, Std.ExtTreeMap.contains_eq_isSome_getElem?, score]
    by_cases none_ : SparseIndex.products query (fun d => idx.weights d id) = []
    · rw [if_pos none_]
      refine iff_of_false Bool.false_ne_true ?_
      rintro ⟨entry, asked, some_⟩
      exact some_ ((same entry.1).mp (empty.mp none_ entry asked))
    · rw [if_neg none_]
      refine iff_of_true rfl ?_
      by_contra all
      refine none_ (empty.mpr fun entry asked => (same entry.1).mpr ?_)
      by_contra some_
      exact all ⟨entry, asked, some_⟩
  · have listed := (FinMap.mem_toList _ _ _).mp (perm.mem_iff.mp there)
    rw [score] at listed
    split at listed
    · cases listed
    · exact ⟨fun d => idx.weights d hit.1, lists hit.1, (Option.some.inj listed).symm⟩
  · refine ⟨rfl, fun scored => ?_⟩
    have sorted : (byScore (order.order (idx.scores query).toList)).Perm _ :=
      List.perm_insertionSort _ _
    exact ((byScore_ranking scored).best_take k).perm sorted

end TronDB.Engine
