import TronDB.Engine.Numbering
import TronDB.Engine.Search

/-! Whose location entries keep a hit out of a SEARCH. -/
namespace TronDB.Engine
open TronDB.Core Binary Wal

namespace LocationTable

def dirtied (keys : List ReprKey) : LocationTable :=
  keys.foldl (fun t key => t.register key ⟨.fjall, .localhost, .dirty, 1, .float32, 0⟩) .new

theorem stale_register (t : LocationTable) (key : ReprKey) (d : LocationDescriptor) (k : ReprKey) :
    (t.register key d).stale k =
      if key = k then decide (d.state = .dirty) || decide (d.state = .recomputing) else t.stale k := by
  have found : (t.register key d).get k = if key = k then some d else t.get k :=
    FinMap.get_insert _ _ _ _
  unfold stale
  rw [found]
  by_cases here : key = k
  · rw [if_pos here, if_pos here]
  · rw [if_neg here, if_neg here]

theorem stale_dirtied (keys : List ReprKey) (k : ReprKey) :
    (dirtied keys).stale k = true ↔ k ∈ keys := by
  unfold dirtied
  induction keys using List.reverseRecOn with
  | nil =>
    have absent : LocationTable.new.get k = none := Std.ExtTreeMap.getElem?_empty
    simp [stale, absent]
  | append_singleton rest key ih =>
    rw [List.foldl_append, List.foldl_cons, List.foldl_nil, stale_register, List.mem_append,
      List.mem_singleton]
    by_cases here : key = k
    · simp [here]
    · rw [if_neg here, ih]
      exact ⟨.inl, fun either => either.resolve_right (Ne.symm here)⟩

end LocationTable

/-! ### What is searched, and what is looked at -/

/-- By which number a representation's location entry goes: its place in the entity, as INSERT
registers it, or its place in the schema, as UPDATE marks it. -/
inductive EntryNumber where
  | inserted | declared
  deriving DecidableEq, Repr

def EntryNumber.Of (number : EntryNumber) (s : State) (collection : String) (e : Entity)
    (name : String) (j : Nat) : Prop :=
  match number with
  | .inserted => (heldNames e)[j]? = some name
  | .declared => ∃ schema, s.schemas[collection]? = some schema ∧ (declaredNames schema)[j]? = some name

section Paths
variable (env : SearchEnv) (s : State) (p : SearchPlan)

/-- The representations that are searched along a path. -/
def State.searchedReprs : SearchPath → List String
  | .nowhere => []
  | .subgraph _ => p.usingRepr.toList
  | .indexes _ =>
    match p.strategy with
    | .hnsw => ((s.firstDense env p).map Prod.fst).toList
    | .sparse => ((s.firstSparse env p).map Prod.fst).toList
    | .hybrid => ((s.firstDense env p).map Prod.fst).toList ++
        ((s.firstSparse env p).map Prod.fst).toList
    | .naturalLanguage => (s.textRepr p).toOption.toList

def State.filteredAt : SearchPath → Option Nat
  | .nowhere => none
  | .subgraph _ => p.usingRepr.bind (s.schemaPosition p)
  | .indexes _ => s.searchedReprIdx env p

def State.subgraphMatch (reprName : String) (query : List F32) (id : LogicalId) :
    Option (LogicalId × F32) :=
  (s.cleanRepr p reprName id).bind fun r => (cosine query r.vector).map fun score => (id, score)

/-- What is found along a path before the entries are looked at. -/
def State.matched : SearchPath → Except EngineError Hits
  | .nowhere => .ok []
  | .subgraph candidates => do
    let reprName ← required "WITHIN brute-force requires USING repr_name" p.usingRepr
    let query ← subgraphQuery env p reprName
    if (norm query).isZero then .error (.invalidQuery "zero-norm query vector")
    else
      let ids := env.candidateOrder.order (candidates.toList.map Prod.fst)
      .ok (byScore (ids.filterMap (s.subgraphMatch p reprName query)))
  | .indexes allowed => do
    let hits ← s.strategyHits env p (p.fetchK allowed)
    .ok (onlyAllowed allowed hits)

/-- Without entries to look at, only the first hits are returned; else any of them may be. -/
def returnable (filteredAt : Option Nat) (k : Nat) (hits : Hits) : Hits :=
  if filteredAt.isSome ∧ 0 < k then hits else hits.take k

/-- No row is of an entity whose entry for a searched representation is stale. -/
def FreshRows (number : EntryNumber) : Prop :=
  ∀ path, s.searchPath env p = .ok path → ∀ hits, s.searchAlong env p path = .ok hits →
    ∀ hit ∈ hits, ∀ e, s.store.get p.collection hit.1 = .ok e →
      ∀ name ∈ s.searchedReprs env p path, ∀ j, number.Of s p.collection e name j →
        s.location.stale (hit.1, j) = false

/-- Of every entity that may be returned, the entries looked at are those of each searched
representation. -/
def FiltersSearched (number : EntryNumber) : Prop :=
  ∀ path, s.searchPath env p = .ok path → ∀ matched, s.matched env p path = .ok matched →
    ∀ hit ∈ returnable (s.filteredAt env p path) p.k matched,
      ∀ e, s.store.get p.collection hit.1 = .ok e →
        ∀ name ∈ s.searchedReprs env p path, ∀ j, number.Of s p.collection e name j →
          s.filteredAt env p path = some j

/-! ### What the entries do to the hits -/

/-- Of what is matched, nothing stale where it is looked at, up to the limit. -/
structure Trims (filteredAt : Option Nat) (location : LocationTable) (k : Nat)
    (matched hits : Hits) : Prop where
  found : ∀ hit ∈ hits, hit ∈ matched ∧ ∀ i, filteredAt = some i → location.stale (hit.1, i) = false
  whole : filteredAt = none → hits = matched.take k
  some_ : ∀ i, filteredAt = some i → 0 < k →
    (∃ hit ∈ matched, location.stale (hit.1, i) = false) → hits ≠ []
  none_ : k = 0 → hits = []

theorem mem_byScore (hits : Hits) (hit : LogicalId × F32) : hit ∈ byScore hits ↔ hit ∈ hits :=
  (List.perm_insertionSort _ hits).mem_iff

theorem trims_take {filteredAt : Option Nat} {location : LocationTable} {matched kept : Hits} (k : Nat)
    (mem : ∀ hit, hit ∈ kept ↔
      hit ∈ matched ∧ ∀ i, filteredAt = some i → location.stale (hit.1, i) = false)
    (whole : filteredAt = none → kept = matched) :
    Trims filteredAt location k matched (kept.take k) := by
  refine ⟨fun hit listed => (mem hit).mp (List.mem_of_mem_take listed), fun none_ => ?_,
    fun i at_ positive some_ => ?_, fun zero => ?_⟩
  · rw [whole none_]
  · obtain ⟨hit, listed, clean⟩ := some_
    have here := (mem hit).mpr ⟨listed, fun i' at' => by
      rw [at_] at at'
      cases at'
      exact clean⟩
    intro empty
    rcases List.take_eq_nil_iff.mp empty with zero | nil
    · omega
    · rw [nil] at here
      exact absurd here List.not_mem_nil
  · rw [zero, List.take_zero]

theorem trims_indexes (allowed : Option IdSet) (location : LocationTable) (filteredAt : Option Nat)
    (hits : Hits) : Trims filteredAt location p.k (onlyAllowed allowed hits)
      ((onlyAllowed allowed (State.withoutStale { s with location } filteredAt hits)).take p.k) := by
  apply trims_take
  · intro hit
    unfold onlyAllowed State.withoutStale
    cases allowed <;> cases filteredAt <;> (simp; try tauto)
  · intro none_
    rw [none_]
    rfl

section Subgraph
variable (reprName : String) (query : List F32) (location : LocationTable) (id : LogicalId)

theorem subgraphHit_eq : State.subgraphHit { s with location } p reprName query id =
    if (s.schemaPosition p reprName).any fun i => location.stale (id, i) then none
    else s.subgraphMatch p reprName query id := by
  have repr : State.cleanRepr { s with location } p reprName id = s.cleanRepr p reprName id := rfl
  unfold State.subgraphHit State.subgraphMatch
  rw [repr]
  cases s.cleanRepr p reprName id with
  | none => exact (ite_self _).symm
  | some r => rfl

theorem subgraphMatch_id (hit : LogicalId × F32)
    (found : s.subgraphMatch p reprName query id = some hit) : id = hit.1 := by
  obtain ⟨r, -, scored⟩ := Option.bind_eq_some_iff.mp found
  obtain ⟨score, -, rfl⟩ := Option.map_eq_some_iff.mp scored
  rfl

theorem subgraphHit_iff (hit : LogicalId × F32) :
    State.subgraphHit { s with location } p reprName query id = some hit ↔
      s.subgraphMatch p reprName query id = some hit ∧ id = hit.1 ∧
        ∀ i, s.schemaPosition p reprName = some i → location.stale (hit.1, i) = false := by
  rw [subgraphHit_eq]
  constructor
  · intro found
    split at found
    · cases found
    · rename_i clean
      have own := subgraphMatch_id s p reprName query id hit found
      refine ⟨found, own, fun i at_ => ?_⟩
      rw [at_, Option.any_some, own] at clean
      exact Bool.eq_false_iff.mpr clean
  · rintro ⟨found, own, clean⟩
    rw [if_neg, found]
    cases at_ : s.schemaPosition p reprName with
    | none => simp
    | some i => simp [own, clean i at_]

end Subgraph

/-- A search along a path is refused as what it matches is, or trims that. -/
theorem along_cases (location : LocationTable) (path : SearchPath) :
    (∃ e, s.matched env p path = .error e ∧
      State.searchAlong env { s with location } p path = .error e) ∨
    ∃ matched hits, s.matched env p path = .ok matched ∧
      State.searchAlong env { s with location } p path = .ok hits ∧
      Trims (s.filteredAt env p path) location p.k matched hits := by
  cases path with
  | nowhere =>
    refine .inr ⟨[], [], rfl, rfl, fun _ listed => absurd listed List.not_mem_nil, fun _ => ?_,
      fun _ _ _ some_ => ?_, fun _ => rfl⟩
    · rw [List.take_nil]
    · obtain ⟨hit, listed, -⟩ := some_
      exact absurd listed List.not_mem_nil
  | indexes allowed =>
    have same : State.strategyHits env { s with location } p (p.fetchK allowed) =
        s.strategyHits env p (p.fetchK allowed) := rfl
    unfold State.matched State.searchAlong State.searchIndexes
    dsimp only
    rw [same]
    cases s.strategyHits env p (p.fetchK allowed) with
    | error e => exact .inl ⟨e, rfl, rfl⟩
    | ok hits => exact .inr ⟨_, _, rfl, rfl, trims_indexes s p allowed location _ hits⟩
  | subgraph candidates =>
    unfold State.matched State.searchAlong State.searchSubgraph State.filteredAt
    cases using_ : p.usingRepr with
    | none => exact .inl ⟨_, rfl, rfl⟩
    | some reprName =>
      dsimp only [required, bind, Except.bind]
      cases subgraphQuery env p reprName with
      | error e => exact .inl ⟨e, rfl, rfl⟩
      | ok query =>
        dsimp only
        split
        · exact .inl ⟨_, rfl, rfl⟩
        · refine .inr ⟨_, _, rfl, rfl, ?_⟩
          dsimp only [Option.bind_some]
          generalize env.candidateOrder.order (candidates.toList.map Prod.fst) = ids
          apply trims_take
          · intro hit
            rw [mem_byScore, mem_byScore, List.mem_filterMap, List.mem_filterMap]
            constructor
            · rintro ⟨id, listed, hit_⟩
              obtain ⟨same, rfl, clean⟩ := (subgraphHit_iff s p reprName query location id hit).mp hit_
              exact ⟨⟨_, listed, same⟩, clean⟩
            · rintro ⟨⟨id, listed, hit_⟩, clean⟩
              have own := subgraphMatch_id s p reprName query id hit hit_
              exact ⟨id, listed, (subgraphHit_iff s p reprName query location id hit).mpr
                ⟨hit_, own, clean⟩⟩
          · intro none_
            refine congrArg (fun found => byScore (ids.filterMap found)) (funext fun id => ?_)
            rw [subgraphHit_eq, none_]
            exact if_neg Bool.false_ne_true

/-! ### When every row is fresh -/

theorem fresh_of_filters (number : EntryNumber) (filters : FiltersSearched env s p number)
    (location : LocationTable) : FreshRows env { s with location } p number := by
  intro path chosen hits searched hit listed e stored name among j numbered
  obtain ⟨e, -, refused⟩ | ⟨matched, hits', ok, along, trims⟩ := along_cases env s p location path
  · cases refused.symm.trans searched
  cases along.symm.trans searched
  obtain ⟨there, clean⟩ := trims.found hit listed
  refine clean j (filters path chosen matched ok hit ?_ e stored name among j numbered)
  unfold returnable
  split
  · exact there
  · rename_i not_
    -- nothing is filtered out, or nothing returned
    cases at_ : s.filteredAt env p path with
    | none =>
      rw [← trims.whole at_]
      exact listed
    | some i =>
      rw [at_, Option.isSome_some] at not_
      rw [trims.none_ (Nat.eq_zero_of_not_pos fun positive => not_ ⟨rfl, positive⟩)] at listed
      exact absurd listed List.not_mem_nil

theorem filters_of_fresh (number : EntryNumber)
    (fresh : ∀ location, FreshRows env { s with location } p number) :
    FiltersSearched env s p number := by
  intro path chosen matched ok hit listed e stored name among j numbered
  by_contra elsewhere
  have always (location : LocationTable) : ∃ hits,
      State.searchAlong env { s with location } p path = .ok hits ∧
      Trims (s.filteredAt env p path) location p.k matched hits := by
    obtain ⟨e, refused, -⟩ | ⟨matched', hits, ok', along, trims⟩ := along_cases env s p location path
    · cases refused.symm.trans ok
    · cases ok'.symm.trans ok
      exact ⟨hits, along, trims⟩
  cases at_ : s.filteredAt env p path with
  | none =>
    obtain ⟨hits, along, trims⟩ := always (.dirtied [(hit.1, j)])
    have returned : hit ∈ hits := by
      rw [trims.whole at_]
      rw [at_] at listed
      exact listed
    have clean := fresh (.dirtied [(hit.1, j)]) path chosen hits along hit returned e stored name among j numbered
    rw [(LocationTable.stale_dirtied _ _).mpr List.mem_cons_self] at clean
    cases clean
  | some i =>
    -- every other hit is filtered out
    let others := (matched.filter fun other => other.1 ≠ hit.1).map fun other => (other.1, i)
    obtain ⟨hits, along, trims⟩ := always (.dirtied ((hit.1, j) :: others))
    have apart : i ≠ j := fun same => elsewhere (at_.trans (congrArg some same))
    have own (other : LogicalId × F32) (there : other ∈ matched) :
        (LocationTable.dirtied ((hit.1, j) :: others)).stale (other.1, i) = false ↔
          other.1 = hit.1 := by
      rw [Bool.eq_false_iff, Ne, LocationTable.stale_dirtied, List.mem_cons, not_or]
      constructor
      · intro outside
        by_contra differ
        exact outside.2 (List.mem_map.mpr ⟨other, List.mem_filter.mpr ⟨there, by simpa using differ⟩, rfl⟩)
      · intro same
        refine ⟨fun both => apart (Prod.mk.inj both).2, fun among => ?_⟩
        obtain ⟨other', kept, both⟩ := List.mem_map.mp among
        have differ := (List.mem_filter.mp kept).2
        rw [(Prod.mk.inj both).1, same] at differ
        simp at differ
    unfold returnable at listed
    rw [at_] at listed
    have positive : 0 < p.k := by
      by_contra zero
      rw [if_neg fun both => zero both.2, Nat.eq_zero_of_not_pos zero, List.take_zero] at listed
      exact absurd listed List.not_mem_nil
    rw [if_pos ⟨rfl, positive⟩] at listed
    have some_ := trims.some_ i at_ positive ⟨hit, listed, (own hit listed).mpr rfl⟩
    obtain ⟨first, rest, rfl⟩ := List.exists_cons_of_ne_nil some_
    obtain ⟨there, clean⟩ := trims.found first List.mem_cons_self
    have same : first.1 = hit.1 := (own first there).mp (clean i at_)
    have stale := fresh (.dirtied ((hit.1, j) :: others)) path chosen _ along first List.mem_cons_self e
      (by rw [same]; exact stored) name among j numbered
    rw [same, (LocationTable.stale_dirtied _ _).mpr List.mem_cons_self] at stale
    cases stale

/-- Whatever the location entries are, no row is stale, iff the entries that are looked at are those
of what is searched. -/
theorem search_fresh_iff (number : EntryNumber) :
    (∀ location, FreshRows env { s with location } p number) ↔ FiltersSearched env s p number :=
  ⟨filters_of_fresh env s p number, fresh_of_filters env s p number⟩

/-- The rows are those of the entities behind the hits. -/
theorem rows_searched {result : QueryResult} (done : executeSearch env s p = .ok result) :
    ∃ path hits, s.searchPath env p = .ok path ∧ s.searchAlong env p path = .ok hits ∧
      result.rows = (s.resolve p hits).map fun e => { entityToRow e.1 p.fields with score := some e.2 } := by
  unfold executeSearch at done
  cases chosen : s.searchPath env p with
  | error e =>
    rw [chosen] at done
    cases done
  | ok path =>
    rw [chosen] at done
    cases path with
    | nowhere =>
      cases done
      exact ⟨.nowhere, [], rfl, rfl, rfl⟩
    | subgraph candidates =>
      cases searched : s.searchAlong env p (.subgraph candidates) with
      | error e =>
        dsimp only [bind, Except.bind] at done
        rw [searched] at done
        cases done
      | ok hits =>
        dsimp only [bind, Except.bind] at done
        rw [searched] at done
        cases done
        exact ⟨_, hits, rfl, searched, rfl⟩
    | indexes allowed =>
      cases searched : s.searchAlong env p (.indexes allowed) with
      | error e =>
        dsimp only [bind, Except.bind] at done
        rw [searched] at done
        cases done
      | ok hits =>
        dsimp only [bind, Except.bind] at done
        rw [searched] at done
        cases done
        exact ⟨_, hits, rfl, searched, rfl⟩

end Paths

theorem ok_of_map {ε α β : Type} {x : Except ε α} {f : α → β} {b : β}
    (mapped : x.toOption.map f = some b) : ∃ a, x = .ok a ∧ f a = b := by
  cases x with
  | error e => cases mapped
  | ok a => exact ⟨a, rfl, Option.some.inj mapped⟩

section Examples
attribute [local instance] headerOnly

def oneTerm : Vectoriser where
  modelId := "terms"
  encode _ := .ok (.sparse [(1, .one)])

def withTerms : Env := (RecomputeEnv.idle.with fun _ _ => some oneTerm).toEnv

def texts : CreateCollectionPlan where
  name := "texts"
  representations := [⟨"terms", none, none, .innerProduct, true, ["body"]⟩]
  fields := [⟨"body", .text⟩]
  indexes := []
  vectoriserConfig := none

def rewritten : State :=
  ([.createCollection texts,
    .insert ⟨"texts", ["id", "body"], [.string "d", .string "a"], [], none, none⟩,
    .updateEntity ⟨"d", "texts", [("body", .string "b")]⟩].map fun w => (withTerms, w)).foldl
      State.step (.init default)

def inTerms : SearchEnv where
  env := withTerms
  read := ⟨id, fun _ _ _ => 0, .insertionOrder _⟩
  encodeQuery _ _ _ := .ok (.sparse [(1, .one)])
  display _ := ""
  sparseOrder := .insertionOrder _
  scoreOrder := .insertionOrder _
  candidateOrder := .insertionOrder _

def nearA : SearchPlan where
  collection := "texts"
  fields := .all
  denseVector := none
  sparseVector := none
  preFilter := none
  k := 1
  confidenceThreshold := .zero
  strategy := .naturalLanguage
  queryText := some "a"
  usingRepr := some "terms"
  twoPass := none
  within := none

/-- The sparse index is searched, and no entry is looked at for want of a dense one. -/
theorem rewritten_text_found :
    ¬ FreshRows inTerms rewritten nearA .inserted ∧ ¬ FreshRows inTerms rewritten nearA .declared := by
  have present : rewritten.store.hasCollection nearA.collection = true := by decide
  have path : rewritten.searchPath inTerms nearA = .ok (.indexes none) := by
    unfold State.searchPath
    rw [if_pos present]
    rfl
  have searched : ((rewritten.searchAlong inTerms nearA (.indexes none)).toOption.map fun hits =>
      hits.map Prod.fst) = some ["d"] := by decide
  obtain ⟨hits, along, ids⟩ := ok_of_map searched
  obtain ⟨hit, listed, id⟩ : ∃ hit ∈ hits, hit.1 = "d" := by
    refine List.mem_map.mp ?_
    rw [ids]
    exact List.mem_cons_self
  have stored : ((rewritten.store.get "texts" "d").toOption.map heldNames) = some ["terms"] := by
    decide
  obtain ⟨e, held, names⟩ := ok_of_map stored
  have held : rewritten.store.get "texts" hit.1 = .ok e := by
    rw [id]
    exact held
  have among : "terms" ∈ rewritten.searchedReprs inTerms nearA (.indexes none) := by decide
  have stale : rewritten.location.stale ("d", 0) = true := by decide
  have declared : (rewritten.schemas["texts"]?.map declaredNames) = some ["terms"] := by decide
  constructor
  · intro fresh
    have clean := fresh _ path hits along hit listed e held "terms" among 0
      (by unfold EntryNumber.Of; rw [names]; rfl)
    rw [id, stale] at clean
    cases clean
  · intro fresh
    obtain ⟨schema, known, names⟩ := Option.map_eq_some_iff.mp declared
    have clean := fresh _ path hits along hit listed e held "terms" among 0
      ⟨schema, known, by rw [names]; rfl⟩
    rw [id, stale] at clean
    cases clean

end Examples
end TronDB.Engine
