import Mathlib.Data.List.Induction
import TronDB.Core.IndexedFetch
import TronDB.Engine.Effects
import TronDB.Engine.Partitions
import TronDB.Engine.Replayed

/-! What a FETCH shows of an INSERT. -/
namespace TronDB.Engine
open TronDB.Core Binary Wal

def fetchById (collection : String) (id : LogicalId) : FetchStatement :=
  ⟨collection, .all, some (.eq "id" (.string id)), none, [], none, []⟩

/-- The row has the value listed for every listed field, and no value is listed for none. -/
def Lists (p : InsertPlan) (row : Row) : Prop :=
  p.fields.length = p.values.length ∧
    ∀ fv ∈ p.fields.zip p.values, row.values[fv.1]? = some (literalToValue fv.2)

/-- FETCH by the id returns one row, with what the INSERT lists. -/
def ReadsBack (s : State) (size : Nat) (p : InsertPlan) (id : LogicalId) : Prop :=
  ∃ result row, executeFetch s.store s.fieldIndexes size
      (planFetch s.schemas (fetchById p.collection id)) = .ok result ∧
    result.rows = [row] ∧ Lists p row

def engineColumn (p : InsertPlan) (id : LogicalId) (txTime : Nat) (column : String) : Option Value :=
  let time (at_ : Option String) : Option Value :=
    match parseOptional at_ with
    | .ok millis => millis.map .int
    | .error _ => none
  if column = "tx_time" ∧ 0 < txTime then some (.int (Int64.ofNat txTime))
  else if column = "valid_to" then time p.validTo
  else if column = "valid_from" then time p.validFrom
  else if column = "id" then some (.string id)
  else none

/-- Each field has a value and each value a field, a field that is listed twice has the same value
twice, and a column of the engine's is listed with the engine's value. -/
structure KeepsListed (p : InsertPlan) (id : LogicalId) (txTime : Nat) : Prop where
  arity : p.fields.length = p.values.length
  once : ∀ fv ∈ p.fields.zip p.values, ∀ fw ∈ p.fields.zip p.values, fv.1 = fw.1 → fv.2 = fw.2
  engine : ∀ fv ∈ p.fields.zip p.values, ∀ v, engineColumn p id txTime fv.1 = some v →
    literalToValue fv.2 = v

/-- An index behind the INSERT: the entry of the entity that is replaced is taken out, and the new one
has its own. -/
def State.reindexed (s : State) (p : InsertPlan) (id : LogicalId) (index : String)
    (types : List (String × FieldType)) : FieldIndex :=
  let replaced := s.store.entities[(p.collection, id)]?
  let made := { Entity.new id with metadata := insertMetadata p.fields p.values }
  ⟨SecondaryIndex.put (SecondaryIndex.take (s.store.indexPartition p.collection index)
    (replaced.bind (entryKey types))) id (entryKey types made), types⟩

/-- Under the id the index lists one entity there is: the new one, which has to keep what is listed,
or one that is stored already and shows it. -/
def IndexShows (s : State) (p : InsertPlan) (id : LogicalId) (index : String) : Prop :=
  ∃ types ids found, s.fieldIndexes[(p.collection, index)]? = some types ∧
    (s.reindexed p id index types).lookupEq [.string id] = .ok ids ∧
    ids.filter (fun i => i = id || s.store.entities.contains (p.collection, i)) = [found] ∧
    if found = id then KeepsListed p id s.wal.nextTx
    else ∀ e ∈ s.store.entities[(p.collection, found)]?, Lists p (entityToRow e .all)

/-! ### Rows -/

theorem literalToValue_injective {a b : Literal} (same : literalToValue a = literalToValue b) :
    a = b := by
  cases a <;> cases b <;> simp_all [literalToValue]

theorem get_insertMetadata_fold (pairs : List (String × Literal)) (m : FinMap String Value)
    (f : String) : (pairs.foldl (fun metadata fv =>
      if fv.1 = "id" then metadata else metadata.insert fv.1 (literalToValue fv.2)) m)[f]? =
        if f = "id" then m[f]?
        else ((pairs.reverse.find? fun fv => fv.1 = f).map fun fv => literalToValue fv.2).or m[f]? := by
  induction pairs using List.reverseRecOn with
  | nil => simp
  | append_singleton rest fv ih =>
    rw [List.foldl_append, List.foldl_cons, List.foldl_nil, List.reverse_append]
    by_cases own : fv.1 = "id"
    · rw [if_pos own, ih]
      split
      · rfl
      · rename_i other
        have differ : ¬ fv.1 = f := fun same => other (same.symm.trans own)
        simp [differ]
    · rw [if_neg own, FinMap.get_insert, ih]
      by_cases here : fv.1 = f
      · subst here
        simp [own]
      · rw [if_neg here]
        simp [here]

def InsertPlan.listed (p : InsertPlan) (f : String) : Option Literal :=
  ((p.fields.zip p.values).reverse.find? fun fv => fv.1 = f).map Prod.snd

theorem mem_of_listed {p : InsertPlan} {f : String} {v : Literal} (last : p.listed f = some v) :
    (f, v) ∈ p.fields.zip p.values := by
  obtain ⟨⟨f', v'⟩, found, rfl⟩ := Option.map_eq_some_iff.mp last
  have own : f' = f := by simpa using List.find?_some found
  rw [← own]
  exact List.mem_reverse.mp (List.mem_of_find?_eq_some found)

theorem listed_isSome {p : InsertPlan} {fv : String × Literal} (among : fv ∈ p.fields.zip p.values) :
    ∃ v, p.listed fv.1 = some v := by
  unfold InsertPlan.listed
  cases found : (p.fields.zip p.values).reverse.find? fun fw => fw.1 = fv.1 with
  | none => exact absurd (List.find?_eq_none.mp found fv (List.mem_reverse.mpr among)) (by simp)
  | some fw => exact ⟨fw.2, rfl⟩

theorem get_built {env : Env} {schema : CollectionSchema} {p : InsertPlan} {id : LogicalId}
    {e : Entity} (built : buildEntity env schema p id = .ok e) (txTime : Nat) (f : String) :
    (entityToRow { e with txTime } .all).values[f]? =
      (engineColumn p id txTime f).or ((p.listed f).map literalToValue) := by
  unfold buildEntity at built
  dsimp only at built
  split at built
  · cases built
  · split at built
    · cases built
    · rename_i validFrom from_
      split at built
      · cases built
      · rename_i validTo to_
        cases built
        rw [get_entityToRow]
        unfold engineColumn Entity.stamped
        dsimp only [Entity.new]
        rw [from_, to_]
        unfold insertMetadata
        rw [get_insertMetadata_fold]
        have empty : (∅ : FinMap String Value)[f]? = none := Std.ExtTreeMap.getElem?_empty
        have last : ((p.fields.zip p.values).reverse.find? fun fv => fv.1 = f).map
            (fun fv => literalToValue fv.2) = (p.listed f).map literalToValue := by
          rw [InsertPlan.listed, Option.map_map]
          rfl
        rw [empty, last, Option.or_none]
        by_cases tx : f = "tx_time" ∧ 0 < txTime
        · rw [if_pos tx, if_pos tx]
          rfl
        · rw [if_neg tx, if_neg tx]
          by_cases stop : f = "valid_to"
          · subst stop
            cases validTo <;> simp
          · by_cases start : f = "valid_from"
            · subst start
              cases validFrom <;> simp
            · by_cases own : f = "id"
              · simp [own]
              · simp [stop, start, own]

/-- The row of an INSERT shows what is listed iff that agrees with itself and the engine. -/
theorem lists_iff {env : Env} {schema : CollectionSchema} {p : InsertPlan} {id : LogicalId}
    {e : Entity} (built : buildEntity env schema p id = .ok e) (txTime : Nat) :
    Lists p (entityToRow { e with txTime } .all) ↔ KeepsListed p id txTime := by
  have shown := get_built built txTime
  constructor
  · rintro ⟨arity, each⟩
    refine ⟨arity, fun fv among fw among' same => ?_, fun fv among v column => ?_⟩
    · have first := each fv among
      have second := each fw among'
      rw [same, second] at first
      exact (literalToValue_injective (Option.some.inj first)).symm
    · have row := each fv among
      rw [shown, column] at row
      exact (Option.some.inj row).symm
  · intro keeps
    refine ⟨keeps.arity, fun fv among => ?_⟩
    rw [shown]
    cases column : engineColumn p id txTime fv.1 with
    | some v => exact congrArg some (keeps.engine fv among v column).symm
    | none =>
      obtain ⟨v, last⟩ := listed_isSome among
      have same : v = fv.2 := keeps.once (fv.1, v) (mem_of_listed last) fv among rfl
      rw [last, same]
      rfl

/-! ### The FETCH -/

theorem partition_by_id (store : Store) {collection : String} {id : LogicalId} {e : Entity}
    (stored : store.entities[(collection, id)]? = some e) :
    (store.partition collection).filter (fun e => e.id = id) = [e] := by
  refine List.perm_singleton.mp ((List.perm_ext_iff_of_nodup ?_ (List.nodup_singleton e)).mpr fun e' => ?_)
  · exact (List.Nodup.of_map _ (store.nodup_partition collection)).filter _
  · rw [List.mem_filter, Store.mem_partition, List.mem_singleton]
    constructor
    · rintro ⟨there, own⟩
      rw [of_decide_eq_true own, stored] at there
      exact (Option.some.inj there).symm
    · rintro rfl
      have own := store.keyed _ _ _ stored
      exact ⟨by rw [own]; exact stored, decide_eq_true own⟩

section Reads
variable [WalPayload Payload]

/-- How FETCH looks an id up decides whether an INSERT that is accepted is read back. -/
def Readable (env : Env) (s : State) (p : InsertPlan) : Prop :=
  match selectFetchStrategy (some (.eq "id" (.string (p.target env)))) s.schemas[p.collection]? with
  | .fullScan => KeepsListed p (p.target env) s.wal.nextTx
  | .fieldIndexLookup index => IndexShows s p (p.target env) index
  | .fieldIndexRange _ => False

section ById
omit [WalPayload Payload]

theorem not_range (f : String) (lit : Literal) (schema : Option CollectionSchema) (index : String) :
    selectFetchStrategy (some (.eq f lit)) schema ≠ .fieldIndexRange index := by
  unfold selectFetchStrategy
  cases schema with
  | none => nofun
  | some schema =>
    dsimp only
    split <;> nofun

theorem execute_scan (s : State) (size : Nat) (collection : String) (id : LogicalId)
    (chosen : selectFetchStrategy (some (.eq "id" (.string id))) s.schemas[collection]? = .fullScan) :
    executeFetch s.store s.fieldIndexes size (planFetch s.schemas (fetchById collection id)) =
      (planFetch s.schemas (fetchById collection id)).scan s.store := by
  have planned : (planFetch s.schemas (fetchById collection id)).strategy = .fullScan := by
    rw [← chosen]
    rfl
  unfold executeFetch checkAcuBudget
  rw [planned]
  rfl

theorem execute_lookup (s : State) (size : Nat) (collection : String) (id : LogicalId) (index : String)
    (chosen : selectFetchStrategy (some (.eq "id" (.string id))) s.schemas[collection]? =
      .fieldIndexLookup index) :
    executeFetch s.store s.fieldIndexes size (planFetch s.schemas (fetchById collection id)) =
      match s.fieldIndexes[(collection, index)]? with
      | none => .error (.invalidQuery s!"field index '{index}' not found")
      | some types => (planFetch s.schemas (fetchById collection id)).lookup s.store
          ⟨s.store.indexPartition collection index, types⟩ := by
  have planned : (planFetch s.schemas (fetchById collection id)).strategy = .fieldIndexLookup index := by
    rw [← chosen]
    rfl
  have named : (planFetch s.schemas (fetchById collection id)).collection = collection := rfl
  unfold executeFetch checkAcuBudget FieldIndexes.find
  rw [planned]
  dsimp only
  rw [named]
  cases s.fieldIndexes[(collection, index)]? <;> rfl

theorem matches_byId (e : Entity) (id : LogicalId) :
    entityMatches e (.eq "id" (.string id)) = decide (e.id = id) := by
  unfold entityMatches
  rw [if_pos rfl]
  rfl

theorem scan_byId (s : State) {collection : String} {id : LogicalId} {e : Entity}
    (present : s.store.hasCollection collection = true)
    (stored : s.store.entities[(collection, id)]? = some e) :
    ∃ result, (planFetch s.schemas (fetchById collection id)).scan s.store = .ok result ∧
      result.rows = [entityToRow e .all] := by
  refine ⟨_, scan_ok s.store _ present rfl, ?_⟩
  have found : ((s.store.partition collection).filter fun e =>
      (planFetch s.schemas (fetchById collection id)).matches e &&
        e.visible (planFetch s.schemas (fetchById collection id)).temporal) = [e] := by
    refine (List.filter_congr fun e _ => ?_).trans (partition_by_id s.store stored)
    have matches_ : (planFetch s.schemas (fetchById collection id)).matches e = decide (e.id = id) :=
      matches_byId e id
    have visible : e.visible (planFetch s.schemas (fetchById collection id)).temporal = true := rfl
    rw [matches_, visible, Bool.and_true]
  dsimp only [planFetch, fetchById] at found ⊢
  rw [found]
  rfl

theorem lookup_byId (s : State) (collection : String) (id : LogicalId) (idx : FieldIndex)
    {ids : List LogicalId} (found : idx.lookupEq [.string id] = .ok ids) :
    ∃ result, (planFetch s.schemas (fetchById collection id)).lookup s.store idx = .ok result ∧
      result.rows = (readIds s.store collection ids).map fun e => entityToRow e .all := by
  unfold FetchPlan.lookup
  dsimp only [planFetch, fetchById, literalToValue]
  rw [found]
  refine ⟨_, rfl, ?_⟩
  have all : (readIds s.store collection ids).filter (fun e => e.visible none) =
      readIds s.store collection ids := List.filter_eq_self.mpr fun _ _ => rfl
  rw [all]
  rfl

theorem entries_of_applied {env : Env} {s s' : State} {collection : String} {e : Entity}
    {r : QueryResult} (present : s.store.hasCollection collection = true)
    (applied : s.applyInsert env collection e = (.ok r, s')) :
    (insertFieldEntries (s.store.putEntity collection e) collection e
      (s.fieldIndexesOf env collection)).1 = .ok () := by
  unfold State.applyInsert Store.insert at applied
  rw [if_pos present] at applied
  dsimp only at applied
  generalize insertFieldEntries _ _ _ _ = out at applied ⊢
  obtain ⟨indexed, store⟩ := out
  cases indexed with
  | error err => cases applied
  | ok u => rfl

end ById

theorem partition_inserted {env : Env} {s s' : State} {p : InsertPlan} {r : QueryResult}
    (accepted : insert env s p = (.ok r, s')) {schema : CollectionSchema} {e : Entity}
    (known : s.schemas[p.collection]? = some schema)
    (checked : checkVectors schema p.collection p.vectors = .ok ())
    (built : buildEntity env schema p (p.target env) = .ok e)
    (present : s.store.hasCollection p.collection = true)
    (left : Inserted env (s.removeOldEntries env p.collection (p.target env)) p.collection
      { e with txTime := s.wal.nextTx } s')
    {index : String} {types : List (String × FieldType)}
    (opened : s.fieldIndexes[(p.collection, index)]? = some types) :
    s'.store.indexPartition p.collection index =
      (s.reindexed p (p.target env) index types).partition := by
  have own : e.id = p.target env := id_of_built built
  have same : (s.removeOldEntries env p.collection (p.target env)).fieldIndexesOf env p.collection =
      s.fieldIndexesOf env p.collection := by
    unfold State.fieldIndexesOf
    rw [removeOldEntries_fieldIndexes]
  have listed := (mem_fieldIndexesOf s env p.collection (index, types)).mpr opened
  have all : behindFailure (entryFails { e with txTime := s.wal.nextTx })
      (s.fieldIndexesOf env p.collection) = [] := by
    unfold insert at accepted
    rw [known] at accepted
    dsimp only at accepted
    rw [checked] at accepted
    dsimp only at accepted
    rw [show (findIdInFields p.fields p.values).getD (env.freshId 0) = p.target env from rfl, built]
      at accepted
    have kept : (s.removeOldEntries env p.collection (p.target env)).store.hasCollection
        p.collection = true := by
      unfold Store.hasCollection
      rw [show (s.removeOldEntries env p.collection (p.target env)).store.collections = _ from
        congrArg Data.collections (removeOldEntries_data env s p.collection (p.target env))]
      exact present
    rw [← same]
    dsimp only at accepted
    have entries := entries_of_applied (by exact kept) accepted
    refine Eq.trans (behindFailure_congr ?_) (behindFailure_of_ok entries)
    exact fun _ _ => rfl
  obtain ⟨put, -⟩ := partition_insertFieldEntries p.collection { e with txTime := s.wal.nextTx }
    (s.fieldIndexesOf env p.collection) (distinct_fieldIndexesOf s env p.collection)
    ((s.removeOldEntries env p.collection (p.target env)).store.putEntity p.collection
      { e with txTime := s.wal.nextTx })
  have written := put (index, types) listed
  rw [all, if_neg List.not_mem_nil] at written
  have store := left.store
  rw [same] at store
  have removed : (s.removeOldEntries env p.collection (p.target env)).store.indexPartition p.collection
      index = SecondaryIndex.take (s.store.indexPartition p.collection index)
        (s.store.entities[(p.collection, p.target env)]?.bind (entryKey types)) := by
    unfold State.removeOldEntries Store.get
    rw [if_pos present]
    cases s.store.entities[(p.collection, p.target env)]? with
    | none => rfl
    | some old =>
      exact (partition_removeFieldEntries p.collection old (s.fieldIndexesOf env p.collection)
        (distinct_fieldIndexesOf s env p.collection) s.store).1 (index, types) listed
  have key : entryKey types { e with txTime := s.wal.nextTx } = entryKey types
      { Entity.new (p.target env) with metadata := insertMetadata p.fields p.values } := by
    unfold entryKey indexedValues
    dsimp only
    rw [own, (of_built built).2]
    rfl
  rw [store, written, key]
  unfold State.reindexed
  dsimp only
  rw [← removed, own]
  rfl

omit [WalPayload Payload] in
theorem filterMap_singleton {α β : Type} {f : α → Option β} {as : List α} {b : β} :
    as.filterMap f = [b] ↔ ∃ a, as.filter (fun a => (f a).isSome) = [a] ∧ f a = some b := by
  induction as with
  | nil => simp
  | cons a rest ih =>
    rw [List.filterMap_cons, List.filter_cons]
    cases found : f a with
    | none => exact ih
    | some c =>
      have others : rest.filterMap f = [] ↔ rest.filter (fun a => (f a).isSome) = [] := by
        rw [List.filterMap_eq_nil_iff, List.filter_eq_nil_iff]
        exact forall₂_congr fun a _ => by simp
      rw [Option.isSome_some, if_pos rfl]
      constructor
      · intro one
        obtain ⟨rfl, none_⟩ := List.cons.inj one
        exact ⟨a, by rw [others.mp none_], found⟩
      · rintro ⟨a', one, there⟩
        obtain ⟨rfl, none_⟩ := List.cons.inj one
        rw [found] at there
        rw [Option.some.inj there, others.mpr none_]

omit [WalPayload Payload] in
/-- What is read of the ids of an index when the entity has been put. -/
theorem reads_inserted_iff {s s' : State} {p : InsertPlan} {id : LogicalId} {new : Entity}
    (collections : s'.store.hasCollection p.collection = true)
    (entities : s'.store.entities = s.store.entities.insert (p.collection, id) new)
    (shows_ : Lists p (entityToRow new .all) ↔ KeepsListed p id s.wal.nextTx) (ids : List LogicalId) :
    (∃ e, readIds s'.store p.collection ids = [e] ∧ Lists p (entityToRow e .all)) ↔
      ∃ found, ids.filter (fun i => i = id || s.store.entities.contains (p.collection, i)) = [found] ∧
        if found = id then KeepsListed p id s.wal.nextTx
        else ∀ e ∈ s.store.entities[(p.collection, found)]?, Lists p (entityToRow e .all) := by
  have got (i : LogicalId) : (s'.store.get p.collection i).toOption =
      if i = id then some new
      else s.store.entities[(p.collection, i)]? := by
    unfold Store.get
    rw [if_pos collections, entities, FinMap.get_insert]
    by_cases mine : i = id
    · rw [mine, if_pos rfl, if_pos rfl]
      rfl
    · rw [if_neg mine, if_neg fun same => mine (Prod.mk.inj same).2.symm]
      cases s.store.entities[(p.collection, i)]? <;> rfl
  have there : (fun i => (s'.store.get p.collection i).toOption.isSome) = fun i =>
      i = id || s.store.entities.contains (p.collection, i) := by
    funext i
    rw [got, Std.ExtTreeMap.contains_eq_isSome_getElem?]
    by_cases mine : i = id <;> simp [mine]
  constructor
  · rintro ⟨e', read, lists⟩
    obtain ⟨i, only, here⟩ := filterMap_singleton.mp read
    rw [there] at only
    rw [got] at here
    refine ⟨i, only, ?_⟩
    split at here
    · rename_i mine
      cases here
      rw [if_pos mine]
      exact shows_.mp lists
    · rename_i other
      rw [if_neg other]
      intro e'' stored
      cases here.symm.trans stored
      exact lists
  · rintro ⟨i, only, kept⟩
    have present_ : i ∈ ids.filter (fun i => i = id ||
        s.store.entities.contains (p.collection, i)) := only ▸ List.mem_singleton_self i
    rw [← there] at only present_
    obtain ⟨e', here⟩ := Option.isSome_iff_exists.mp (List.mem_filter.mp present_).2
    refine ⟨e', filterMap_singleton.mpr ⟨i, only, here⟩, ?_⟩
    rw [got] at here
    split at here
    · rename_i mine
      cases here
      rw [if_pos mine] at kept
      exact shows_.mpr kept
    · rename_i other
      rw [if_neg other] at kept
      exact kept e' here

theorem reads_back_iff (env : Env) (size : Nat) {s s' : State} {p : InsertPlan} {r : QueryResult}
    (accepted : insert env s p = (.ok r, s')) :
    ReadsBack s' size p (p.target env) ↔ Readable env s p := by
  have ends := insert_ends env s p
  rw [accepted] at ends
  cases ends with
  | refused error rejected result => cases result
  | unbuilt schema error known checked built result => cases result
  | unstored schema e known checked built absent result =>
    obtain ⟨error, entries, result⟩ := result
    cases result
  | stored schema e known checked built present log left =>
    have schemas : s'.schemas = s.schemas := left.schemas.trans (removeOldEntries_schemas env s _ _)
    have own : e.id = p.target env := id_of_built built
    have there : s'.store.entities[(p.collection, p.target env)]? =
        some { e with txTime := s.wal.nextTx } := by
      rw [← own, left.entities, FinMap.get_insert, if_pos rfl]
    have collections : s'.store.hasCollection p.collection = true := by
      have same : s'.store.collections = s.store.collections :=
        (congrArg Data.collections left.data).trans
          (congrArg Data.collections (removeOldEntries_data env s p.collection (p.target env)))
      unfold Store.hasCollection
      rw [same]
      exact present
    have entities : s'.store.entities = s.store.entities.insert (p.collection, p.target env)
        { e with txTime := s.wal.nextTx } := by
      rw [left.entities, removeOldEntries_entities, ← own]
    have shown := reads_inserted_iff collections entities (lists_iff built s.wal.nextTx)
    have fieldIndexes : s'.fieldIndexes = s.fieldIndexes :=
      left.fieldIndexes.trans (removeOldEntries_fieldIndexes env s _ _)
    unfold ReadsBack Readable
    rw [← schemas]
    cases chosen : selectFetchStrategy (some (.eq "id" (.string (p.target env))))
      s'.schemas[p.collection]? with
    | fullScan =>
      rw [execute_scan s' size _ _ chosen]
      obtain ⟨result, scanned, rows⟩ := scan_byId s' collections there
      dsimp only
      rw [scanned, ← lists_iff built]
      constructor
      · rintro ⟨_, row, same, one, lists⟩
        cases same
        rw [rows] at one
        cases one
        exact lists
      · exact fun lists => ⟨result, _, rfl, rows, lists⟩
    | fieldIndexLookup index =>
      rw [execute_lookup s' size _ _ index chosen, fieldIndexes]
      dsimp only
      have partition {types : List (String × FieldType)}
          (opened : s.fieldIndexes[(p.collection, index)]? = some types) :
          (⟨s'.store.indexPartition p.collection index, types⟩ : FieldIndex) =
            s.reindexed p (p.target env) index types := by
        rw [partition_inserted accepted known checked built present left opened]
        rfl
      constructor
      · rintro ⟨result, row, fetched, one, lists⟩
        split at fetched
        · cases fetched
        · rename_i types opened
          rw [partition opened] at fetched
          cases found : (s.reindexed p (p.target env) index types).lookupEq [.string (p.target env)] with
          | error e =>
            unfold FetchPlan.lookup at fetched
            dsimp only [planFetch, fetchById, literalToValue] at fetched
            rw [found] at fetched
            cases fetched
          | ok ids =>
            obtain ⟨result', looked, rows⟩ := lookup_byId s' p.collection (p.target env) _ found
            cases looked.symm.trans fetched
            rw [rows, List.map_eq_singleton_iff] at one
            obtain ⟨e', read, rfl⟩ := one
            obtain ⟨i, only, shows_⟩ := (shown ids).mp ⟨e', read, lists⟩
            exact ⟨types, ids, i, opened, found, only, shows_⟩
      · rintro ⟨types, ids, i, opened, found, only, shows_⟩
        obtain ⟨result, looked, rows⟩ := lookup_byId s' p.collection (p.target env) _ found
        obtain ⟨e', read, lists⟩ := (shown ids).mpr ⟨i, only, shows_⟩
        refine ⟨result, entityToRow e' .all, ?_, ?_, lists⟩
        · rw [opened]
          dsimp only
          rw [partition opened]
          exact looked
        · rw [rows, read]
          rfl
    | fieldIndexRange index => exact absurd chosen (not_range _ _ _ _)

end Reads

section Examples
attribute [local instance] headerOnly

def notes : CreateCollectionPlan where
  name := "notes"
  representations := []
  fields := [⟨"body", .text⟩]
  indexes := []
  vectoriserConfig := none

def noted : State := (createCollection .idle (.init default) notes).2

/-- INSERT INTO notes (id, body) VALUES ('n', 'a') -/
def oneNote : InsertPlan := ⟨"notes", ["id", "body"], [.string "n", .string "a"], [], none, none⟩

theorem oneNote_accepted :
    insert .idle noted oneNote = (.ok (reply "result" "Inserted entity 'n'" 0), (insert .idle noted oneNote).2) :=
  Prod.ext (by decide) rfl

theorem oneNote_reads_back_iff :
    ReadsBack (insert .idle noted oneNote).2 1 oneNote (oneNote.target .idle) ↔
      Readable .idle noted oneNote :=
  reads_back_iff .idle 1 oneNote_accepted

/-- INSERT INTO notes (id, body) VALUES ('n', 'a', 'b') -/
def thirdValue : InsertPlan :=
  ⟨"notes", ["id", "body"], [.string "n", .string "a", .string "b"], [], none, none⟩

/-- The INSERT returns OK, and its third value is nowhere. -/
theorem third_value_dropped :
    (insert .idle noted thirdValue).1 = .ok (reply "result" "Inserted entity 'n'" 0) ∧
      ¬ ReadsBack (insert .idle noted thirdValue).2 1 thirdValue (thirdValue.target .idle) := by
  refine ⟨by decide, ?_⟩
  rintro ⟨result, row, -, -, arity, -⟩
  revert arity
  decide

end Examples
end TronDB.Engine
