import TronDB.Engine.Session
import TronDB.Engine.VectorIndex
import TronDB.Lib.Run

/-! What the dense indexes hold when an engine has opened. -/
namespace TronDB.Engine
open TronDB.Core Binary Wal

/-! ### Opening the indexes of a schema -/

/-- The dimensions an index of the representation is opened with. -/
def denseOf (repr : StoredRepresentation) : Option Nat :=
  if repr.sparse then none else repr.dimensions

/-- The first dense representation of a name decides. -/
def denseDimensions (reprs : List StoredRepresentation) (reprName : String) : Option Nat :=
  reprs.findSome? fun repr => if repr.name = reprName then denseOf repr else none

/-- The snapshot under the base name of an index, if it has the dimensions. -/
def findSnapshot (snapshots : HnswSnapshots) (key : String × String) (dims : Nat) :
    Option HnswSnapshot :=
  snapshots[snapshotBasename key.1 key.2]?.filter fun snapshot => snapshot.index.dimensions = dims

/-- What an index is opened with, and the LSN it is from. -/
def openedWith (dims : Nat) : Option HnswSnapshot → HnswIndex × Option Nat
  | some snapshot => (snapshot.index.fromSnapshot, some snapshot.lsn)
  | none => (.new dims, none)

theorem loadSnapshot_find (snapshots : HnswSnapshots) (key : String × String) (dims : Nat) :
    (loadSnapshot snapshots key.1 key.2 dims).toOption.join =
      (findSnapshot snapshots key dims).map fun snapshot =>
        (snapshot.index.fromSnapshot, snapshot.lsn) := by
  unfold loadSnapshot findSnapshot
  cases snapshots[snapshotBasename key.1 key.2]? with
  | none => rfl
  | some snapshot =>
    by_cases fits : snapshot.index.dimensions = dims
    · simp [fits, Except.toOption]
    · simp [fits, Except.toOption]

theorem openDenseIndex_opened (snapshots : HnswSnapshots) (collection : String) (l : Loaded)
    (repr : StoredRepresentation) {dims : Nat} (dense : denseOf repr = some dims)
    (closed : l.indexes[(collection, repr.name)]? = none) :
    openDenseIndex snapshots collection l repr =
      { indexes := l.indexes.insert (collection, repr.name)
          (openedWith dims (findSnapshot snapshots (collection, repr.name) dims)).1
        snapshotLsns := match (findSnapshot snapshots (collection, repr.name) dims) with
          | some snapshot => l.snapshotLsns.insert (collection, repr.name) snapshot.lsn
          | none => l.snapshotLsns } := by
  have loaded := loadSnapshot_find snapshots (collection, repr.name) dims
  have missing : ¬ l.indexes.contains (collection, repr.name) = true := by
    rw [Std.ExtTreeMap.contains_eq_isSome_getElem?, closed]
    simp
  unfold denseOf at dense
  split at dense
  · cases dense
  · rename_i notSparse
    unfold openDenseIndex
    simp only [Bool.eq_false_iff.mpr notSparse, dense, if_neg missing]
    cases found : findSnapshot snapshots (collection, repr.name) dims with
    | none =>
      rw [found] at loaded
      split
      · rename_i result
        simp [result, Except.toOption] at loaded
      · rfl
      · rfl
    | some snapshot =>
      rw [found] at loaded
      split
      · rename_i result
        simp only [result, Except.toOption, Option.join_some, Option.map_some, Option.some.injEq,
          Prod.mk.injEq] at loaded
        rw [loaded.1, loaded.2]
        rfl
      · rename_i result
        simp [result, Except.toOption] at loaded
      · rename_i result
        simp [result, Except.toOption] at loaded

theorem openDenseIndex_same (snapshots : HnswSnapshots) (collection : String) (l : Loaded)
    (repr : StoredRepresentation)
    (same : denseOf repr = none ∨ l.indexes[(collection, repr.name)]? ≠ none) :
    openDenseIndex snapshots collection l repr = l := by
  unfold openDenseIndex
  split
  · rename_i dims notSparse dimensions
    rcases same with none_ | there
    · simp [denseOf, notSparse, dimensions] at none_
    · rw [if_pos]
      rw [Std.ExtTreeMap.contains_eq_isSome_getElem?]
      exact Option.isSome_iff_ne_none.mpr there
  · rfl

namespace Loaded

def entry (l : Loaded) (key : String × String) : Option HnswIndex × Option Nat :=
  (l.indexes[key]?, l.snapshotLsns[key]?)

/-- The entry of a key that is not open yet, once its representation has been opened. -/
def opened (snapshots : HnswSnapshots) (l : Loaded) (key : String × String) :
    Option Nat → Option HnswIndex × Option Nat
  | some dims =>
    let found := openedWith dims (findSnapshot snapshots key dims)
    (some found.1, found.2.or l.snapshotLsns[key]?)
  | none => l.entry key

/-- An index that is not open yet is opened, the others stay. -/
theorem entry_openDenseIndex (snapshots : HnswSnapshots) (collection : String) (l : Loaded)
    (repr : StoredRepresentation) (key : String × String) :
    (openDenseIndex snapshots collection l repr).entry key =
      if key.1 = collection ∧ l.indexes[key]? = none then
        l.opened snapshots key (if repr.name = key.2 then denseOf repr else none)
      else l.entry key := by
  by_cases same : denseOf repr = none ∨ l.indexes[(collection, repr.name)]? ≠ none
  · rw [openDenseIndex_same snapshots collection l repr same]
    split
    · rename_i closed
      split
      · rename_i name
        rcases same with none_ | there
        · rw [none_]
          rfl
        · exact absurd ((congrArg (l.indexes[·]?) (Prod.ext closed.1.symm name)).trans closed.2) there
      · rfl
    · rfl
  · rw [not_or, not_not] at same
    obtain ⟨dims, dense⟩ := Option.ne_none_iff_exists'.mp same.1
    rw [openDenseIndex_opened snapshots collection l repr dense same.2]
    by_cases here : (collection, repr.name) = key
    · subst here
      rw [if_pos ⟨rfl, same.2⟩, if_pos rfl, dense]
      unfold entry opened
      cases found : findSnapshot snapshots (collection, repr.name) dims with
      | none => simp [openedWith, found]
      | some snapshot => simp [openedWith, found]
    · have other : (if key.1 = collection ∧ l.indexes[key]? = none then
          l.opened snapshots key (if repr.name = key.2 then denseOf repr else none)
          else l.entry key) = l.entry key := by
        split
        · rename_i closed
          rw [if_neg fun name => here (Prod.ext closed.1.symm name)]
          rfl
        · rfl
      rw [other]
      unfold entry
      dsimp only
      rw [FinMap.get_insert, if_neg here]
      cases findSnapshot snapshots (collection, repr.name) dims with
      | none => rfl
      | some snapshot =>
        dsimp only
        rw [FinMap.get_insert, if_neg here]

theorem entry_openDenseIndexes (snapshots : HnswSnapshots) (collection : String)
    (reprs : List StoredRepresentation) (l : Loaded) (key : String × String) :
    (reprs.foldl (openDenseIndex snapshots collection) l).entry key =
      if key.1 = collection ∧ l.indexes[key]? = none then
        l.opened snapshots key (denseDimensions reprs key.2)
      else l.entry key := by
  induction reprs generalizing l with
  | nil =>
    rw [List.foldl_nil]
    split <;> rfl
  | cons repr rest ih =>
    have step := entry_openDenseIndex snapshots collection l repr key
    rw [List.foldl_cons, ih]
    generalize openDenseIndex snapshots collection l repr = l' at step
    have index : l'.indexes[key]? = _ := congrArg Prod.fst step
    unfold denseDimensions
    rw [List.findSome?_cons]
    by_cases closed : key.1 = collection ∧ l.indexes[key]? = none
    · rw [if_pos closed] at step index ⊢
      cases here : (if repr.name = key.2 then denseOf repr else none) with
      | some dims =>
        rw [here] at step index
        have open_ : ¬ l'.indexes[key]? = none := by
          rw [index]
          exact Option.some_ne_none _
        rw [if_neg fun both => open_ both.2, step]
      | none =>
        rw [here] at step index
        have lsn : l'.snapshotLsns[key]? = l.snapshotLsns[key]? := congrArg Prod.snd step
        rw [if_pos ⟨closed.1, index.trans closed.2⟩]
        unfold opened
        rw [lsn, step]
        rfl
    · rw [if_neg closed] at step index ⊢
      rw [if_neg fun both => closed ⟨both.1, index.symm.trans both.2⟩, step]

end Loaded

/-! ### Filling the indexes of a collection -/

/-- An index that is offered the vectors of some entities, one after the other. -/
def HnswIndex.fill (h : HnswIndex) (reprName : String) (entities : List Entity) : HnswIndex :=
  entities.foldl (fun h e => h.offer e.id (vectorFor e reprName)) h

theorem HnswIndex.wellFormed_fill {h : HnswIndex} (wf : h.WellFormed) (reprName : String)
    (entities : List Entity) : (h.fill reprName entities).WellFormed := by
  unfold fill
  induction entities generalizing h with
  | nil => exact wf
  | cons e rest ih => exact ih (HnswIndex.wellFormed_offer wf e.id (vectorFor e reprName))

theorem HnswIndex.slot_fill {h : HnswIndex} (wf : h.WellFormed) (reprName : String)
    (entities : List Entity) (id : LogicalId) : (h.fill reprName entities).slot id =
      (h.slot id).offer (entities.findSome? fun e =>
        if e.id = id then vectorFor e reprName else none) := by
  unfold fill
  induction entities generalizing h with
  | nil => rfl
  | cons e rest ih =>
    rw [List.foldl_cons, ih (HnswIndex.wellFormed_offer wf e.id (vectorFor e reprName)),
      HnswIndex.slot_offer wf, List.findSome?_cons]
    by_cases own : e.id = id
    · rw [if_pos own, if_pos own]
      cases vectorFor e reprName with
      | none => rfl
      | some v => exact Slot.offer_give _ v _
    · rw [if_neg own, if_neg own]

/-- A new index filled with the entities of a collection has the stored vectors. -/
theorem fill_partition (store : Store) (collection reprName : String) (id : LogicalId) :
    ((store.partition collection).findSome? fun e =>
        if e.id = id then vectorFor e reprName else none) =
      storedVector store collection id reprName := by
  unfold storedVector
  have owner : ∀ e ∈ store.partition collection, e.id = id →
      store.entities[(collection, id)]? = some e := by
    intro e there own
    rw [← own]
    exact (store.mem_partition collection e).mp there
  cases stored : store.entities[(collection, id)]? with
  | none =>
    refine List.findSome?_eq_none_iff.mpr fun e there => if_neg fun own => ?_
    cases stored.symm.trans (owner e there own)
  | some e =>
    have own : e.id = id := store.keyed collection id e stored
    have there : e ∈ store.partition collection := by
      rw [store.mem_partition, own]
      exact stored
    have only : ∀ e' ∈ store.partition collection, e'.id = id → e' = e := by
      intro e' there' own'
      exact Option.some.inj ((owner e' there' own').symm.trans stored)
    rw [Option.bind_some]
    cases vector : vectorFor e reprName with
    | none =>
      refine List.findSome?_eq_none_iff.mpr fun e' there' => ?_
      split
      · rename_i own'
        rw [only e' there' own', vector]
      · rfl
    | some v =>
      cases found : (store.partition collection).findSome? fun e =>
          if e.id = id then vectorFor e reprName else none with
      | none =>
        have missing := List.findSome?_eq_none_iff.mp found e there
        rw [if_pos own, vector] at missing
        cases missing
      | some w =>
        obtain ⟨e', there', here⟩ := List.exists_of_findSome?_eq_some found
        split at here
        · rename_i own'
          rw [only e' there' own', vector] at here
          exact here.symm
        · cases here

theorem rebuildDense_picked (l : Loaded) (collection : String) (e : Entity) :
    (rebuildDense l collection e).indexes =
      insertPicked (fun reprName => !l.snapshotLsns.contains (collection, reprName)) collection e.id
        l.indexes e.representations := by
  unfold rebuildDense insertPicked
  dsimp only
  congr 1
  funext indexes repr
  cases repr.vector with
  | sparse sv => rfl
  | dense v =>
    dsimp only
    by_cases loaded : l.snapshotLsns.contains (collection, repr.name) = true
    · simp [loaded]
    · simp [loaded]

theorem data_rebuildFieldEntries (fieldIndexes : FieldIndexes) (collection : String) (store : Store)
    (e : Entity) : dataOf (rebuildFieldEntries fieldIndexes collection store e) = dataOf store := by
  unfold rebuildFieldEntries
  generalize fieldIndexes.toList.filter (fun idx => idx.1.1 = collection) = indexes
  induction indexes generalizing store with
  | nil => rfl
  | cons idx rest ih =>
    rw [List.foldl_cons, ih]
    dsimp only
    split
    · split
      · rename_i stored
        exact data_insertEntry stored
      · rfl
    · rfl

namespace Opening

def entry (o : Opening) (key : String × String) : Option HnswIndex × Option Nat :=
  Loaded.entry ⟨o.state.indexes, o.snapshotLsns⟩ key

/-- Neither the metadata in memory nor the log nor the stored rows differ. -/
structure SameData (o o' : Opening) : Prop where
  schemas : o'.state.schemas = o.state.schemas
  edgeTypes : o'.state.edgeTypes = o.state.edgeTypes
  wal : o'.state.wal = o.state.wal
  data : dataOf o'.state.store = dataOf o.state.store

theorem SameData.refl (o : Opening) : SameData o o := ⟨rfl, rfl, rfl, rfl⟩

theorem SameData.trans {o o' o'' : Opening} (first : SameData o o') (second : SameData o' o'') :
    SameData o o'' :=
  ⟨second.schemas.trans first.schemas, second.edgeTypes.trans first.edgeTypes,
    second.wal.trans first.wal, second.data.trans first.data⟩

theorem same_rebuildEntities (collection : String) (entities : List Entity) (o : Opening) :
    SameData o (entities.foldl (rebuildEntity collection) o) := by
  induction entities generalizing o with
  | nil => exact .refl o
  | cons e rest ih =>
    have first : SameData o (o.rebuildEntity collection e) :=
      ⟨rfl, rfl, rfl, data_rebuildFieldEntries _ _ _ _⟩
    exact first.trans (ih _)

theorem snapshotLsns_rebuildEntities (collection : String) (entities : List Entity) (o : Opening) :
    (entities.foldl (rebuildEntity collection) o).snapshotLsns = o.snapshotLsns := by
  induction entities generalizing o with
  | nil => rfl
  | cons e rest ih => exact ih (o.rebuildEntity collection e)

theorem indexes_rebuildEntities (collection : String) (entities : List Entity) (o : Opening)
    (key : String × String) :
    (entities.foldl (rebuildEntity collection) o).state.indexes[key]? =
      if key.1 = collection ∧ o.snapshotLsns[key]? = none then
        o.state.indexes[key]?.map fun h => h.fill key.2 entities
      else o.state.indexes[key]? := by
  induction entities generalizing o with
  | nil =>
    have unfilled : (fun h : HnswIndex => h.fill key.2 []) = fun h => h := rfl
    rw [unfilled]
    simp
  | cons e rest ih =>
    rw [List.foldl_cons, ih]
    have lsns : (o.rebuildEntity collection e).snapshotLsns = o.snapshotLsns := rfl
    have indexes : (o.rebuildEntity collection e).state.indexes = insertPicked
        (fun reprName => !o.snapshotLsns.contains (collection, reprName)) collection e.id
        o.state.indexes e.representations := rebuildDense_picked _ collection e
    rw [lsns, indexes, get_insertPicked]
    by_cases own : key.1 = collection
    · have here : (collection, key.2) = key := Prod.ext own.symm rfl
      rw [here, Std.ExtTreeMap.contains_eq_isSome_getElem?]
      cases o.snapshotLsns[key]? with
      | none =>
        simp only [own, Option.isSome_none, Bool.not_false, and_self, if_true, Option.map_map]
        rfl
      | some lsn => simp
    · simp [own]

theorem entry_rebuildEntities (collection : String) (entities : List Entity) (o : Opening)
    (key : String × String) :
    (entities.foldl (rebuildEntity collection) o).entry key =
      if key.1 = collection ∧ o.snapshotLsns[key]? = none then
        (o.state.indexes[key]?.map fun h => h.fill key.2 entities, none)
      else o.entry key := by
  unfold entry Loaded.entry
  dsimp only
  rw [indexes_rebuildEntities, snapshotLsns_rebuildEntities]
  split
  · rename_i here
    rw [here.2]
  · rfl

end Opening

/-! ### The collections one after the other -/

/-- The dimensions of the index of a key, read off the schema. -/
def State.denseDimensions (s : State) (key : String × String) : Option Nat :=
  s.schemas[key.1]?.bind fun schema => Engine.denseDimensions schema.representations key.2

/-- The snapshot the index of a key comes from: replay has not opened it, and there are files
under its base name with the dimensions its representation declares. -/
def State.loadable (s : State) (snapshots : HnswSnapshots) (key : String × String) :
    Option HnswSnapshot :=
  match s.indexes[key]? with
  | some _ => none
  | none => (s.denseDimensions key).bind fun dims => findSnapshot snapshots key dims

/-- The index of a key that does not come from a snapshot, before it is filled. -/
def State.emptyIndex (s : State) (key : String × String) : Option HnswIndex :=
  match s.indexes[key]? with
  | some h => some h
  | none => (s.denseDimensions key).map .new

/-- The index and the LSN of a key once its collection has been opened. -/
def openedEntry (snapshots : HnswSnapshots) (s : State) (key : String × String) :
    Option HnswIndex × Option Nat :=
  match s.loadable snapshots key with
  | some snapshot => (some snapshot.index.fromSnapshot, some snapshot.lsn)
  | none => ((s.emptyIndex key).map fun h => h.fill key.2 (s.store.partition key.1), none)

namespace Opening

theorem same_openCollection (snapshots : HnswSnapshots) (o : Opening) (collection : String) :
    SameData o (openCollection snapshots o collection) := by
  have opened : SameData o (o.openIndexes snapshots collection) := by
    unfold openIndexes
    split <;> exact ⟨rfl, rfl, rfl, rfl⟩
  unfold openCollection
  dsimp only
  split
  · exact opened.trans (same_rebuildEntities collection _ _)
  · exact opened

theorem entry_openIndexes_other (snapshots : HnswSnapshots) (o : Opening) {collection : String}
    {key : String × String} (other : key.1 ≠ collection) :
    (o.openIndexes snapshots collection).entry key = o.entry key := by
  unfold openIndexes
  split
  · rfl
  · rename_i schema known
    refine (Loaded.entry_openDenseIndexes snapshots collection schema.representations _ key).trans ?_
    exact if_neg fun both => other both.1

theorem entry_openIndexes (snapshots : HnswSnapshots) (o : Opening) (key : String × String)
    (closed : o.snapshotLsns[key]? = none) :
    (o.openIndexes snapshots key.1).entry key =
      match o.state.loadable snapshots key with
      | some snapshot => (some snapshot.index.fromSnapshot, some snapshot.lsn)
      | none => (o.state.emptyIndex key, none) := by
  have unchanged (index : Option HnswIndex) (here : o.state.indexes[key]? = index) :
      o.entry key = (index, none) := by
    rw [entry, Loaded.entry, closed, here]
  unfold openIndexes State.loadable State.emptyIndex State.denseDimensions
  cases known : o.state.schemas[key.1]? with
  | none =>
    cases index : o.state.indexes[key]? with
    | none => exact unchanged none index
    | some h => exact unchanged (some h) index
  | some schema =>
    refine (Loaded.entry_openDenseIndexes snapshots key.1 schema.representations _ key).trans ?_
    cases index : o.state.indexes[key]? with
    | some h =>
      dsimp only
      rw [if_neg fun both => Option.some_ne_none h both.2]
      exact unchanged (some h) index
    | none =>
      rw [if_pos ⟨rfl, rfl⟩]
      dsimp only
      rw [Option.bind_some]
      cases denseDimensions schema.representations key.2 with
      | none => exact unchanged none index
      | some dims =>
        simp only [Loaded.opened, closed, Option.or_none, Option.bind_some, Option.map_some]
        cases findSnapshot snapshots key dims with
        | none => rfl
        | some snapshot => rfl

theorem store_openIndexes (snapshots : HnswSnapshots) (o : Opening) (collection : String) :
    (o.openIndexes snapshots collection).state.store = o.state.store := by
  unfold openIndexes
  split <;> rfl

theorem entry_openCollection_other (snapshots : HnswSnapshots) (o : Opening) {collection : String}
    {key : String × String} (other : key.1 ≠ collection) :
    (openCollection snapshots o collection).entry key = o.entry key := by
  unfold openCollection
  dsimp only
  split
  · rw [entry_rebuildEntities, if_neg fun both => other both.1, entry_openIndexes_other _ _ other]
  · exact entry_openIndexes_other snapshots o other

theorem entry_openCollection (snapshots : HnswSnapshots) (o : Opening) (key : String × String)
    (present : o.state.store.hasCollection key.1 = true) (closed : o.snapshotLsns[key]? = none) :
    (openCollection snapshots o key.1).entry key = openedEntry snapshots o.state key := by
  have opened := entry_openIndexes snapshots o key closed
  have scanned : (o.openIndexes snapshots key.1).state.store.scan key.1 =
      .ok (o.state.store.partition key.1) := by
    rw [store_openIndexes, Store.scan, if_pos present]
  unfold openCollection
  dsimp only
  rw [scanned]
  dsimp only
  rw [entry_rebuildEntities]
  unfold openedEntry
  cases found : o.state.loadable snapshots key with
  | some snapshot =>
    rw [found] at opened
    have lsn : (o.openIndexes snapshots key.1).snapshotLsns[key]? = some snapshot.lsn :=
      congrArg Prod.snd opened
    have loaded : ¬ (o.openIndexes snapshots key.1).snapshotLsns[key]? = none := by
      rw [lsn]
      exact Option.some_ne_none _
    rw [if_neg fun both => loaded both.2, opened]
  | none =>
    rw [found] at opened
    have lsn : (o.openIndexes snapshots key.1).snapshotLsns[key]? = none := congrArg Prod.snd opened
    have index : (o.openIndexes snapshots key.1).state.indexes[key]? = o.state.emptyIndex key :=
      congrArg Prod.fst opened
    rw [if_pos ⟨rfl, lsn⟩, index]

theorem same_openCollections (snapshots : HnswSnapshots) (names : List String) (o : Opening) :
    SameData o (names.foldl (openCollection snapshots) o) := by
  induction names generalizing o with
  | nil => exact .refl o
  | cons name rest ih => exact (same_openCollection snapshots o name).trans (ih _)

theorem entry_openCollections_other (snapshots : HnswSnapshots) (names : List String) (o : Opening)
    {key : String × String} (other : key.1 ∉ names) :
    (names.foldl (openCollection snapshots) o).entry key = o.entry key := by
  induction names generalizing o with
  | nil => rfl
  | cons name rest ih =>
    rw [List.mem_cons, not_or] at other
    rw [List.foldl_cons, ih _ other.2, entry_openCollection_other _ _ other.1]

theorem entry_openCollections (snapshots : HnswSnapshots) (names : List String) (o : Opening)
    (distinct : names.Nodup) (present : ∀ name ∈ names, o.state.store.hasCollection name = true)
    (key : String × String) (listed : key.1 ∈ names) (closed : o.snapshotLsns[key]? = none) :
    (names.foldl (openCollection snapshots) o).entry key = openedEntry snapshots o.state key := by
  induction names generalizing o with
  | nil => simp at listed
  | cons name rest ih =>
    rw [List.nodup_cons] at distinct
    rw [List.forall_mem_cons] at present
    rw [List.foldl_cons]
    by_cases own : key.1 = name
    · subst own
      rw [entry_openCollections_other _ _ _ distinct.1, entry_openCollection _ _ _ present.1 closed]
    · have same := same_openCollection snapshots o name
      have entry := entry_openCollection_other snapshots o own
      have index : (openCollection snapshots o name).state.indexes[key]? = o.state.indexes[key]? :=
        congrArg Prod.fst entry
      have lsn : (openCollection snapshots o name).snapshotLsns[key]? = o.snapshotLsns[key]? :=
        congrArg Prod.snd entry
      have later : ∀ name' ∈ rest,
          (openCollection snapshots o name).state.store.hasCollection name' = true :=
        fun name' there => (congrArg (fun d : Data => d.collections.contains name') same.data).trans
          (present.2 name' there)
      rw [ih _ distinct.2 later ((List.mem_cons.mp listed).resolve_left own) (lsn.trans closed)]
      have entities : (openCollection snapshots o name).state.store.entities =
          o.state.store.entities := congrArg Data.entities same.data
      unfold openedEntry State.loadable State.emptyIndex State.denseDimensions Store.partition
      rw [index, same.schemas, entities]

end Opening
/-! ### The catch-up -/

def catchUpIndex (snapshotLsns : FinMap (String × String) Nat) (r : WalRecord Payload)
    (key : String × String) (h : HnswIndex) : HnswIndex :=
  if afterSnapshot snapshotLsns key r.lsn then
    match r.recordType, r.payload with
    | .entityWrite, .entity e => if key.1 = r.collection then h.offer e.id (vectorFor e key.2) else h
    | .entityDelete, .entityDelete id collection =>
      if key.1 = collection ∧ hasSnapshot snapshotLsns r.collection = true then h.remove id else h
    | _, _ => h
  else h

theorem hasSnapshot_iff (snapshotLsns : FinMap (String × String) Nat) (collection : String) :
    hasSnapshot snapshotLsns collection = true ↔
      ∃ reprName : String, snapshotLsns[(collection, reprName)]? ≠ none := by
  unfold hasSnapshot
  rw [List.any_eq_true]
  constructor
  · rintro ⟨⟨⟨c, reprName⟩, lsn⟩, listed, own⟩
    cases of_decide_eq_true own
    rw [FinMap.mem_toList] at listed
    exact ⟨reprName, by rw [listed]; exact Option.some_ne_none lsn⟩
  · rintro ⟨reprName, there⟩
    obtain ⟨lsn, found⟩ := Option.ne_none_iff_exists'.mp there
    exact ⟨((collection, reprName), lsn), (FinMap.mem_toList _ _ _).mpr found, decide_eq_true rfl⟩

theorem afterSnapshot_loaded {snapshotLsns : FinMap (String × String) Nat} {key : String × String}
    {lsn : Nat} (after : afterSnapshot snapshotLsns key lsn = true) :
    hasSnapshot snapshotLsns key.1 = true := by
  refine (hasSnapshot_iff _ _).mpr ⟨key.2, fun missing => ?_⟩
  unfold afterSnapshot at after
  rw [missing] at after
  cases after

theorem get_catchUpRecord (snapshotLsns : FinMap (String × String) Nat)
    (indexes : FinMap (String × String) HnswIndex) (r : WalRecord Payload) (key : String × String) :
    (catchUpRecord snapshotLsns indexes r)[key]? =
      indexes[key]?.map (catchUpIndex snapshotLsns r key) := by
  have unchanged (same : ∀ h, catchUpIndex snapshotLsns r key h = h) :
      indexes[key]? = indexes[key]?.map (catchUpIndex snapshotLsns r key) := by
    rw [funext same]
    exact Option.map_id'.symm
  unfold catchUpRecord
  by_cases loaded : hasSnapshot snapshotLsns r.collection = true
  · simp only [loaded, Bool.not_true, Bool.false_eq_true, if_false]
    split
    · rename_i e type payload
      refine (get_insertPicked (fun reprName => afterSnapshot snapshotLsns (r.collection, reprName)
        r.lsn) r.collection e.id e.representations indexes key).trans ?_
      unfold catchUpIndex
      rw [type, payload]
      by_cases own : key.1 = r.collection
      · rw [← own]
        simp only [true_and, if_true]
        cases afterSnapshot snapshotLsns key r.lsn with
        | true => rfl
        | false => exact Option.map_id'.symm
      · simp [own]
    · rename_i id collection type payload
      rw [Std.ExtTreeMap.getElem?_map]
      refine congrArg (Option.map · _) (funext fun h => ?_)
      unfold catchUpIndex
      rw [type, payload]
      by_cases own : key.1 = collection
      · cases afterSnapshot snapshotLsns key r.lsn <;> simp [own, loaded]
      · simp [own]
    · rename_i noWrite noDelete
      refine unchanged fun h => ?_
      unfold catchUpIndex
      split
      · split
        · rename_i e type payload
          exact absurd payload (noWrite e type)
        · rename_i id collection type payload
          exact absurd payload (noDelete id collection type)
        · rfl
      · rfl
  · simp only [loaded, Bool.not_false, if_true]
    refine unchanged fun h => ?_
    unfold catchUpIndex
    split
    · rename_i after
      have own := afterSnapshot_loaded after
      split
      · exact if_neg fun same : key.1 = r.collection => loaded (same ▸ own)
      · exact if_neg fun both => loaded both.2
      · rfl
    · rfl

/-- What a record behind the snapshot of an index says of an id. -/
def laterNote (loaded : String → Bool) (key : String × String) (lsn : Nat) (id : LogicalId)
    (r : WalRecord Payload) : Option (Slot.Note (List F32)) :=
  if lsn < r.lsn then
    match r.recordType, r.payload with
    | .entityWrite, .entity e =>
      if key.1 = r.collection ∧ e.id = id then (vectorFor e key.2).map .given else none
    | .entityDelete, .entityDelete id' collection =>
      if key.1 = collection ∧ loaded r.collection = true ∧ id' = id then some .bury else none
    | _, _ => none
  else none

theorem wellFormed_catchUpIndex {h : HnswIndex} (wf : h.WellFormed)
    (snapshotLsns : FinMap (String × String) Nat) (r : WalRecord Payload) (key : String × String) :
    (catchUpIndex snapshotLsns r key h).WellFormed := by
  unfold catchUpIndex
  repeat' split
  all_goals first
    | exact wf
    | exact HnswIndex.wellFormed_offer wf _ _
    | exact HnswIndex.wellFormed_remove wf _

theorem slot_catchUpIndex {h : HnswIndex} (wf : h.WellFormed)
    {snapshotLsns : FinMap (String × String) Nat} {key : String × String} {lsn : Nat}
    (from_ : snapshotLsns[key]? = some lsn) (r : WalRecord Payload) (id : LogicalId) :
    (catchUpIndex snapshotLsns r key h).slot id =
      match laterNote (hasSnapshot snapshotLsns) key lsn id r with
      | some n => (h.slot id).note n
      | none => h.slot id := by
  unfold catchUpIndex laterNote afterSnapshot
  rw [from_]
  dsimp only
  by_cases later : lsn < r.lsn
  · simp only [later, decide_true, if_true]
    split
    · rename_i e type payload
      by_cases own : key.1 = r.collection
      · rw [if_pos own, HnswIndex.slot_offer wf]
        by_cases this : e.id = id
        · rw [if_pos this, if_pos ⟨own, this⟩]
          cases vectorFor e key.2 <;> rfl
        · rw [if_neg this, if_neg fun both => this both.2]
      · rw [if_neg own, if_neg fun both => own both.1]
    · rename_i id' collection type payload
      by_cases own : key.1 = collection ∧ hasSnapshot snapshotLsns r.collection = true
      · rw [if_pos own, HnswIndex.slot_remove]
        by_cases this : id' = id
        · rw [if_pos this, if_pos ⟨own.1, own.2, this⟩]
          rfl
        · rw [if_neg this, if_neg fun all => this all.2.2]
      · rw [if_neg own, if_neg fun all => own ⟨all.1, all.2.1⟩]
    · rfl
  · simp only [later, decide_false, Bool.false_eq_true, if_false]

theorem get_catchUp (snapshotLsns : FinMap (String × String) Nat) (records : List (WalRecord Payload))
    (indexes : FinMap (String × String) HnswIndex) (key : String × String) :
    (records.foldl (catchUpRecord snapshotLsns) indexes)[key]? =
      indexes[key]?.map fun h =>
        records.foldl (fun h r => catchUpIndex snapshotLsns r key h) h := by
  induction records generalizing indexes with
  | nil => exact Option.map_id'.symm
  | cons r rest ih =>
    rw [List.foldl_cons, ih, get_catchUpRecord, Option.map_map]
    rfl

theorem wellFormed_catchUp {h : HnswIndex} (wf : h.WellFormed)
    (snapshotLsns : FinMap (String × String) Nat) (records : List (WalRecord Payload))
    (key : String × String) :
    (records.foldl (fun h r => catchUpIndex snapshotLsns r key h) h).WellFormed := by
  induction records generalizing h with
  | nil => exact wf
  | cons r rest ih => exact ih (wellFormed_catchUpIndex wf snapshotLsns r key)

theorem slot_catchUp {h : HnswIndex} (wf : h.WellFormed)
    {snapshotLsns : FinMap (String × String) Nat} {key : String × String} {lsn : Nat}
    (from_ : snapshotLsns[key]? = some lsn) (records : List (WalRecord Payload)) (id : LogicalId) :
    (records.foldl (fun h r => catchUpIndex snapshotLsns r key h) h).slot id =
      (records.filterMap (laterNote (hasSnapshot snapshotLsns) key lsn id)).foldl Slot.note
        (h.slot id) := by
  induction records generalizing h with
  | nil => rfl
  | cons r rest ih =>
    rw [List.foldl_cons, ih (wellFormed_catchUpIndex wf snapshotLsns r key),
      slot_catchUpIndex wf from_ r id, List.filterMap_cons]
    cases laterNote (hasSnapshot snapshotLsns) key lsn id r <;> rfl

theorem catchUp_rebuilt {snapshotLsns : FinMap (String × String) Nat} {key : String × String}
    (rebuilt : snapshotLsns[key]? = none) (records : List (WalRecord Payload)) (h : HnswIndex) :
    records.foldl (fun h r => catchUpIndex snapshotLsns r key h) h = h := by
  refine Run.foldl_unchanged _ records h fun r _ => if_neg ?_
  rw [afterSnapshot, rebuilt]
  exact Bool.false_ne_true

end TronDB.Engine
