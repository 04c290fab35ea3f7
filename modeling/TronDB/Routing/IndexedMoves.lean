import TronDB.Engine.SmallIndex
import TronDB.Routing.Moves

/-! Whether the dense indexes of a collection follow its hot tier, when entities are demoted and
promoted: the migrator looks for an index under the name of the collection alone. -/
namespace TronDB.Routing
open TronDB.Core TronDB.Engine TronDB.Wal Binary Bytes

def indexKey (collection reprName : String) : String := collection ++ ":" ++ reprName

/-- The tiers with the dense indexes, by collection and representation in one key. -/
structure IndexedTiers extends Tiered where
  indexes : FinMap String HnswIndex

def removeFromHnsw (collection : String) (id : LogicalId) (indexes : FinMap String HnswIndex) :
    FinMap String HnswIndex := FinMap.adjust indexes collection fun idx => idx.remove id

def insertIntoHnsw (collection : String) (id : LogicalId) (vector : List F32)
    (indexes : FinMap String HnswIndex) : FinMap String HnswIndex :=
  FinMap.adjust indexes collection fun idx => idx.insert id vector

/-- A step of a migration, on the tiers or on the indexes. -/
inductive IndexedStep where
  | tiers (step : Tiered → Except RouterError Tiered)
  | index (effect : FinMap String HnswIndex → FinMap String HnswIndex)

namespace IndexedStep

def run : List IndexedStep → IndexedTiers → Except RouterError Unit × IndexedTiers
  | [], s => (.ok (), s)
  | .tiers step :: rest, s =>
    match step s.toTiered with
    | .error e => (.error e, s)
    | .ok x => run rest { s with toTiered := x }
  | .index effect :: rest, s => run rest { s with indexes := effect s.indexes }

def onTiers : List IndexedStep → Steps
  | [] => []
  | .tiers step :: rest => step :: onTiers rest
  | .index _ :: rest => onTiers rest

def onIndexes : List IndexedStep → FinMap String HnswIndex → FinMap String HnswIndex
  | [], indexes => indexes
  | .tiers _ :: rest, indexes => onIndexes rest indexes
  | .index effect :: rest, indexes => onIndexes rest (effect indexes)

end IndexedStep

inductive IndexedMove where
  | demoteSingle (collection : String) (id : LogicalId) (fromTier toTier : Tier)
  | promoteToHot (collection : String) (id : LogicalId) (vector : List F32)
  deriving DecidableEq, Repr

section Steps
variable (m : RmpSerde)

def IndexedMove.steps : IndexedMove → List IndexedStep
  | .demoteSingle collection id fromTier toTier =>
    [.tiers (mark id .migrating),
      .tiers (logIntent ⟨id, collection, fromTier, toTier, targetEncoding toTier⟩),
      .tiers (moveData m collection id fromTier toTier),
      .index fun indexes =>
        if fromTier = .fjall then removeFromHnsw collection id indexes else indexes,
      .tiers (updateLocation id toTier),
      .tiers (mark id .clean),
      .tiers (deleteSource collection id fromTier)]
  | .promoteToHot collection id vector =>
    [.tiers fun x => .ok (x.writeTiered collection id .fjall (vectorBytes vector)),
      .index (insertIntoHnsw collection id vector),
      .tiers (logIntent ⟨id, collection, .nvme, .fjall, .float32⟩),
      .tiers (updateLocation id .fjall),
      .tiers (deleteSource collection id .nvme)]

def IndexedTiers.next (s : IndexedTiers) (move : IndexedMove) : IndexedTiers :=
  (IndexedStep.run (move.steps m) s).2

def Succeeds (s : IndexedTiers) (move : IndexedMove) : Prop :=
  (IndexedStep.run (move.steps m) s).1 = .ok ()

end Steps

/-! ### What the indexes should say -/

namespace IndexedTiers

def InHot (s : IndexedTiers) (collection : String) (id : LogicalId) : Prop :=
  (s.readTiered collection id .fjall).isSome = true

/-- The index is that of a dense representation of the collection. -/
def DenseIndex (s : IndexedTiers) (collection key : String) (h : HnswIndex) : Prop :=
  ∃ schema repr, s.collections[collection]? = some schema ∧ repr ∈ schema.representations ∧
    repr.sparse = false ∧ key = indexKey collection repr.name ∧ s.indexes[key]? = some h

/-- The dense indexes of a collection have the ids of its hot tier as their live ones. -/
def Followed (s : IndexedTiers) : Prop :=
  ∀ collection key h, s.DenseIndex collection key h → ∀ id, h.Live id ↔ s.InHot collection id

def IndexesOk (s : IndexedTiers) : Prop :=
  ∀ (key : String) (h : HnswIndex), s.indexes[key]? = some h → h.WellFormed

/-- After a move the indexes follow, and what was promoted is scored by its vector. -/
structure Reaches (m : RmpSerde) (s : IndexedTiers) (move : IndexedMove) : Prop where
  followed : (s.next m move).Followed
  scored : ∀ collection id vector, move = .promoteToHot collection id vector → ∀ key h,
    (s.next m move).DenseIndex collection key h → h.Scores id vector

/-- No index has to change for the move, and none does: the collection has none, unless the move
is one between the other tiers, or promotes what its indexes hold already; and no index of another
collection goes by the name of this one. -/
def Bystander (s : IndexedTiers) : IndexedMove → Prop
  | .demoteSingle collection id fromTier _ =>
    (samePartition fromTier .fjall = true → ∀ key h, ¬ s.DenseIndex collection key h) ∧
      (fromTier = .fjall → ∀ other h, s.DenseIndex other collection h → ¬ h.Live id)
  | .promoteToHot collection id vector =>
    (∀ key h, s.DenseIndex collection key h → h.Scores id vector) ∧
      ∀ other h, s.DenseIndex other collection h → h.idToIdx.contains id = true

end IndexedTiers

/-! ### What a move does to the hot tier -/

theorem Steps.run_cons_ok {step : Tiered → Except RouterError Tiered} {rest : Steps} {x x' : Tiered}
    (ran : Steps.run (step :: rest) x = (.ok (), x')) :
    ∃ y, step x = .ok y ∧ Steps.run rest y = (.ok (), x') := by
  unfold Steps.run at ran
  cases done : step x with
  | error e => simp [done] at ran
  | ok y => exact ⟨y, rfl, by simpa [done] using ran⟩

/-- A step that leaves the collections and the hot tier alone. -/
def SparesHot (x y : Tiered) : Prop := y.collections = x.collections ∧ y.hot = x.hot

theorem sparesHot_mark {id : LogicalId} {state : LocState} {x y : Tiered}
    (ran : mark id state x = .ok y) : SparesHot x y := by
  obtain ⟨e, failed⟩ | ⟨entry, location, -, -, -, done⟩ := mark_ends id state x
  · simp [failed] at ran
  · rw [done] at ran
    cases ran
    exact ⟨rfl, rfl⟩

theorem sparesHot_updateLocation {id : LogicalId} {tier : Tier} {x y : Tiered}
    (ran : updateLocation id tier x = .ok y) : SparesHot x y := by
  obtain ⟨-, e, failed⟩ | ⟨entry, location, -, -, done⟩ := updateLocation_ends id tier x
  · simp [failed] at ran
  · rw [done] at ran
    cases ran
    exact ⟨rfl, rfl⟩

theorem sparesHot_moveData {m : RmpSerde} {collection : String} {id : LogicalId}
    {fromTier toTier : Tier} {x y : Tiered}
    (ran : moveData m collection id fromTier toTier x = .ok y) :
    SparesHot x y ∧ (x.readTiered collection id fromTier).isSome = true := by
  unfold moveData at ran
  cases read : x.readTiered collection id fromTier with
  | none => simp [read] at ran
  | some data =>
    rw [read] at ran
    dsimp only at ran
    cases toTier with
    | nvme =>
      simp only [transcode] at ran
      cases decoded : m.readVector data with
      | none => simp [decoded] at ran
      | some v =>
        simp only [decoded, Except.ok.injEq] at ran
        exact ⟨ran ▸ ⟨rfl, rfl⟩, rfl⟩
    | archive =>
      simp only [transcode] at ran
      cases decoded : QuantisedInt8.fromBytes data with
      | error e => simp [decoded] at ran
      | ok int8 =>
        simp only [decoded, Except.ok.injEq] at ran
        exact ⟨ran ▸ ⟨rfl, rfl⟩, rfl⟩
    | ram =>
      simp only [transcode, Except.ok.injEq] at ran
      exact ⟨ran ▸ ⟨rfl, rfl⟩, rfl⟩
    | fjall =>
      simp only [transcode, Except.ok.injEq] at ran
      exact ⟨ran ▸ ⟨rfl, rfl⟩, rfl⟩

/-- A migration that succeeds had its source, and takes it away. -/
theorem demoteSingle_ok {m : RmpSerde} {collection : String} {id : LogicalId}
    {fromTier toTier : Tier} {x x' : Tiered}
    (ran : (demoteSingle m collection id fromTier toTier).run x = (.ok (), x')) :
    (x.readTiered collection id fromTier).isSome = true ∧ x'.collections = x.collections ∧
      ∀ collection' id', x'.readTiered collection' id' .fjall =
        if samePartition fromTier .fjall = true ∧ (collection, id) = (collection', id') then none
        else x.readTiered collection' id' .fjall := by
  unfold demoteSingle at ran
  obtain ⟨x₁, marked, ran⟩ := Steps.run_cons_ok ran
  obtain ⟨x₂, logged, ran⟩ := Steps.run_cons_ok ran
  obtain ⟨x₃, moved, ran⟩ := Steps.run_cons_ok ran
  obtain ⟨x₄, updated, ran⟩ := Steps.run_cons_ok ran
  obtain ⟨x₅, cleaned, ran⟩ := Steps.run_cons_ok ran
  obtain ⟨x₆, deleted, ran⟩ := Steps.run_cons_ok ran
  cases ran
  cases deleted
  cases logged
  obtain ⟨schemas₁, hot₁⟩ := sparesHot_mark marked
  obtain ⟨⟨schemas₃, hot₃⟩, there⟩ := sparesHot_moveData moved
  obtain ⟨schemas₄, hot₄⟩ := sparesHot_updateLocation updated
  obtain ⟨schemas₅, hot₅⟩ := sparesHot_mark cleaned
  have schemas : x₅.collections = x.collections := by rw [schemas₅, schemas₄, schemas₃, schemas₁]
  have hot : x₅.hot = x.hot := by rw [hot₅, hot₄, hot₃, hot₁]
  refine ⟨?_, by rw [Tiered.delete_collections, schemas], fun collection' id' => ?_⟩
  · -- marking and logging leave all tiers alone
    obtain ⟨e, failed⟩ | ⟨entry, location, -, -, -, done⟩ := mark_ends id .migrating x
    · simp [failed] at marked
    · rw [done] at marked
      cases marked
      rw [Tiered.relocate_read] at there
      exact there
  · rw [Tiered.read_delete]
    have same : x₅.readTiered collection' id' .fjall = x.readTiered collection' id' .fjall := by
      unfold Tiered.readTiered Tiered.partition
      rw [hot]
    rw [same]

theorem promoteToHot_ok {collection : String} {id : LogicalId} {vector : List F32} {x x' : Tiered}
    (ran : (promoteToHot collection id vector).run x = (.ok (), x')) :
    x'.collections = x.collections ∧ ∀ collection' id', x'.readTiered collection' id' .fjall =
      if (collection, id) = (collection', id') then some (vectorBytes vector)
      else x.readTiered collection' id' .fjall := by
  have ends := promote_ends collection id vector x
  rw [ran] at ends
  cases ends with
  | done entry location found relocated =>
    refine ⟨by simp, fun collection' id' => ?_⟩
    rw [Tiered.relocate_read, Tiered.read_delete, Tiered.read_write]
    simp [samePartition]

namespace IndexedStep

theorem run_ok {steps : List IndexedStep} {s : IndexedTiers} (ok : (run steps s).1 = .ok ()) :
    Steps.run (onTiers steps) s.toTiered = (.ok (), (run steps s).2.toTiered) ∧
      (run steps s).2.indexes = onIndexes steps s.indexes := by
  induction steps generalizing s with
  | nil => exact ⟨rfl, rfl⟩
  | cons step rest ih =>
    cases step with
    | tiers step =>
      simp only [run, onTiers, onIndexes, Steps.run] at ok ⊢
      cases done : step s.toTiered with
      | error e => simp [done] at ok
      | ok x =>
        simp only [done] at ok ⊢
        exact ih ok
    | index effect =>
      simp only [run, onTiers, onIndexes] at ok ⊢
      exact ih ok

end IndexedStep
/-! ### What a move does to an index -/

theorem live_remove (h : HnswIndex) (id id' : LogicalId) :
    (h.remove id).Live id' ↔ h.Live id' ∧ id' ≠ id := by
  unfold HnswIndex.remove HnswIndex.Live
  by_cases known : h.idToIdx.contains id = true
  · by_cases same : id = id'
    · subst same
      simp [known]
    · simp [known, same, Ne.symm same]
  · by_cases same : id = id'
    · subst same
      simp [known]
    · simp [known, Ne.symm same]

theorem live_insert {h : HnswIndex} (wf : h.WellFormed) (id : LogicalId) (v : List F32)
    (id' : LogicalId) :
    (h.insert id v).Live id' ↔ h.Live id' ∨ id = id' ∧ h.idToIdx.contains id = false := by
  by_cases known : h.idToIdx.contains id = true
  · rw [HnswIndex.insert_known known]
    simp [known]
  · have unburied : h.tombstones.contains id = false :=
      Bool.eq_false_iff.mpr fun buried => known (wf.tombstones id buried)
    have unknown := Bool.eq_false_iff.mpr known
    unfold HnswIndex.insert HnswIndex.Live
    by_cases same : id = id'
    · subst same
      simp [unknown, unburied]
    · simp [unknown, same]

theorem indexKey_ne (collection reprName : String) : indexKey collection reprName ≠ collection := by
  intro same
  have lengths := congrArg String.length same
  have colon : ":".length = 1 := rfl
  simp only [indexKey, String.length_append, colon] at lengths
  omega

namespace IndexedTiers

theorem DenseIndex.key_ne {s : IndexedTiers} {collection key : String} {h : HnswIndex}
    (dense : s.DenseIndex collection key h) : key ≠ collection := by
  obtain ⟨-, repr, -, -, -, rfl, -⟩ := dense
  exact indexKey_ne collection repr.name

theorem DenseIndex.wellFormed {s : IndexedTiers} {collection key : String} {h : HnswIndex}
    (dense : s.DenseIndex collection key h) (wf : s.IndexesOk) : h.WellFormed := by
  obtain ⟨-, -, -, -, -, -, there⟩ := dense
  exact wf key h there

section Adjusted
variable {s s' : IndexedTiers} {collection : String} {change : HnswIndex → HnswIndex}
  (schemas : s'.collections = s.collections)
  (indexes : s'.indexes = FinMap.adjust s.indexes collection change)
include schemas indexes

theorem denseIndex_adjust (other key : String) (h' : HnswIndex) :
    s'.DenseIndex other key h' ↔
      ∃ h, s.DenseIndex other key h ∧ h' = if collection = key then change h else h := by
  unfold DenseIndex
  rw [schemas, indexes]
  simp only [FinMap.get_adjust]
  by_cases here : collection = key
  · simp only [if_pos here, Option.map_eq_some_iff]
    constructor
    · rintro ⟨schema, repr, found, listed, dense, named, h, there, rfl⟩
      exact ⟨h, ⟨schema, repr, found, listed, dense, named, there⟩, rfl⟩
    · rintro ⟨h, ⟨schema, repr, found, listed, dense, named, there⟩, rfl⟩
      exact ⟨schema, repr, found, listed, dense, named, h, there, rfl⟩
  · simp only [if_neg here]
    constructor
    · rintro ⟨schema, repr, found, listed, dense, named, there⟩
      exact ⟨h', ⟨schema, repr, found, listed, dense, named, there⟩, rfl⟩
    · rintro ⟨h, ⟨schema, repr, found, listed, dense, named, there⟩, rfl⟩
      exact ⟨schema, repr, found, listed, dense, named, there⟩

theorem followed_adjust :
    s'.Followed ↔ ∀ other key h, s.DenseIndex other key h → ∀ id,
      (if collection = key then change h else h).Live id ↔ s'.InHot other id := by
  constructor
  · intro followed other key h dense
    exact followed other key _ ((denseIndex_adjust schemas indexes other key _).mpr ⟨h, dense, rfl⟩)
  · intro each other key h' dense
    obtain ⟨h, before, rfl⟩ := (denseIndex_adjust schemas indexes other key h').mp dense
    exact each other key h before

omit schemas in
theorem indexesOk_adjust (ok : s.IndexesOk) (kept : ∀ h, h.WellFormed → (change h).WellFormed) :
    s'.IndexesOk := by
  intro key h' there
  rw [indexes, FinMap.get_adjust] at there
  split at there
  · obtain ⟨h, before, rfl⟩ := Option.map_eq_some_iff.mp there
    exact kept h (ok key h before)
  · exact ok key h' there

end Adjusted

/-! ### Demotions -/

section Demote
variable {m : RmpSerde} {s : IndexedTiers} {collection : String} {id : LogicalId}
  {fromTier toTier : Tier} (ok : Succeeds m s (.demoteSingle collection id fromTier toTier))
include ok

theorem demoted_indexes : (s.next m (.demoteSingle collection id fromTier toTier)).indexes =
    FinMap.adjust s.indexes collection fun h => if fromTier = .fjall then h.remove id else h := by
  refine (IndexedStep.run_ok ok).2.trans ?_
  simp only [IndexedMove.steps, IndexedStep.onIndexes]
  split
  · rfl
  · exact (FinMap.adjust_same fun _ _ => rfl).symm

theorem demoted_tiers :
    (s.readTiered collection id fromTier).isSome = true ∧
      (s.next m (.demoteSingle collection id fromTier toTier)).collections = s.collections ∧
      ∀ other id', (s.next m (.demoteSingle collection id fromTier toTier)).InHot other id' ↔
        s.InHot other id' ∧ ¬ (samePartition fromTier .fjall = true ∧ (collection, id) = (other, id')) := by
  obtain ⟨there, schemas, read⟩ := demoteSingle_ok (IndexedStep.run_ok ok).1
  refine ⟨there, schemas, fun other id' => ?_⟩
  have after := congrArg Option.isSome (read other id')
  unfold InHot next
  rw [after]
  split
  · rename_i gone
    simp [gone]
  · rename_i kept
    simp only [kept, not_false_eq_true, and_true]

theorem demote_followed_iff (followed : s.Followed) :
    (s.next m (.demoteSingle collection id fromTier toTier)).Followed ↔
      s.Bystander (.demoteSingle collection id fromTier toTier) := by
  obtain ⟨there, schemas, inHot⟩ := demoted_tiers ok
  rw [followed_adjust schemas (demoted_indexes ok)]
  constructor
  · intro after
    constructor
    · intro hot key h dense
      have here := after collection key h dense id
      rw [if_neg (Ne.symm dense.key_ne), followed collection key h dense id, inHot] at here
      have before : s.InHot collection id := by
        revert hot there
        cases fromTier <;> simp [samePartition, InHot, Tiered.readTiered, Tiered.partition]
      exact (here.mp before).2 ⟨hot, rfl⟩
    · intro hot other h dense live
      have here := after other collection h dense id
      rw [if_pos rfl, if_pos hot, live_remove, inHot] at here
      have apart : ¬ (collection, id) = (other, id) := fun same =>
        dense.key_ne (congrArg Prod.fst same)
      have before := (followed other collection h dense id).mp live
      exact (here.mpr ⟨before, fun both => apart both.2⟩).2 rfl
  · rintro ⟨none_, unnamed⟩ other key h dense id'
    rw [inHot, ← followed other key h dense id']
    by_cases here : collection = key
    · subst here
      have apart : ¬ (collection, id) = (other, id') := fun same =>
        dense.key_ne (congrArg Prod.fst same)
      by_cases hot : fromTier = .fjall
      · have dead := unnamed hot other h dense
        rw [if_pos rfl, if_pos hot, live_remove]
        constructor
        · exact fun live => ⟨live.1, fun both => apart both.2⟩
        · rintro ⟨live, -⟩
          exact ⟨live, fun same => dead (same ▸ live)⟩
      · simp [hot, apart]
    · rw [if_neg here]
      refine (and_iff_left ?_).symm
      rintro ⟨hot, same⟩
      cases same
      exact none_ hot key h dense

end Demote
/-! ### Promotions -/

section Promote
variable {m : RmpSerde} {s : IndexedTiers} {collection : String} {id : LogicalId}
  {vector : List F32} (ok : Succeeds m s (.promoteToHot collection id vector))
include ok

theorem promoted_indexes : (s.next m (.promoteToHot collection id vector)).indexes =
    FinMap.adjust s.indexes collection fun h => h.insert id vector :=
  (IndexedStep.run_ok ok).2

theorem promoted_tiers :
    (s.next m (.promoteToHot collection id vector)).collections = s.collections ∧
      ∀ other id', (s.next m (.promoteToHot collection id vector)).InHot other id' ↔
        (collection, id) = (other, id') ∨ s.InHot other id' := by
  obtain ⟨schemas, read⟩ := promoteToHot_ok (IndexedStep.run_ok ok).1
  refine ⟨schemas, fun other id' => ?_⟩
  have after := congrArg Option.isSome (read other id')
  unfold InHot next
  rw [after]
  split
  · rename_i here
    simp [here]
  · rename_i other
    simp only [other, false_or]

theorem promote_reaches_iff (wf : s.IndexesOk) (followed : s.Followed) :
    s.Reaches m (.promoteToHot collection id vector) ↔
      s.Bystander (.promoteToHot collection id vector) := by
  obtain ⟨schemas, inHot⟩ := promoted_tiers ok
  have indexes := promoted_indexes ok
  have ownIndex (key : String) (h : HnswIndex) (dense : s.DenseIndex collection key h) :
      (s.next m (.promoteToHot collection id vector)).DenseIndex collection key h :=
    (denseIndex_adjust schemas indexes collection key h).mpr
      ⟨h, dense, (if_neg (Ne.symm dense.key_ne)).symm⟩
  constructor
  · intro reaches
    refine ⟨fun key h dense => reaches.scored collection id vector rfl key h (ownIndex key h dense), ?_⟩
    intro other h dense
    by_contra unknown
    -- it would be live in the index of a collection that has no such entity
    have here := (followed_adjust schemas indexes).mp reaches.followed other collection h dense id
    have apart : ¬ (collection, id) = (other, id) := fun same =>
      dense.key_ne (congrArg Prod.fst same)
    have fresh : h.idToIdx.contains id = false := Bool.eq_false_iff.mpr unknown
    rw [if_pos rfl, live_insert (dense.wellFormed wf), inHot] at here
    have before := (here.mp (.inr ⟨rfl, fresh⟩)).resolve_left apart
    exact unknown ((followed other collection h dense id).mpr before).1
  · rintro ⟨scored, named⟩
    constructor
    · rw [followed_adjust schemas indexes]
      intro other key h dense id'
      rw [inHot, ← followed other key h dense id']
      by_cases here : collection = key
      · subst here
        have apart : ¬ (collection, id) = (other, id') := fun same =>
          dense.key_ne (congrArg Prod.fst same)
        rw [if_pos rfl, HnswIndex.insert_known (named other h dense)]
        exact (or_iff_right apart).symm
      · rw [if_neg here]
        refine (or_iff_right_of_imp ?_).symm
        intro same
        cases same
        exact (scored key h dense).live (dense.wellFormed wf)
    · intro collection' id' vector' same key h dense
      cases same
      obtain ⟨h, before, rfl⟩ := (denseIndex_adjust schemas indexes collection key h).mp dense
      rw [if_neg (Ne.symm before.key_ne)]
      exact scored key h before

end Promote

/-! ### Runs -/

variable {m : RmpSerde} {s : IndexedTiers}

theorem reaches_iff_bystander (wf : s.IndexesOk) (followed : s.Followed) (move : IndexedMove)
    (ok : Succeeds m s move) : s.Reaches m move ↔ s.Bystander move := by
  cases move with
  | demoteSingle collection id fromTier toTier =>
    rw [← demote_followed_iff ok followed]
    exact ⟨Reaches.followed, fun after => ⟨after, nofun⟩⟩
  | promoteToHot collection id vector => exact promote_reaches_iff ok wf followed

theorem indexesOk_next (wf : s.IndexesOk) (move : IndexedMove) (ok : Succeeds m s move) :
    (s.next m move).IndexesOk := by
  cases move with
  | demoteSingle collection id fromTier toTier =>
    apply indexesOk_adjust (demoted_indexes ok) wf
    intro h wf
    split
    · exact HnswIndex.wellFormed_remove wf id
    · exact wf
  | promoteToHot collection id vector =>
    exact indexesOk_adjust (promoted_indexes ok) wf fun h wf => HnswIndex.wellFormed_insert wf id vector

/-- In a run of migrations that succeed, the dense indexes follow the hot tier exactly if no
migration is one that an index would have to follow. -/
theorem indexes_follow_iff (wf : s.IndexesOk) (followed : s.Followed) (moves : List IndexedMove)
    (succeed : ∀ p ∈ Run.taken (next m) s moves, Succeeds m p.1 p.2) :
    ((∀ t ∈ Run.visited (next m) s moves, t.Followed) ∧
        ∀ p ∈ Run.taken (next m) s moves, p.1.Reaches m p.2) ↔
      ∀ p ∈ Run.taken (next m) s moves, p.1.Bystander p.2 := by
  have decided := Run.each_iff_guarded_on (next m) (fun s => s.IndexesOk ∧ s.Followed)
    (Reaches m) (Succeeds m) Bystander moves ⟨wf, followed⟩ succeed
    (fun s move both ok reaches => ⟨indexesOk_next both.1 move ok, reaches.followed⟩)
    (fun s move both ok => reaches_iff_bystander both.1 both.2 move ok)
  rw [← decided, Run.forall_visited_iff]
  exact ⟨And.right, fun all => ⟨⟨followed, fun p there => (all p there).followed⟩, all⟩⟩

/-! ### A venue in the hot tier -/

def hotVenue : IndexedTiers where
  collections := venues.collections
  hot := (∅ : FinMap (String × LogicalId) (List UInt8)).insert ("venues", "v1") (vectorBytes [.one])
  warm := ∅
  archive := ∅
  location := shardInserted.location
  wal := []
  indexes := (∅ : FinMap String HnswIndex).insert "venues:default"
    ((HnswIndex.new 1).insert "v1" [.one])

theorem hotVenue_dense {collection key : String} {h : HnswIndex}
    (dense : hotVenue.DenseIndex collection key h) :
    collection = "venues" ∧ key = "venues:default" ∧ h = (HnswIndex.new 1).insert "v1" [.one] := by
  obtain ⟨schema, repr, found, listed, -, rfl, there⟩ := dense
  simp only [hotVenue, venues, FinMap.get_insert] at found there
  split at found
  · rename_i same
    cases found
    simp only [List.mem_singleton] at listed
    subst listed
    subst same
    have key : "venues:default" = indexKey "venues" "default" := by decide
    rw [if_pos key] at there
    exact ⟨rfl, key.symm, (Option.some.inj there).symm⟩
  · simp at found

theorem hotVenue_ok : hotVenue.IndexesOk := by
  intro key h there
  simp only [hotVenue, FinMap.get_insert] at there
  split at there
  · cases there
    exact HnswIndex.wellFormed_insert (HnswIndex.wellFormed_new 1) _ _
  · simp at there

theorem hotVenue_followed : hotVenue.Followed := by
  intro collection key h dense id
  obtain ⟨rfl, -, rfl⟩ := hotVenue_dense dense
  rw [live_insert (HnswIndex.wellFormed_new 1)]
  by_cases here : "v1" = id
  · subst here
    simp [HnswIndex.new, InHot, Tiered.readTiered, Tiered.partition, hotVenue]
  · simp [HnswIndex.new, HnswIndex.Live, InHot, Tiered.readTiered, Tiered.partition, hotVenue,
      here]

/-- Promoted once more with the vector it has, the venue is found by it. -/
theorem indexes_follow_promoted :
    (∀ t ∈ Run.visited (next (serdeOf (shard 1))) hotVenue [.promoteToHot "venues" "v1" [.one]],
        t.Followed) ∧
      ∀ p ∈ Run.taken (next (serdeOf (shard 1))) hotVenue [.promoteToHot "venues" "v1" [.one]],
        p.1.Reaches (serdeOf (shard 1)) p.2 := by
  refine (indexes_follow_iff hotVenue_ok hotVenue_followed _ ?_).mpr ?_
  · simp only [Run.taken, List.forall_mem_singleton]
    unfold Succeeds
    decide +kernel
  · simp only [Run.taken, List.forall_mem_singleton]
    refine ⟨fun key h dense => ?_, fun other h dense => ?_⟩
    · obtain ⟨-, -, rfl⟩ := hotVenue_dense dense
      exact ⟨0, by decide, by decide, by decide⟩
    · obtain ⟨-, named, -⟩ := hotVenue_dense dense
      exact absurd named (by decide)

/-- Demoted to the warm tier, the venue is still live in its index. -/
theorem demoted_found : ¬ ∀ (m : RmpSerde) (s : IndexedTiers) (moves : List IndexedMove),
    s.IndexesOk → s.Followed → (∀ p ∈ Run.taken (next m) s moves, Succeeds m p.1 p.2) →
      (∀ t ∈ Run.visited (next m) s moves, t.Followed) ∧
        ∀ p ∈ Run.taken (next m) s moves, p.1.Reaches m p.2 := by
  intro always
  have succeed : ∀ p ∈ Run.taken (next (serdeOf (shard 1))) hotVenue
      [.demoteSingle "venues" "v1" .fjall .nvme], Succeeds (serdeOf (shard 1)) p.1 p.2 := by
    simp only [Run.taken, List.forall_mem_singleton]
    unfold Succeeds
    decide +kernel
  have reaches := (always (serdeOf (shard 1)) hotVenue _ hotVenue_ok hotVenue_followed succeed).2
  simp only [Run.taken, List.forall_mem_singleton] at reaches succeed
  have untouched := (demote_followed_iff succeed hotVenue_followed).mp reaches.followed
  refine untouched.1 rfl "venues:default" ((HnswIndex.new 1).insert "v1" [.one]) ?_
  exact ⟨_, _, by simp [hotVenue, venues]; rfl, List.mem_singleton.mpr rfl, rfl,
    by decide, by simp [hotVenue]⟩

end IndexedTiers
end TronDB.Routing
