import TronDB.Core.IndexKeys
import TronDB.Core.Rows

/-! When FETCH through a field index returns what the full scan returns. -/
namespace TronDB.Core
open Bytes

/-- The declared indexes of a collection are open, and each lists the stored entities that
have an encodable value for every indexed field, under their current values. -/
structure IndexesExact (store : Store) (fieldIndexes : FieldIndexes) (collection : String)
    (schema : CollectionSchema) : Prop where
  stored : store.collections[collection]? = some schema
  opened : ∀ idx ∈ schema.indexes,
    fieldIndexes[(collection, idx.name)]? = some (schema.fieldTypes idx)
  exact : ∀ idx ∈ schema.indexes, ∀ (key : List UInt8) (id : LogicalId),
    (store.indexPartition collection idx.name)[key]? = some id ↔
      ∃ e, store.entities[(collection, id)]? = some e ∧
        entryKey (schema.fieldTypes idx) e = some key

/-- The rows of the scan, in some order, and no error unless the scan has one. -/
def ReturnsScan (indexed scan : Except EngineError QueryResult) : Prop :=
  ∀ r, scan = .ok r → ∃ r', indexed = .ok r' ∧ r'.rows.Perm r.rows

/-- What an index of the field lists under the literal. -/
def Entity.foundUnder (e : Entity) (indexed : String) (lit : Value) : Bool :=
  (e.metadata[indexed]?).any fun v => lit.takenFor v e.id

/-- The index has one field, the literal has its type, and no visible entity has a value that is
confused with the literal. Where the clause is about the id, or the one field that the index has
left is another, two different values have to be the literal of the same entities. -/
def LookupSuits (store : Store) (types : List (String × FieldType)) (p : FetchPlan)
    (field : String) (lit : Literal) : Prop :=
  ∃ indexed t, types = [(indexed, t)] ∧ (literalToValue lit).hasType t = true ∧
    ∀ e ∈ store.partition p.collection, e.visible p.temporal →
      if indexed = field ∧ field ≠ "id" then
        ∀ v, e.metadata[field]? = some v → ¬ (literalToValue lit).confused v e.id
      else e.foundUnder indexed (literalToValue lit) = entityMatches e (.eq field lit)

/-- The bounds of the clause are numbers of the type, in these places. -/
def BoundsFit (clause : WhereClause) (t : FieldType) (m n : Int) : Prop :=
  ∃ lower upper, rangeBoundsFromClause clause = ([lower], [upper]) ∧
    lower.hasType t = true ∧ lower.place = some m ∧ upper.hasType t = true ∧ upper.place = some n

/-- The values of the other fields begin with as many bytes `0xFF` as are put behind an upper
bound. It takes at least nine of them, eight of which are the largest integer. -/
def Entity.overflows (e : Entity) (others : List (String × FieldType)) : Prop :=
  ∃ bytes, encodeCompoundKey (indexedValues others e) (others.map Prod.snd) = .ok bytes ∧
    FieldIndex.rangePadding <+: bytes

/-- The index has a field whose type both bounds have, whichever field they are about, and every
visible entity that matches has values for all fields of the index and a number between the bounds
in that one. -/
def RangeSuits (store : Store) (types : List (String × FieldType)) (p : FetchPlan)
    (clause : WhereClause) : Prop :=
  types = [] ∨ ∃ indexed t others m n, types = (indexed, t) :: others ∧ BoundsFit clause t m n ∧
    ∀ e ∈ store.partition p.collection, e.visible p.temporal → entityMatches e clause →
      e.listed types ∧ ∃ v k, e.metadata[indexed]? = some v ∧ v.place = some k ∧ m ≤ k ∧ k ≤ n ∧
        (k = n → ¬ e.overflows others)

/-- What the plan's strategy needs to return what the full scan returns: the scan is over
the cost budget itself, or the index is within it and suits the filter. -/
def IndexSuits (store : Store) (fieldIndexes : FieldIndexes) (size : Nat) (p : FetchPlan) : Prop :=
  overBudget p.hints (fullScanAcu size) = true ∨
  match p.strategy with
  | .fullScan => True
  | .fieldIndexLookup index =>
    overBudget p.hints fieldIndexLookupAcu = false ∧
      ∃ types field lit, fieldIndexes[(p.collection, index)]? = some types ∧
        p.filter = some (.eq field lit) ∧ LookupSuits store types p field lit
  | .fieldIndexRange index =>
    overBudget p.hints fieldIndexLookupAcu = false ∧
      ∃ types clause, fieldIndexes[(p.collection, index)]? = some types ∧
        p.filter = some clause ∧ RangeSuits store types p clause

/-- A row tells whether an Eq clause chooses its entity: it shows the id, or the field. -/
def RowsTell (store : Store) (s : FetchStatement) : Prop :=
  s.fields ≠ .all ∨ (∀ e ∈ store.partition s.collection, e.metadata["id"]? = none) ∨
    ∀ field lit, s.filter = some (.eq field lit) →
      field ∉ ["id", "valid_from", "valid_to", "tx_time"]

/-! ### What the keys of an index select -/

section Selection
variable {store : Store} {types : List (String × FieldType)} {p : FetchPlan}

/-- Among the visible entities those listed under a key that starts with the literal are those
that match. -/
def LookupSelects (store : Store) (types : List (String × FieldType)) (p : FetchPlan)
    (field : String) (lit : Literal) : Prop :=
  types.length = 1 ∧ ∃ start, encodeCompoundKey [literalToValue lit] (types.map Prod.snd) = .ok start ∧
    ∀ e ∈ store.partition p.collection, e.visible p.temporal →
      (entryKey types e).any (fun key => start.isPrefixOf key) = entityMatches e (.eq field lit)

/-- Every visible entity that matches is listed under a key between the bounds. -/
def RangeSelects (store : Store) (types : List (String × FieldType)) (p : FetchPlan)
    (clause : WhereClause) : Prop :=
  ∃ fromKey toKey,
    encodeCompoundKey (rangeBoundsFromClause clause).1 (types.map Prod.snd) = .ok fromKey ∧
    encodeCompoundKey (rangeBoundsFromClause clause).2 (types.map Prod.snd) = .ok toKey ∧
    ∀ e ∈ store.partition p.collection, e.visible p.temporal → entityMatches e clause →
      (entryKey types e).any
        (FieldIndex.inRange fromKey (toKey ++ FieldIndex.rangePadding)) = true

theorem found_iff {indexed : String} {t : FieldType} {lit : Value} {start : List UInt8}
    (encoded : encodeSortable lit t = .ok start) (e : Entity) :
    (entryKey [(indexed, t)] e).any (fun key => start.isPrefixOf key) = e.foundUnder indexed lit := by
  have typed : lit.hasType t = true := (hasType_iff lit t).mpr ⟨start, encoded⟩
  rw [Bool.eq_iff_iff, Option.any_eq_true, Entity.foundUnder, Option.any_eq_true]
  constructor
  · rintro ⟨key, keyed, starts⟩
    obtain ⟨v, code, tail, value, encoded', rest, rfl⟩ := (entryKey_cons _ _ _ _ _).mp keyed
    cases rest
    exact ⟨v, value, (starts_iff e.id encoded encoded').mp (List.isPrefixOf_iff_prefix.mp starts)⟩
  · rintro ⟨v, value, taken⟩
    obtain ⟨code, encoded'⟩ := (hasType_iff v t).mp (takenFor_typed typed taken)
    refine ⟨code ++ 0 :: utf8 e.id, ?_, ?_⟩
    · exact (entryKey_cons _ _ _ _ _).mpr ⟨v, code, _, value, encoded', entryKey_nil e, rfl⟩
    · exact List.isPrefixOf_iff_prefix.mpr ((starts_iff e.id encoded encoded').mpr taken)

/-- Of the values in the field of the clause the lookup selects those that equal the literal,
unless one is confused with it. -/
theorem foundUnder_eq_iff {field : String} (other : field ≠ "id") (lit : Literal) (e : Entity) :
    e.foundUnder field (literalToValue lit) = entityMatches e (.eq field lit) ↔
      ∀ v, e.metadata[field]? = some v → ¬ (literalToValue lit).confused v e.id := by
  unfold entityMatches Entity.foundUnder Entity.fieldIs
  rw [if_neg other]
  cases e.metadata[field]? with
  | none => simp
  | some v => simp [Value.confused]

theorem lookupSelects_iff (field : String) (lit : Literal) :
    LookupSelects store types p field lit ↔ LookupSuits store types p field lit := by
  have selected {indexed : String} {t : FieldType} {start : List UInt8}
      (encoded : encodeSortable (literalToValue lit) t = .ok start) (e : Entity) :
      ((entryKey [(indexed, t)] e).any (fun key => start.isPrefixOf key) =
          entityMatches e (.eq field lit)) ↔
        if indexed = field ∧ field ≠ "id" then
          ∀ v, e.metadata[field]? = some v → ¬ (literalToValue lit).confused v e.id
        else e.foundUnder indexed (literalToValue lit) = entityMatches e (.eq field lit) := by
    rw [found_iff encoded]
    split
    · rename_i own
      rw [own.1]
      exact foundUnder_eq_iff own.2 lit e
    · exact .rfl
  constructor
  · rintro ⟨single, start, encoded, each⟩
    obtain ⟨⟨indexed, t⟩, rfl⟩ := List.length_eq_one_iff.mp single
    rw [List.map_cons, encodeCompoundKey_single] at encoded
    refine ⟨indexed, t, rfl, (hasType_iff _ t).mpr ⟨start, encoded⟩, fun e stored visible => ?_⟩
    exact (selected encoded e).mp (each e stored visible)
  · rintro ⟨indexed, t, rfl, typed, each⟩
    obtain ⟨start, encoded⟩ := (hasType_iff _ t).mp typed
    refine ⟨rfl, start, ?_, fun e stored visible => ?_⟩
    · rw [List.map_cons, encodeCompoundKey_single, encoded]
    · exact (selected encoded e).mpr (each e stored visible)

theorem valueGt_number {v w : Value} (greater : valueGt v w = true) (number : w.place.isSome) :
    v.place.isSome := by
  cases v <;> cases w <;> first | rfl | cases greater | cases number

theorem valueLt_number {v w : Value} (less : valueLt v w = true) (number : w.place.isSome) :
    v.place.isSome := by
  cases v <;> cases w <;> first | rfl | cases less | cases number

/-- One of the bounds is a number: the open end of the last comparison, or what replaced it. -/
theorem bounds_number (clause : WhereClause) :
    ∃ lower upper, rangeBoundsFromClause clause = ([lower], [upper]) ∧
      (lower.place.isSome ∨ upper.place.isSome) := by
  induction clause with
  | gt field lit => exact ⟨_, _, rfl, .inr rfl⟩
  | gte field lit => exact ⟨_, _, rfl, .inr rfl⟩
  | lt field lit => exact ⟨_, _, rfl, .inl rfl⟩
  | lte field lit => exact ⟨_, _, rfl, .inl rfl⟩
  | and left right ihLeft ihRight =>
    obtain ⟨lower, upper, leftBounds, -⟩ := ihLeft
    obtain ⟨lower', upper', rightBounds, number⟩ := ihRight
    refine ⟨if valueGt lower lower' then lower else lower',
      if valueLt upper upper' then upper else upper', ?_, ?_⟩
    · unfold rangeBoundsFromClause
      rw [leftBounds, rightBounds]
      unfold pickTighterLower pickTighterUpper
      dsimp only
      split <;> split <;> rfl
    · refine number.imp (fun number => ?_) (fun number => ?_)
      · split
        · rename_i greater
          exact valueGt_number greater number
        · exact number
      · split
        · rename_i less
          exact valueLt_number less number
        · exact number
  | _ => exact ⟨_, _, rfl, .inl rfl⟩

theorem number_iff {v : Value} {t : FieldType} (typed : v.hasType t = true) :
    v.place.isSome = true ↔ t = .int ∨ t = .float := by
  cases v <;> cases t <;> simp_all [Value.place, Value.hasType]

theorem place_of_type {v w : Value} {t : FieldType} (number : v.place.isSome) (typed : v.hasType t = true)
    (typed' : w.hasType t = true) : ∃ k, w.place = some k :=
  Option.isSome_iff_exists.mp ((number_iff typed').mpr ((number_iff typed).mp number))

theorem between_iff {indexed : String} {t : FieldType} {others : List (String × FieldType)}
    {lower upper : Value} {m n : Int} (typed : lower.hasType t = true) (number : lower.place = some m)
    (typed' : upper.hasType t = true) (number' : upper.place = some n) (e : Entity) :
    (entryKey ((indexed, t) :: others) e).any (FieldIndex.inRange (beBytes 8 lower.word.toNat)
        (beBytes 8 upper.word.toNat ++ FieldIndex.rangePadding)) = true ↔
      e.listed ((indexed, t) :: others) ∧ ∃ v k, e.metadata[indexed]? = some v ∧ v.place = some k ∧
        m ≤ k ∧ k ≤ n ∧ (k = n → ¬ e.overflows others) := by
  -- the key of a listed entity, in parts
  have parts {v : Value} {code tail : List UInt8} {k : Int} (encoded : encodeSortable v t = .ok code)
      (place : v.place = some k) (rest : entryKey others e = some tail) :
      (FieldIndex.inRange (beBytes 8 lower.word.toNat)
          (beBytes 8 upper.word.toNat ++ FieldIndex.rangePadding) (code ++ tail) = true ↔
        m ≤ k ∧ k ≤ n ∧ (k = n → ¬ e.overflows others)) := by
    have own : v.hasType t = true := (hasType_iff v t).mpr ⟨code, encoded⟩
    obtain ⟨bytes, compound, rfl⟩ := entryKey_parts rest
    have overflow : e.overflows others ↔ FieldIndex.rangePadding <+: bytes := by
      constructor
      · rintro ⟨bytes', compound', starts⟩
        cases compound.symm.trans compound'
        exact starts
      · exact fun starts => ⟨bytes, compound, starts⟩
    cases encoded.symm.trans (encode_number own place)
    have above := word_le_iff typed own number place
    have below := word_le_iff own typed' place number'
    have below' := word_le_iff typed' own number' place
    rw [inRange_iff, above, below, overflow, ← UInt64.toNat_inj]
    have same : v.word.toNat = upper.word.toNat ↔ k = n := by omega
    rw [same]
  rw [Option.any_eq_true]
  constructor
  · rintro ⟨key, keyed, within⟩
    refine ⟨(listed_iff _ e).mpr ⟨key, keyed⟩, ?_⟩
    obtain ⟨v, code, tail, value, encoded, rest, rfl⟩ := (entryKey_cons _ _ _ _ _).mp keyed
    have own : v.hasType t = true := (hasType_iff v t).mpr ⟨code, encoded⟩
    obtain ⟨k, place⟩ := place_of_type (number ▸ rfl) typed own
    exact ⟨v, k, value, place, (parts encoded place rest).mp within⟩
  · rintro ⟨listed, v, k, value, place, within⟩
    obtain ⟨key, keyed⟩ := (listed_iff _ e).mp listed
    obtain ⟨v', code, tail, value', encoded, rest, rfl⟩ := (entryKey_cons _ _ _ _ _).mp keyed
    cases value.symm.trans value'
    exact ⟨_, keyed, (parts encoded place rest).mpr within⟩

theorem rangeSelects_iff (clause : WhereClause) :
    RangeSelects store types p clause ↔ RangeSuits store types p clause := by
  cases types with
  | nil =>
    refine iff_of_true ⟨[], [], ?_, ?_, fun e _ _ _ => ?_⟩ (.inl rfl)
    · cases (rangeBoundsFromClause clause).1 <;> rfl
    · cases (rangeBoundsFromClause clause).2 <;> rfl
    · have padded := (padding_iff [] (utf8 e.id)).mpr (by decide)
      have first : (compare [] (0 :: utf8 e.id)).isLE = true := rfl
      rw [entryKey_nil, Option.any_some, FieldIndex.inRange, first]
      exact padded
  | cons field others =>
    obtain ⟨indexed, t⟩ := field
    obtain ⟨lower, upper, bounds, number⟩ := bounds_number clause
    constructor
    · rintro ⟨fromKey, toKey, lowerKey, upperKey, each⟩
      rw [bounds, List.map_cons, encodeCompoundKey_single] at lowerKey upperKey
      have typed : lower.hasType t = true := (hasType_iff lower t).mpr ⟨_, lowerKey⟩
      have typed' : upper.hasType t = true := (hasType_iff upper t).mpr ⟨_, upperKey⟩
      obtain ⟨m, place⟩ : ∃ m, lower.place = some m :=
        number.elim (fun here => place_of_type here typed typed) fun there => place_of_type there typed' typed
      obtain ⟨n, place'⟩ : ∃ n, upper.place = some n :=
        place_of_type (place ▸ rfl) typed typed'
      cases lowerKey.symm.trans (encode_number typed place)
      cases upperKey.symm.trans (encode_number typed' place')
      refine .inr ⟨indexed, t, others, m, n, rfl,
        ⟨lower, upper, bounds, typed, place, typed', place'⟩, fun e stored visible chosen => ?_⟩
      exact (between_iff typed place typed' place' e).mp (each e stored visible chosen)
    · rintro (none_ | ⟨_, _, _, m, n, same, ⟨lower', upper', bounds', typed, place, typed', place'⟩, each⟩)
      · cases none_
      cases same
      refine ⟨beBytes 8 lower'.word.toNat, beBytes 8 upper'.word.toNat, ?_, ?_,
        fun e stored visible chosen => ?_⟩
      · rw [bounds', List.map_cons, encodeCompoundKey_single]
        exact encode_number typed place
      · rw [bounds', List.map_cons, encodeCompoundKey_single]
        exact encode_number typed' place'
      · exact (between_iff typed place typed' place' e).mpr (each e stored visible chosen)

end Selection

/-! ### The entities an index names -/

section Hits
variable {store : Store} {collection : String} {types : List (String × FieldType)}
  {partition : FinMap (List UInt8) LogicalId}

/-- The entities read from the listed keys that pass the test. -/
def hits (store : Store) (collection : String) (partition : FinMap (List UInt8) LogicalId)
    (chosen : List UInt8 → Bool) : List Entity :=
  readIds store collection ((partition.toList.filter fun kv => chosen kv.1).map Prod.snd)

theorem get_ok (present : store.hasCollection collection = true) (id : LogicalId) (e : Entity) :
    (store.get collection id).toOption = some e ↔ store.entities[(collection, id)]? = some e := by
  simp only [Store.get, present, if_true]
  cases found : store.entities[(collection, id)]? <;> simp [Except.toOption]

theorem hits_perm (present : store.hasCollection collection = true)
    (exact : ∀ key id, partition[key]? = some id ↔
      ∃ e, store.entities[(collection, id)]? = some e ∧ entryKey types e = some key)
    (chosen : List UInt8 → Bool) :
    (hits store collection partition chosen).Perm
      ((store.partition collection).filter fun e => (entryKey types e).any chosen) := by
  have listed (kv : List UInt8 × LogicalId)
      (h : kv ∈ partition.toList.filter fun kv => chosen kv.1) :
      chosen kv.1 = true ∧ ∃ e, store.entities[(collection, kv.2)]? = some e ∧
        entryKey types e = some kv.1 := by
    obtain ⟨mem, passes⟩ := List.mem_filter.mp h
    exact ⟨passes, (exact kv.1 kv.2).mp ((FinMap.mem_toList partition kv.1 kv.2).mp mem)⟩
  -- an id is listed under one key, the key of its entity
  have ids : ((partition.toList.filter fun kv => chosen kv.1).map Prod.snd).Nodup := by
    refine List.Nodup.map_on ?_ ?_
    · intro a ha b hb same
      obtain ⟨_, e, stored, key⟩ := listed a ha
      obtain ⟨_, e', stored', key'⟩ := listed b hb
      rw [same, stored'] at stored
      cases stored
      exact Prod.ext (Option.some.inj (key.symm.trans key')) same
    · exact (List.Nodup.of_map _ (FinMap.nodup_toList partition)).filter _
  refine (List.perm_ext_iff_of_nodup ?_ ?_).mpr fun e => ?_
  · refine ids.filterMap fun id id' e he he' => ?_
    rw [Option.mem_def, get_ok present] at he he'
    exact (store.keyed _ _ _ he).symm.trans (store.keyed _ _ _ he')
  · exact (List.Nodup.of_map _ (store.nodup_partition collection)).filter _
  · simp only [hits, readIds, List.mem_filterMap, List.mem_map, List.mem_filter,
      Store.mem_partition, get_ok present]
    constructor
    · rintro ⟨id, ⟨kv, h, rfl⟩, stored⟩
      obtain ⟨passes, e', stored', key⟩ := listed kv (List.mem_filter.mpr h)
      rw [stored'] at stored
      cases stored
      rw [store.keyed _ _ _ stored']
      exact ⟨stored', by simp [key, passes]⟩
    · rintro ⟨stored, passes⟩
      cases key : entryKey types e with
      | none => simp [key] at passes
      | some k =>
        simp only [key, Option.any_some] at passes
        refine ⟨e.id, ⟨(k, e.id), ⟨?_, passes⟩, rfl⟩, stored⟩
        exact (FinMap.mem_toList _ _ _).mpr ((exact k e.id).mpr ⟨e, stored, key⟩)

end Hits

/-! ### The rows of the three strategies -/

theorem sortRows_perm (rows : List Row) (orderBy : List OrderByClause) :
    (sortRows rows orderBy).Perm rows := by
  unfold sortRows
  split
  · exact .refl rows
  · exact List.perm_insertionSort _ rows

theorem rows_result (p : FetchPlan) (unlimited : p.limit = none) (entities : List Entity)
    (scanned : Nat) (tier : String) :
    (p.result entities scanned tier).rows.Perm (entities.map fun e => entityToRow e p.fields) := by
  simpa [FetchPlan.result, unlimited] using sortRows_perm _ p.orderBy

theorem scan_ok (store : Store) (p : FetchPlan) (present : store.hasCollection p.collection = true)
    (unlimited : p.limit = none) :
    p.scan store = .ok (p.result
      ((store.partition p.collection).filter fun e => p.matches e && e.visible p.temporal)
      (store.partition p.collection).length "Fjall") := by
  simp [FetchPlan.scan, Store.scan, present, unlimited, Bind.bind, Except.bind]

/-- The plan of the same statement under FORCE_FULL_SCAN. -/
def FetchStatement.forced (s : FetchStatement) : FetchStatement :=
  { s with hints := .forceFullScan :: s.hints }

theorem execute_forced (store : Store) (fieldIndexes : FieldIndexes) (size : Nat)
    (schemas : FinMap String CollectionSchema) (s : FetchStatement)
    (present : store.hasCollection s.collection = true) (unlimited : s.limit = none) :
    executeFetch store fieldIndexes size (planFetch schemas s.forced) =
      if overBudget s.hints (fullScanAcu size) then
        .error (.acuBudgetExceeded (fullScanAcu size) ((extractMaxAcu s.hints).getD ⟨0⟩))
      else (planFetch schemas s).scan store := by
  have plan : planFetch schemas s.forced =
      { planFetch schemas s with
        strategy := .fullScan, hints := .forceFullScan :: s.hints } := by
    simp [planFetch, FetchStatement.forced]
  have same : (planFetch schemas s.forced).scan store = (planFetch schemas s).scan store := by
    rw [scan_ok store _ present unlimited, scan_ok store _ present unlimited, plan]
    rfl
  have strategy : (planFetch schemas s.forced).strategy = .fullScan := by rw [plan]
  have hints : (planFetch schemas s.forced).hints = .forceFullScan :: s.hints := by rw [plan]
  have budget : extractMaxAcu (.forceFullScan :: s.hints) = extractMaxAcu s.hints := rfl
  unfold executeFetch checkAcuBudget
  simp only [strategy, hints, overBudget, budget, same]
  by_cases exceeds : Option.any (fun budget => (fullScanAcu size).gt budget) (extractMaxAcu s.hints) <;>
    simp only [exceeds, if_true] <;> rfl

section Agreement
variable {store : Store} {p : FetchPlan} {types : List (String × FieldType)}

theorem returnsScan_of_perm (present : store.hasCollection p.collection = true)
    (unlimited : p.limit = none) (entities : List Entity) (scanned : Nat) (tier : String)
    (same : entities.Perm
      ((store.partition p.collection).filter fun e => p.matches e && e.visible p.temporal)) :
    ReturnsScan (.ok (p.result entities scanned tier)) (p.scan store) := by
  intro r hr
  rw [scan_ok store p present unlimited] at hr
  cases hr
  refine ⟨_, rfl, ?_⟩
  calc (p.result entities scanned tier).rows.Perm (entities.map fun e => entityToRow e p.fields) :=
        rows_result p unlimited entities scanned tier
    _ |>.Perm _ := same.map _
    _ |>.Perm _ := (rows_result p unlimited _ _ _).symm

theorem rows_of_returnsScan (present : store.hasCollection p.collection = true)
    (unlimited : p.limit = none) (entities : List Entity) (scanned : Nat) (tier : String)
    (same : ReturnsScan (.ok (p.result entities scanned tier)) (p.scan store)) :
    (entities.map fun e => entityToRow e p.fields).Perm
      (((store.partition p.collection).filter fun e => p.matches e && e.visible p.temporal).map
        fun e => entityToRow e p.fields) := by
  obtain ⟨r', hr', rows⟩ := same _ (scan_ok store p present unlimited)
  cases hr'
  exact (rows_result p unlimited entities scanned tier).symm.trans
    (rows.trans (rows_result p unlimited _ _ _))

variable {partition : FinMap (List UInt8) LogicalId}

theorem lookup_ok (store : Store) (partition : FinMap (List UInt8) LogicalId)
    (field : String) (lit : Literal) (eq : p.filter = some (.eq field lit))
    (single : types.length = 1) (start : List UInt8)
    (encoded : encodeCompoundKey [literalToValue lit] (types.map Prod.snd) = .ok start) :
    ∃ scanned, p.lookup store ⟨partition, types⟩ =
      .ok (p.result ((hits store p.collection partition fun key => start.isPrefixOf key).filter
        fun e => e.visible p.temporal) scanned "FieldIndex") := by
  simp only [FetchPlan.lookup, eq, FieldIndex.lookupEq, FieldIndex.types, single, encoded]
  exact ⟨_, rfl⟩

theorem lookup_cases (store : Store) (partition : FinMap (List UInt8) LogicalId)
    (types : List (String × FieldType)) (field : String) (lit : Literal)
    (eq : p.filter = some (.eq field lit)) :
    (types.length = 1 ∧ ∃ start,
      encodeCompoundKey [literalToValue lit] (types.map Prod.snd) = .ok start) ∨
    ∃ e, p.lookup store ⟨partition, types⟩ = .error e := by
  by_cases single : types.length = 1
  · cases encoded : encodeCompoundKey [literalToValue lit] (types.map Prod.snd) with
    | ok start => exact .inl ⟨single, start, rfl⟩
    | error e =>
      refine .inr ⟨e, ?_⟩
      simp only [FetchPlan.lookup, eq, FieldIndex.lookupEq, FieldIndex.types, single, encoded]
      rfl
  · have several : [literalToValue lit].length ≠ types.length := fun h => single h.symm
    refine .inr ?_
    simp only [FetchPlan.lookup, eq, FieldIndex.lookupEq, if_pos several]
    exact ⟨_, rfl⟩

theorem not_returnsScan_error (present : store.hasCollection p.collection = true)
    (unlimited : p.limit = none) (e : EngineError) :
    ¬ ReturnsScan (.error e) (p.scan store) := by
  intro same
  obtain ⟨_, h, _⟩ := same _ (scan_ok store p present unlimited)
  cases h

theorem matches_eq (clause : WhereClause) (eq : p.filter = some clause) (e : Entity) :
    p.matches e = entityMatches e clause := by
  simp [FetchPlan.matches, eq]

theorem filter_and (l : List Entity) (f g : Entity → Bool) :
    (l.filter f).filter g = l.filter fun e => f e && g e := by
  simp [List.filter_filter, Bool.and_comm]

/-- Of two filters that let equally many pass the narrower one is no narrower. -/
theorem filters_agree {α : Type*} {l : List α} {f g : α → Bool} (narrow : ∀ a ∈ l, f a = true → g a = true)
    (length : (l.filter f).length = (l.filter g).length) : ∀ a ∈ l, f a = g a := by
  have both : (l.filter g).filter f = l.filter f := by
    rw [List.filter_filter]
    refine List.filter_congr fun a among => ?_
    cases chosen : f a with
    | false => rfl
    | true => rw [narrow a among chosen]; rfl
  rw [← both, List.length_filter_eq_length_iff] at length
  intro a among
  rw [Bool.eq_iff_iff]
  exact ⟨narrow a among, fun passes => length a (List.mem_filter.mpr ⟨among, passes⟩)⟩

theorem lookup_iff (present : store.hasCollection p.collection = true)
    (unlimited : p.limit = none) (field : String) (lit : Literal)
    (eq : p.filter = some (.eq field lit))
    (exact : ∀ key id, partition[key]? = some id ↔
      ∃ e, store.entities[(p.collection, id)]? = some e ∧ entryKey types e = some key) :
    (LookupSelects store types p field lit →
      ReturnsScan (p.lookup store ⟨partition, types⟩) (p.scan store)) ∧
    ((∀ e ∈ store.partition p.collection, ∀ e' ∈ store.partition p.collection,
        entityToRow e p.fields = entityToRow e' p.fields →
          entityMatches e (.eq field lit) = entityMatches e' (.eq field lit)) →
      ReturnsScan (p.lookup store ⟨partition, types⟩) (p.scan store) →
        LookupSelects store types p field lit) := by
  have found (start : List UInt8) :
      ((hits store p.collection partition fun key => start.isPrefixOf key).filter
        fun e => e.visible p.temporal).Perm
      ((store.partition p.collection).filter fun e =>
        (entryKey types e).any (fun key => start.isPrefixOf key) && e.visible p.temporal) := by
    rw [← filter_and]
    exact (hits_perm present exact fun key => start.isPrefixOf key).filter _
  constructor
  · rintro ⟨single, start, encoded, each⟩
    obtain ⟨scanned, result⟩ := lookup_ok store partition
      field lit eq single start encoded
    rw [result]
    refine returnsScan_of_perm present unlimited _ _ _ ((found start).trans (.of_eq ?_))
    refine List.filter_congr fun e stored => ?_
    cases visible : e.visible p.temporal
    · simp
    · rw [each e stored visible, matches_eq _ eq]
  · intro told same
    rcases lookup_cases store partition types
      field lit eq with ⟨single, start, encoded⟩ | ⟨e, failed⟩
    · obtain ⟨scanned, result⟩ := lookup_ok store partition
        field lit eq single start encoded
      rw [result] at same
      have rows := rows_of_returnsScan present unlimited _ _ _ same
      have rows := ((found start).symm.map fun e => entityToRow e p.fields).trans rows
      refine ⟨single, start, encoded, ?_⟩
      -- what is listed under the literal has the row of a match, and is one itself
      have among : ∀ e ∈ store.partition p.collection,
          ((entryKey types e).any (fun key => start.isPrefixOf key) && e.visible p.temporal) = true →
            (p.matches e && e.visible p.temporal) = true := by
        intro e stored chosen
        have row := rows.subset (List.mem_map_of_mem (List.mem_filter.mpr ⟨stored, chosen⟩))
        obtain ⟨e', mem, sameRow⟩ := List.mem_map.mp row
        obtain ⟨stored', passes⟩ := List.mem_filter.mp mem
        rw [Bool.and_eq_true] at chosen passes ⊢
        rw [matches_eq _ eq, told e stored e' stored' sameRow.symm, ← matches_eq _ eq]
        exact ⟨passes.1, chosen.2⟩
      have all := filters_agree among (by simpa using rows.length_eq)
      intro e stored visible
      simpa [visible, matches_eq _ eq] using all e stored
    · rw [failed] at same
      exact absurd same (not_returnsScan_error present unlimited e)

theorem range_ok (store : Store) (partition : FinMap (List UInt8) LogicalId)
    (clause : WhereClause) (eq : p.filter = some clause) (fromKey toKey : List UInt8)
    (lower : encodeCompoundKey (rangeBoundsFromClause clause).1 (types.map Prod.snd) = .ok fromKey)
    (upper : encodeCompoundKey (rangeBoundsFromClause clause).2 (types.map Prod.snd) = .ok toKey) :
    ∃ scanned, p.range store ⟨partition, types⟩ =
      .ok (p.result ((hits store p.collection partition
          (FieldIndex.inRange fromKey (toKey ++ FieldIndex.rangePadding))).filter
        fun e => p.matches e && e.visible p.temporal) scanned "FieldIndex") := by
  simp only [FetchPlan.range, eq, FieldIndex.lookupRange, FieldIndex.types, lower, upper]
  exact ⟨_, rfl⟩

theorem range_cases (store : Store) (partition : FinMap (List UInt8) LogicalId)
    (types : List (String × FieldType)) (clause : WhereClause) (eq : p.filter = some clause) :
    (∃ fromKey toKey,
      encodeCompoundKey (rangeBoundsFromClause clause).1 (types.map Prod.snd) = .ok fromKey ∧
      encodeCompoundKey (rangeBoundsFromClause clause).2 (types.map Prod.snd) = .ok toKey) ∨
    ∃ e, p.range store ⟨partition, types⟩ = .error e := by
  cases lower : encodeCompoundKey (rangeBoundsFromClause clause).1 (types.map Prod.snd) with
  | error e =>
    refine .inr ⟨e, ?_⟩
    simp only [FetchPlan.range, eq, FieldIndex.lookupRange, FieldIndex.types, lower]
    rfl
  | ok fromKey =>
    cases upper : encodeCompoundKey (rangeBoundsFromClause clause).2 (types.map Prod.snd) with
    | ok toKey => exact .inl ⟨fromKey, toKey, rfl, rfl⟩
    | error e =>
      refine .inr ⟨e, ?_⟩
      simp only [FetchPlan.range, eq, FieldIndex.lookupRange, FieldIndex.types, lower, upper]
      rfl

theorem range_iff (present : store.hasCollection p.collection = true)
    (unlimited : p.limit = none) (clause : WhereClause) (eq : p.filter = some clause)
    (exact : ∀ key id, partition[key]? = some id ↔
      ∃ e, store.entities[(p.collection, id)]? = some e ∧ entryKey types e = some key) :
    ReturnsScan (p.range store ⟨partition, types⟩) (p.scan store) ↔
      RangeSelects store types p clause := by
  have found (fromKey toKey : List UInt8) :
      ((hits store p.collection partition
          (FieldIndex.inRange fromKey (toKey ++ FieldIndex.rangePadding))).filter
        fun e => p.matches e && e.visible p.temporal).Perm
      (((store.partition p.collection).filter fun e => p.matches e && e.visible p.temporal).filter
        fun e => (entryKey types e).any
          (FieldIndex.inRange fromKey (toKey ++ FieldIndex.rangePadding))) := by
    refine ((hits_perm present exact _).filter _).trans (.of_eq ?_)
    rw [filter_and, filter_and]
    exact List.filter_congr fun e _ => Bool.and_comm _ _
  constructor
  · intro same
    rcases range_cases store partition types
      clause eq with ⟨fromKey, toKey, lower, upper⟩ | ⟨e, failed⟩
    · obtain ⟨scanned, result⟩ := range_ok store partition
        clause eq fromKey toKey lower upper
      rw [result] at same
      -- the hits are among the matches, so they are all of them when there are as many
      have rows := (rows_of_returnsScan present unlimited _ _ _ same).length_eq
      rw [List.length_map, List.length_map, (found fromKey toKey).length_eq,
        List.length_filter_eq_length_iff] at rows
      refine ⟨fromKey, toKey, lower, upper, fun e stored visible chosen => ?_⟩
      exact rows e (List.mem_filter.mpr ⟨stored, by simp [matches_eq _ eq, visible, chosen]⟩)
    · rw [failed] at same
      exact absurd same (not_returnsScan_error present unlimited e)
  · rintro ⟨fromKey, toKey, lower, upper, each⟩
    obtain ⟨scanned, result⟩ := range_ok store partition
      clause eq fromKey toKey lower upper
    rw [result]
    refine returnsScan_of_perm present unlimited _ _ _ ((found fromKey toKey).trans (.of_eq ?_))
    refine List.filter_eq_self.mpr fun e passes => ?_
    obtain ⟨stored, passes⟩ := List.mem_filter.mp passes
    rw [Bool.and_eq_true, matches_eq _ eq] at passes
    exact each e stored passes.2 passes.1

theorem matches_of_row {s : FetchStatement} (told : RowsTell store s) {field : String} {lit : Literal}
    (filter : s.filter = some (.eq field lit)) {e e' : Entity}
    (stored : e ∈ store.partition s.collection) (stored' : e' ∈ store.partition s.collection)
    (same : entityToRow e s.fields = entityToRow e' s.fields) :
    entityMatches e (.eq field lit) = entityMatches e' (.eq field lit) := by
  have cells (f : String) : (entityToRow e s.fields).values[f]? = (entityToRow e' s.fields).values[f]? := by
    rw [same]
  -- where the row shows the id it is the row of one entity
  have byId (shown : some (Value.string e.id) = some (Value.string e'.id)) : e = e' := by
    have there := (store.mem_partition _ _).mp stored
    have there' := (store.mem_partition _ _).mp stored'
    rw [Value.string.inj (Option.some.inj shown), there'] at there
    exact (Option.some.inj there).symm
  cases fields : s.fields with
  | named names =>
    have shown := cells "id"
    rw [fields, get_namedRow, get_namedRow] at shown
    rw [byId (by simpa [Entity.stamped] using shown)]
  | all =>
    rcases told with listed | ordinary | visible
    · exact absurd fields listed
    · have shown := cells "id"
      rw [fields, get_entityToRow, get_entityToRow, ordinary e stored, ordinary e' stored'] at shown
      rw [byId (by simpa [Entity.stamped] using shown)]
    · have columns := visible field lit filter
      simp only [List.mem_cons, List.not_mem_nil, or_false, not_or] at columns
      obtain ⟨notId, notFrom, notTo, notTx⟩ := columns
      have shown := cells field
      rw [fields, get_entityToRow, get_entityToRow] at shown
      simp only [Entity.stamped, notId, notFrom, notTo, notTx, false_and, if_false, Option.or_none] at shown
      unfold entityMatches Entity.fieldIs
      rw [if_neg notId, if_neg notId, shown]

end Agreement

/-! ### The planner's choice -/

theorem selectFetchStrategy_cases (filter : Option WhereClause) (schema : CollectionSchema) :
    selectFetchStrategy filter (some schema) = .fullScan ∨
    ∃ clause, filter = some clause ∧ ∃ idx ∈ schema.indexes,
      (selectFetchStrategy filter (some schema) = .fieldIndexLookup idx.name ∧
        ∃ field lit, clause = .eq field lit) ∨
      selectFetchStrategy filter (some schema) = .fieldIndexRange idx.name := by
  cases filter with
  | none => exact .inl rfl
  | some clause =>
    simp only [selectFetchStrategy]
    cases chosen : schema.indexes.find?
        fun idx => idx.fields.head? = some (firstFieldInClause clause) with
    | none => exact .inl rfl
    | some idx =>
      have declared := List.mem_of_find?_eq_some chosen
      cases clause with
      | eq field lit => exact .inr ⟨_, rfl, idx, declared, .inl ⟨rfl, field, lit, rfl⟩⟩
      | gt | lt | gte | lte | and => exact .inr ⟨_, rfl, idx, declared, .inr rfl⟩
      | _ => exact .inl rfl

theorem execute_indexed {store : Store} {fieldIndexes : FieldIndexes} {p : FetchPlan}
    (size : Nat) (index : String) (types : List (String × FieldType))
    (opened : fieldIndexes[(p.collection, index)]? = some types)
    (within : overBudget p.hints fieldIndexLookupAcu = false) :
    (p.strategy = .fieldIndexLookup index → executeFetch store fieldIndexes size p =
      p.lookup store ⟨store.indexPartition p.collection index, types⟩) ∧
    (p.strategy = .fieldIndexRange index → executeFetch store fieldIndexes size p =
      p.range store ⟨store.indexPartition p.collection index, types⟩) := by
  constructor <;> intro strategy <;>
    simp only [executeFetch, checkAcuBudget, strategy, within, FieldIndexes.find, opened] <;> rfl

theorem execute_over (store : Store) (fieldIndexes : FieldIndexes) {p : FetchPlan} (size : Nat)
    (indexed : ∃ index, p.strategy = .fieldIndexLookup index ∨ p.strategy = .fieldIndexRange index)
    (exceeds : overBudget p.hints fieldIndexLookupAcu = true) :
    ∃ e, executeFetch store fieldIndexes size p = .error e := by
  obtain ⟨index, strategy | strategy⟩ := indexed <;>
    simp only [executeFetch, checkAcuBudget, strategy, exceeds] <;> exact ⟨_, rfl⟩

/-- Indexed FETCH and full-scan FETCH return the same rows when the index suits the filter, and
only then if the rows tell which entities an Eq clause chooses. -/
theorem indexed_fetch_iff (schemas : FinMap String CollectionSchema) (store : Store)
    (fieldIndexes : FieldIndexes) (size : Nat) (s : FetchStatement) (schema : CollectionSchema)
    (known : schemas[s.collection]? = some schema)
    (exact : IndexesExact store fieldIndexes s.collection schema) (unlimited : s.limit = none) :
    (IndexSuits store fieldIndexes size (planFetch schemas s) →
      ReturnsScan (executeFetch store fieldIndexes size (planFetch schemas s))
        (executeFetch store fieldIndexes size (planFetch schemas s.forced))) ∧
    (RowsTell store s →
      ReturnsScan (executeFetch store fieldIndexes size (planFetch schemas s))
        (executeFetch store fieldIndexes size (planFetch schemas s.forced)) →
      IndexSuits store fieldIndexes size (planFetch schemas s)) := by
  have present : store.hasCollection s.collection = true := by
    simp [Store.hasCollection_eq, exact.stored]
  rw [execute_forced store fieldIndexes size schemas s present unlimited]
  by_cases exceeds : overBudget s.hints (fullScanAcu size) = true
  · simp [exceeds, ReturnsScan, IndexSuits, planFetch]
  have budget : ¬ overBudget (planFetch schemas s).hints (fullScanAcu size) = true := exceeds
  simp only [exceeds, Bool.false_eq_true, if_false]
  simp only [IndexSuits, budget, Bool.false_eq_true, false_or]
  have strategies : (planFetch schemas s).strategy = .fullScan ∨
      ∃ clause, s.filter = some clause ∧ ∃ idx ∈ schema.indexes,
        ((planFetch schemas s).strategy = .fieldIndexLookup idx.name ∧
          ∃ field lit, clause = .eq field lit) ∨
        (planFetch schemas s).strategy = .fieldIndexRange idx.name := by
    by_cases forced : QueryHint.forceFullScan ∈ s.hints
    · exact .inl (by simp [planFetch, forced])
    · simpa [planFetch, forced, known] using selectFetchStrategy_cases s.filter schema
  rcases strategies with scan | ⟨clause, filter, idx, declared, lookup | range⟩
  · have same : executeFetch store fieldIndexes size (planFetch schemas s) =
        (planFetch schemas s).scan store := by
      simp only [executeFetch, checkAcuBudget, scan, budget]
      rfl
    rw [same, scan]
    exact ⟨fun _ r hr => ⟨r, hr, .refl _⟩, fun _ _ => trivial⟩
  · obtain ⟨strategy, field, lit, rfl⟩ := lookup
    have opened := exact.opened idx declared
    rw [strategy]
    by_cases within : overBudget (planFetch schemas s).hints fieldIndexLookupAcu = true
    · obtain ⟨e, failed⟩ := execute_over store fieldIndexes size
        ⟨_, .inl strategy⟩ within
      rw [failed]
      exact ⟨fun suits => absurd within (by simp [suits.1]),
        fun _ same => absurd same (not_returnsScan_error present unlimited e)⟩
    · rw [Bool.not_eq_true] at within
      rw [(execute_indexed size idx.name _ opened within).1 strategy]
      have both := lookup_iff (p := planFetch schemas s) present unlimited field lit filter
        (exact.exact idx declared)
      rw [lookupSelects_iff] at both
      refine ⟨fun ⟨_, types, _, _, found, eq, suits⟩ => both.1 ?_, fun told same => ?_⟩
      · cases opened.symm.trans found
        cases filter.symm.trans eq
        exact suits
      · refine ⟨within, _, field, lit, opened, filter, both.2 ?_ same⟩
        exact fun e stored e' stored' => matches_of_row told filter stored stored'
  · have opened := exact.opened idx declared
    rw [range]
    by_cases within : overBudget (planFetch schemas s).hints fieldIndexLookupAcu = true
    · obtain ⟨e, failed⟩ := execute_over store fieldIndexes size
        ⟨_, .inr range⟩ within
      rw [failed]
      exact ⟨fun suits => absurd within (by simp [suits.1]),
        fun _ same => absurd same (not_returnsScan_error present unlimited e)⟩
    · rw [Bool.not_eq_true] at within
      rw [(execute_indexed size idx.name _ opened within).2 range]
      have both := range_iff (p := planFetch schemas s) present unlimited clause filter
        (exact.exact idx declared)
      rw [rangeSelects_iff] at both
      refine ⟨fun ⟨_, types, _, found, eq, suits⟩ => both.2 ?_,
        fun _ same => ⟨within, _, clause, opened, filter, both.1 same⟩⟩
      cases opened.symm.trans found
      cases filter.symm.trans eq
      exact suits

/-! ### A text index -/

def venues : CollectionSchema :=
  ⟨"venues", [], [⟨"city", .text⟩], [⟨"by_city", ["city"], none⟩], none⟩

def oslo : Entity :=
  { Entity.new "v1" with metadata := (∅ : FinMap String Value).insert "city" (.string "Oslo") }

def osloKey : List UInt8 := utf8 "Oslo" ++ [0, 0] ++ utf8 "v1"

def venuesStore : Store :=
  ((Store.empty.updateCollectionSchema venues).putEntity "venues" oslo).setIndexPartition
    "venues" "by_city" ((∅ : FinMap (List UInt8) LogicalId).insert osloKey "v1")

def venuesIndexes : FieldIndexes :=
  (∅ : FieldIndexes).insert ("venues", "by_city") [("city", .text)]

def venuesSchemas : FinMap String CollectionSchema :=
  (∅ : FinMap String CollectionSchema).insert "venues" venues

def fetchVenues (filter : WhereClause) : FetchStatement :=
  ⟨"venues", .all, some filter, none, [], none, []⟩

theorem venues_exact : IndexesExact venuesStore venuesIndexes "venues" venues := by
  refine ⟨by decide, by decide, fun idx declared key id => ?_⟩
  obtain rfl : idx = ⟨"by_city", ["city"], none⟩ := by simpa [venues] using declared
  have partition : venuesStore.indexPartition "venues" "by_city" =
      (∅ : FinMap (List UInt8) LogicalId).insert osloKey "v1" := by decide
  have listed : entryKey (venues.fieldTypes ⟨"by_city", ["city"], none⟩) oslo = some osloKey := by
    decide
  have stored : venuesStore.entities =
      (∅ : FinMap (String × LogicalId) Entity).insert ("venues", "v1") oslo := rfl
  rw [partition, FinMap.get_insert, stored]
  simp only [FinMap.get_insert]
  constructor
  · intro found
    split at found
    · rename_i same
      cases found
      exact ⟨oslo, by simp, same ▸ listed⟩
    · simp at found
  · rintro ⟨e, found, key'⟩
    split at found
    · rename_i same
      cases found
      rw [listed] at key'
      cases key'
      rw [if_pos rfl]
      exact congrArg some (Prod.ext_iff.mp same).2
    · simp at found

/-- Its Eq lookup finds what the scan finds. -/
theorem indexed_fetch_oslo :
    ReturnsScan
      (executeFetch venuesStore venuesIndexes 1
        (planFetch venuesSchemas (fetchVenues (.eq "city" (.string "Oslo")))))
      (executeFetch venuesStore venuesIndexes 1
        (planFetch venuesSchemas (fetchVenues (.eq "city" (.string "Oslo"))).forced)) := by
  refine (indexed_fetch_iff venuesSchemas venuesStore venuesIndexes 1
    (fetchVenues (.eq "city" (.string "Oslo"))) venues (by decide) venues_exact rfl).1
    (.inr ⟨by decide, [("city", .text)], "city", .string "Oslo", by decide, rfl, "city", .text, rfl, rfl, ?_⟩)
  have only : venuesStore.partition "venues" = [oslo] := by decide
  have city : oslo.metadata["city"]? = some (.string "Oslo") := by decide
  intro e stored visible
  rw [if_pos ⟨rfl, by decide⟩]
  intro v value
  obtain rfl : e = oslo := List.mem_singleton.mp (only ▸ stored)
  cases city.symm.trans value
  exact not_confused (by decide) (by decide) (by decide) (by decide) (by decide)

/-- Its ranges have an open end, and that end is an integer: the lookup is an error. -/
theorem indexed_fetch_open_end :
    ¬ ∀ (schemas : FinMap String CollectionSchema) (store : Store) (fieldIndexes : FieldIndexes)
      (size : Nat) (s : FetchStatement) (schema : CollectionSchema),
      schemas[s.collection]? = some schema →
      IndexesExact store fieldIndexes s.collection schema → s.limit = none →
      ReturnsScan (executeFetch store fieldIndexes size (planFetch schemas s))
        (executeFetch store fieldIndexes size (planFetch schemas s.forced)) := by
  intro all
  have same := all venuesSchemas venuesStore venuesIndexes 1
    (fetchVenues (.gt "city" (.string "Bergen"))) venues (by decide) venues_exact rfl
  have failed : (executeFetch venuesStore venuesIndexes 1
      (planFetch venuesSchemas (fetchVenues (.gt "city" (.string "Bergen"))))).toOption = none := by
    decide
  have scanned : (executeFetch venuesStore venuesIndexes 1 (planFetch venuesSchemas
      (fetchVenues (.gt "city" (.string "Bergen"))).forced)).toOption.isSome := by decide
  cases scan : executeFetch venuesStore venuesIndexes 1
      (planFetch venuesSchemas (fetchVenues (.gt "city" (.string "Bergen"))).forced) with
  | error e => simp [scan, Except.toOption] at scanned
  | ok r =>
    obtain ⟨r', found, _⟩ := same r scan
    simp [found, Except.toOption] at failed

end TronDB.Core
