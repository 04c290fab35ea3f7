import TronDB.Core.IndexedFetch
import TronDB.Lib.Packing
import TronDB.Core.SortOrder

/-! What a FETCH with a field list answers: its rows are sorted by the fields the list selects, and
by no others, whatever ORDER BY names. -/
namespace TronDB.Core
open Binary Comparator

/-- Whether a field list makes a column of the field. -/
def selects (names : List String) (field : String) : Bool :=
  field = "id" || field ∈ names || field ∈ ["tx_time", "valid_to", "valid_from"]

/-- What the column has of an entity: NULL where the entity has nothing. -/
def Entity.cell (e : Entity) (names : List String) (field : String) : Value :=
  (e.stamped field (if field = "id" then some (.string e.id)
    else if field ∈ names then e.metadata[field]? else none)).getD .null

theorem stamped_getD (e : Entity) (f : String) (v : Option Value) :
    (e.stamped f (some (v.getD .null))).getD .null = (e.stamped f v).getD .null := by
  unfold Entity.stamped
  split_ifs <;> cases v <;> rfl

theorem cell_row (e : Entity) (names : List String) (f : String) :
    e.cell names f = (entityToRow e (.named names)).values[f]?.getD .null := by
  rw [get_namedRow]
  unfold Entity.cell
  split_ifs
  · rfl
  · exact (stamped_getD e f _).symm
  · rfl

/-! ### Comparing -/

theorem compareValues_missing {v w : Option Value} (apart : ¬ (v = none ∧ w = some .null))
    (apart' : ¬ (v = some .null ∧ w = none)) :
    compareValues v w = compareValues (some (v.getD .null)) (some (w.getD .null)) := by
  rcases v with _ | v <;> rcases w with _ | w
  · rfl
  · cases w <;> first | rfl | exact absurd ⟨rfl, rfl⟩ apart
  · cases v <;> first | rfl | exact absurd ⟨rfl, rfl⟩ apart'
  · rfl

section Comparing
variable (names : List String)

/-- The order of the clauses on what the columns have of two entities. -/
def compareCells (a b : Entity) : List OrderByClause → Ordering
  | [] => .eq
  | clause :: rest =>
    (match clause.direction with
      | .asc => compareValues (some (a.cell names clause.field)) (some (b.cell names clause.field))
      | .desc => (compareValues (some (a.cell names clause.field))
          (some (b.cell names clause.field))).swap).then (compareCells a b rest)

theorem column_whole (field : String) :
    (∀ e : Entity, (entityToRow e (.named names)).values[field]? ≠ none) ∨
      ∀ e : Entity, (entityToRow e (.named names)).values[field]? ≠ some .null := by
  by_cases listed : field = "id" ∨ field ∈ names
  · left
    intro e
    rw [get_namedRow]
    unfold Entity.stamped
    split_ifs <;> simp_all [Option.isSome_iff_ne_none]
  · right
    intro e
    rw [get_namedRow]
    rw [not_or] at listed
    unfold Entity.stamped
    split_ifs <;> simp_all

theorem compareValues_column (a b : Entity) (field : String) :
    compareValues (entityToRow a (.named names)).values[field]?
        (entityToRow b (.named names)).values[field]? =
      compareValues (some (a.cell names field)) (some (b.cell names field)) := by
  rw [cell_row, cell_row]
  apply compareValues_missing
  · rintro ⟨missing, null⟩
    obtain there | there := column_whole names field
    · exact there a missing
    · exact there b null
  · rintro ⟨null, missing⟩
    obtain there | there := column_whole names field
    · exact there b missing
    · exact there a null

theorem compareValues_unselected (a b : Entity) {field : String}
    (unselected : selects names field = false) :
    compareValues (entityToRow a (.named names)).values[field]?
      (entityToRow b (.named names)).values[field]? = .eq := by
  have missing (e : Entity) : (entityToRow e (.named names)).values[field]? = none := by
    rw [get_namedRow]
    unfold Entity.stamped
    simp only [selects, List.mem_cons, Bool.or_eq_false_iff, decide_eq_false_iff_not] at unselected
    obtain ⟨⟨own, unlisted⟩, times⟩ := unselected
    simp_all
  rw [missing, missing]
  rfl

theorem compareRows_named (a b : Entity) (orderBy : List OrderByClause) :
    compareRows (entityToRow a (.named names)) (entityToRow b (.named names)) orderBy =
      compareCells names a b (orderBy.filter fun clause => selects names clause.field) := by
  induction orderBy with
  | nil => rfl
  | cons clause rest ih =>
    rw [compareRows_cons, ih, List.filter_cons]
    cases selected : selects names clause.field with
    | true =>
      rw [compareValues_column names a b]
      rfl
    | false =>
      rw [compareValues_unselected names a b selected]
      cases clause.direction <;> rfl

end Comparing

/-! ### Sorting -/

/-- A stable sort of the entities by the clauses whose fields are selected. -/
def sortEntities (names : List String) (orderBy : List OrderByClause) (entities : List Entity) :
    List Entity :=
  entities.insertionSort fun a b =>
    compareCells names a b (orderBy.filter fun clause => selects names clause.field) ≠ .gt

theorem sortEntities_nil (names : List String) (entities : List Entity) :
    sortEntities names [] entities = entities :=
  List.Pairwise.insertionSort_eq (List.pairwise_of_forall fun _ _ => by simp [compareCells])

theorem sortRows_named (names : List String) (orderBy : List OrderByClause) (entities : List Entity) :
    sortRows (entities.map fun e => entityToRow e (.named names)) orderBy =
      (sortEntities names orderBy entities).map fun e => entityToRow e (.named names) := by
  unfold sortRows
  split
  · rename_i none_
    rw [none_, sortEntities_nil]
  · symm
    apply List.map_insertionSort
    intro a _ b _
    simp only [compareRows_named]

/-- The rows of the first entities that the limit leaves. -/
def FetchPlan.shown (p : FetchPlan) (sorted : List Entity) : List Row :=
  (p.limit.elim sorted fun limit => sorted.take limit).map fun e => entityToRow e p.fields

/-- The rows of the entities found: the first of them in the order of the selected fields. -/
def FetchPlan.answer (p : FetchPlan) (names : List String) (entities : List Entity) : List Row :=
  p.shown (sortEntities names p.orderBy entities)

theorem rows_named (p : FetchPlan) {names : List String} (fields : p.fields = .named names)
    (entities : List Entity) (scanned : Nat) (tier : String) :
    (p.result entities scanned tier).rows = p.answer names entities := by
  unfold FetchPlan.result FetchPlan.answer FetchPlan.shown
  dsimp only
  rw [fields, sortRows_named]
  cases p.limit with
  | none => rfl
  | some limit => exact List.map_take.symm

/-! ### FETCH -/

def FetchPlan.asked (p : FetchPlan) (store : Store) : List Entity :=
  (store.partition p.collection).filter fun e => p.matches e && e.visible p.temporal

section Answers
variable {store : Store} {p : FetchPlan} {names : List String} {r : QueryResult}

/-- A scan that stops early has read what the limit leaves of all there is. -/
theorem scan_named (fields : p.fields = .named names) (done : p.scan store = .ok r) :
    r.rows = p.answer names (p.asked store) := by
  unfold FetchPlan.scan Store.scan Store.scanWithLimit at done
  by_cases early : p.filter.isNone ∧ p.temporal.isNone ∧ p.orderBy = [] ∧ p.limit.isSome
  · obtain ⟨unfiltered, timeless, unordered, limited⟩ := early
    obtain ⟨limit, limited⟩ := Option.isSome_iff_exists.mp limited
    rw [if_pos ⟨unfiltered, timeless, unordered, by simp [limited]⟩] at done
    split at done
    · cases done
      have all (e : Entity) : (p.matches e && e.visible p.temporal) = true := by
        simp only [Option.isNone_iff_eq_none] at unfiltered timeless
        simp [FetchPlan.matches, Entity.visible, unfiltered, timeless]
      rw [rows_named p fields, FetchPlan.asked]
      simp only [all, List.filter_true, limited, FetchPlan.answer, FetchPlan.shown, unordered,
        sortEntities_nil, Option.elim_some, List.take_take]
      rw [Nat.min_eq_left (by omega)]
    · cases done
  · rw [if_neg early] at done
    split at done
    · cases done
      exact rows_named p fields _ _ _
    · cases done

theorem stored_of_read {collection : String} {ids : List LogicalId} {e : Entity}
    (listed : e ∈ readIds store collection ids) : ∃ id, store.get collection id = .ok e := by
  obtain ⟨id, -, read⟩ := List.mem_filterMap.mp listed
  refine ⟨id, ?_⟩
  cases found : store.get collection id with
  | error e' => simp [found, Except.toOption] at read
  | ok e' =>
    rw [found] at read
    exact congrArg Except.ok (Option.some.inj read)

theorem mem_asked {e : Entity} (present : store.hasCollection p.collection = true)
    (listed : e ∈ p.asked store) :
    store.get p.collection e.id = .ok e ∧ e.visible p.temporal = true ∧ p.matches e = true := by
  obtain ⟨among, passes⟩ := List.mem_filter.mp listed
  obtain ⟨matched, visible⟩ := Bool.and_eq_true_iff.mp passes
  have stored := (store.mem_partition p.collection e).mp among
  exact ⟨(store.get_eq_ok _ _ _).mpr ⟨present, stored⟩, visible, matched⟩

theorem present_of_scan (done : p.scan store = .ok r) :
    store.hasCollection p.collection = true := by
  cases present : store.hasCollection p.collection with
  | true => rfl
  | false =>
    unfold FetchPlan.scan Store.scan Store.scanWithLimit at done
    simp only [present] at done
    split at done <;> cases done

/-- The ids a lookup has for the filter of the plan. -/
def FetchPlan.lookupIds (p : FetchPlan) (idx : FieldIndex) : Except EngineError (List LogicalId) :=
  match p.filter with
  | some (.eq _ lit) => idx.lookupEq [literalToValue lit]
  | _ => .error (.invalidQuery "FieldIndexLookup requires Eq filter")

/-- The ids a range has for the filter of the plan. -/
def FetchPlan.rangeIds (p : FetchPlan) (idx : FieldIndex) : Except EngineError (List LogicalId) :=
  match p.filter with
  | some clause => idx.lookupRange (rangeBoundsFromClause clause).1 (rangeBoundsFromClause clause).2
  | none => .error (.invalidQuery "FieldIndexRange requires a range filter")

theorem lookup_eq (p : FetchPlan) (store : Store) (idx : FieldIndex) :
    p.lookup store idx = p.lookupIds idx >>= fun ids =>
      .ok (p.result ((readIds store p.collection ids).filter fun e => e.visible p.temporal)
        ids.length "FieldIndex") := by
  unfold FetchPlan.lookup FetchPlan.lookupIds
  cases p.filter with
  | none => rfl
  | some clause =>
    cases clause with
    | eq field lit => rfl
    | _ => rfl

theorem range_eq (p : FetchPlan) (store : Store) (idx : FieldIndex) :
    p.range store idx = p.rangeIds idx >>= fun ids =>
      .ok (p.result ((readIds store p.collection ids).filter fun e =>
        p.matches e && e.visible p.temporal) ids.length "FieldIndex") := by
  unfold FetchPlan.range FetchPlan.rangeIds
  cases p.filter with
  | none => rfl
  | some clause => rfl

theorem fetch_read {fieldIndexes : FieldIndexes} {size : Nat} (fields : p.fields = .named names)
    (done : executeFetch store fieldIndexes size p = .ok r) :
    ∃ entities, r.rows = p.answer names entities ∧
      (∀ e ∈ entities, (∃ id, store.get p.collection id = .ok e) ∧ e.visible p.temporal = true ∧
        ((∀ index, p.strategy ≠ .fieldIndexLookup index) → p.matches e = true)) ∧
      (p.strategy = .fullScan → entities = p.asked store) := by
  obtain ⟨-, -, done⟩ := Packing.bind_ok.mp done
  cases strategy : p.strategy with
  | fullScan =>
    rw [strategy] at done
    refine ⟨p.asked store, scan_named fields done, fun e listed => ?_, fun _ => rfl⟩
    obtain ⟨stored, visible, matched⟩ := mem_asked (present_of_scan done) listed
    exact ⟨⟨e.id, stored⟩, visible, fun _ => matched⟩
  | fieldIndexLookup index =>
    rw [strategy] at done
    obtain ⟨idx, -, done⟩ := Packing.bind_ok.mp done
    rw [lookup_eq] at done
    obtain ⟨ids, -, done⟩ := Packing.bind_ok.mp done
    cases done
    refine ⟨_, rows_named p fields _ _ _, fun e listed => ?_, fun scans => by cases scans⟩
    obtain ⟨read, visible⟩ := List.mem_filter.mp listed
    exact ⟨stored_of_read read, visible, fun other => absurd rfl (other index)⟩
  | fieldIndexRange index =>
    rw [strategy] at done
    obtain ⟨idx, -, done⟩ := Packing.bind_ok.mp done
    rw [range_eq] at done
    obtain ⟨ids, -, done⟩ := Packing.bind_ok.mp done
    cases done
    refine ⟨_, rows_named p fields _ _ _, fun e listed => ?_, fun scans => by cases scans⟩
    obtain ⟨read, passes⟩ := List.mem_filter.mp listed
    obtain ⟨matched, visible⟩ := Bool.and_eq_true_iff.mp passes
    exact ⟨stored_of_read read, visible, fun _ => matched⟩

/-- What each ordered column has in the collection is sortable. -/
def FetchPlan.Orderable (p : FetchPlan) (store : Store) : Prop :=
  ∀ clause ∈ p.orderBy, Sortable fun v =>
    ∃ e ∈ store.partition p.collection, (entityToRow e p.fields).values[clause.field]? = v

theorem preorder_cells (fields : p.fields = .named names) (orderable : p.Orderable store) :
    PreorderOn (· ∈ store.partition p.collection) fun a b =>
      compareCells names a b (p.orderBy.filter fun clause => selects names clause.field) := by
  have ordered (e : Entity) (here : e ∈ store.partition p.collection) :
      PreorderOn (· ∈ store.partition p.collection) fun a b =>
        compareCells names a b (p.orderBy.filter fun clause => selects names clause.field) := by
    let columns (field : String) : Column := ⟨fun v => ∃ e ∈ store.partition p.collection,
      (entityToRow e p.fields).values[field]? = v, _, e, here, rfl⟩
    have rows := (@preorder_rows columns p.orderBy orderable).comap fun e => entityToRow e p.fields
    rw [fields] at rows
    refine (rows.mono fun e there clause _ => ⟨e, there, by rw [fields]⟩).congr fun a b _ _ => ?_
    rw [compareRows_named]
  exact ⟨fun a here => (ordered a here).refl a here,
    fun a b here there => (ordered a here).swap a b here there,
    fun a b c here there then_ => (ordered a here).trans a b c here there then_⟩

/-- The rows of a FETCH with a field list whose ordered columns are sortable: the first of stored,
visible entities, sorted by the clauses whose fields the list selects; but for an index lookup they
meet the filter, and a full scan has all that do. -/
theorem fetch_answers {fieldIndexes : FieldIndexes} {size : Nat} (fields : p.fields = .named names)
    (orderable : p.Orderable store) (done : executeFetch store fieldIndexes size p = .ok r) :
    ∃ entities sorted, r.rows = p.shown sorted ∧
      StableSort (fun a b => compareCells names a b
        (p.orderBy.filter fun clause => selects names clause.field)) entities sorted ∧
      (∀ e ∈ entities, (∃ id, store.get p.collection id = .ok e) ∧ e.visible p.temporal = true ∧
        ((∀ index, p.strategy ≠ .fieldIndexLookup index) → p.matches e = true)) ∧
      (p.strategy = .fullScan → entities = p.asked store) := by
  obtain ⟨entities, rows, read, all⟩ := fetch_read fields done
  refine ⟨entities, _, rows, ?_, read, all⟩
  refine (preorder_cells fields orderable).stableSort entities fun e listed => ?_
  obtain ⟨⟨id, got⟩, -⟩ := read e listed
  have stored := ((store.get_eq_ok _ _ _).mp got).2
  rw [← store.keyed _ _ _ stored] at stored
  exact (store.mem_partition _ _).mpr stored

end Answers

/-! ### Clauses that decide nothing -/

/-- The plan that orders by the selected fields only. -/
def FetchPlan.selectedOrder (p : FetchPlan) (names : List String) : FetchPlan :=
  { p with orderBy := p.orderBy.filter fun clause => selects names clause.field }

theorem answer_selectedOrder (p : FetchPlan) (names : List String) :
    (p.selectedOrder names).answer names = p.answer names := by
  funext entities
  simp [FetchPlan.answer, FetchPlan.selectedOrder, sortEntities, List.filter_filter]
  rfl

section Reordered
variable (p : FetchPlan) (store : Store) {names : List String}

theorem rows_reordered (fields : p.fields = .named names) (entities : List Entity) (scanned : Nat)
    (tier : String) :
    ((p.selectedOrder names).result entities scanned tier).rows =
      (p.result entities scanned tier).rows := by
  have same : (p.selectedOrder names).fields = .named names := fields
  rw [rows_named p fields, rows_named _ same, answer_selectedOrder]

theorem scan_ends (fields : p.fields = .named names) :
    (p.scan store).map QueryResult.rows =
      if store.hasCollection p.collection then .ok (p.answer names (p.asked store))
      else .error (.collectionNotFound p.collection) := by
  cases done : p.scan store with
  | ok r =>
    rw [if_pos (present_of_scan done), ← scan_named fields done]
    rfl
  | error e =>
    unfold FetchPlan.scan Store.scan Store.scanWithLimit at done
    cases present : store.hasCollection p.collection with
    | true =>
      simp only [present] at done
      split at done <;> cases done
    | false =>
      simp only [present] at done
      split at done <;> cases done <;> rfl

theorem map_bind_congr {ε α β γ : Type} (x : Except ε α) {f g : α → Except ε β} {rows : β → γ}
    (same : ∀ a, (f a).map rows = (g a).map rows) : (x >>= f).map rows = (x >>= g).map rows := by
  cases x with
  | error e => rfl
  | ok a => exact same a

theorem lookup_reordered (fields : p.fields = .named names) (idx : FieldIndex) :
    ((p.selectedOrder names).lookup store idx).map QueryResult.rows =
      (p.lookup store idx).map QueryResult.rows := by
  rw [lookup_eq, lookup_eq]
  apply map_bind_congr
  intro ids
  exact congrArg Except.ok (rows_reordered p fields _ _ _)

theorem range_reordered (fields : p.fields = .named names) (idx : FieldIndex) :
    ((p.selectedOrder names).range store idx).map QueryResult.rows =
      (p.range store idx).map QueryResult.rows := by
  rw [range_eq, range_eq]
  apply map_bind_congr
  intro ids
  exact congrArg Except.ok (rows_reordered p fields _ _ _)

theorem scan_reordered (fields : p.fields = .named names) :
    ((p.selectedOrder names).scan store).map QueryResult.rows =
      (p.scan store).map QueryResult.rows := by
  have same : (p.selectedOrder names).fields = .named names := fields
  rw [scan_ends p store fields, scan_ends _ store same, answer_selectedOrder]
  rfl

/-- ORDER BY on fields that the list does not select changes no row of any FETCH, limited or not, and
no error. -/
theorem unselected_order_ignored (fieldIndexes : FieldIndexes) (size : Nat)
    (fields : p.fields = .named names) :
    (executeFetch store fieldIndexes size (p.selectedOrder names)).map QueryResult.rows =
      (executeFetch store fieldIndexes size p).map QueryResult.rows := by
  apply map_bind_congr (checkAcuBudget p size)
  intro checked
  have strategy : (p.selectedOrder names).strategy = p.strategy := rfl
  rw [strategy]
  cases p.strategy with
  | fullScan => exact scan_reordered p store fields
  | fieldIndexLookup index =>
    exact map_bind_congr (fieldIndexes.find store p.collection index) (lookup_reordered p store fields)
  | fieldIndexRange index =>
    exact map_bind_congr (fieldIndexes.find store p.collection index) (range_reordered p store fields)

end Reordered

/-! ### A field that is not selected -/

def cityByStars : FetchPlan :=
  ⟨"venues", .named ["city"], none, none, [⟨"stars", .desc⟩], some 1, .fullScan, []⟩

/-- No row has stars. -/
theorem cityByStars_orderable : cityByStars.Orderable venuesStore := by
  intro clause listed
  obtain rfl := List.mem_singleton.mp listed
  have missing (e : Entity) : (entityToRow e (.named ["city"])).values["stars"]? = none := by
    rw [get_namedRow]
    simp [Entity.stamped]
  constructor
  · rintro ⟨-, e, -, null⟩
    cases (missing e).symm.trans null
  · left
    rintro a b ⟨e, -, here⟩ -
    cases (missing e).symm.trans here

theorem cityByStars_answered :
    ∃ r sorted, executeFetch venuesStore venuesIndexes 1 cityByStars = .ok r ∧
      r.rows = cityByStars.shown sorted ∧ StableSort (fun a b => compareCells ["city"] a b [])
        (cityByStars.asked venuesStore) sorted := by
  have succeeds : (executeFetch venuesStore venuesIndexes 1 cityByStars).toOption.isSome := by
    decide
  cases done : executeFetch venuesStore venuesIndexes 1 cityByStars with
  | error e => simp [done, Except.toOption] at succeeds
  | ok r =>
    obtain ⟨entities, sorted, rows, sorts, -, all⟩ :=
      @fetch_answers _ cityByStars ["city"] _ _ _ rfl cityByStars_orderable done
    exact ⟨r, sorted, rfl, rows, all rfl ▸ sorts⟩

theorem cityByStars_unordered :
    (executeFetch venuesStore venuesIndexes 1 (cityByStars.selectedOrder ["city"])).map
        QueryResult.rows =
      (executeFetch venuesStore venuesIndexes 1 cityByStars).map QueryResult.rows :=
  unselected_order_ignored cityByStars venuesStore venuesIndexes 1 rfl

end TronDB.Core
