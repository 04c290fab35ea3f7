import TronDB.Core.Fetch
import TronDB.Lib.Comparator
import TronDB.Lib.Rounding

/-! The order of ORDER BY: for which columns it is one. -/
namespace TronDB.Core
open Binary Comparator

/-! ### Columns -/

inductive ValueKind where
  | text | truth | number
  deriving DecidableEq, Repr

def Value.kind : Value → Option ValueKind
  | .string _ => some .text
  | .bool _ => some .truth
  | .int _ => some .number
  | .float f => if f.isNaN then none else some .number
  | .null => none

/-- Values of one kind that are not equal; an integer counts as the binary64 it is converted to
where the other number is one. -/
def Differ : Value → Value → Prop
  | .string x, .string y => x ≠ y
  | .bool x, .bool y => x ≠ y
  | .int x, .int y => x ≠ y
  | .int x, .float y => y.isNaN = false ∧ (F64.ofInt x.toInt).key ≠ y.key
  | .float x, .int y => x.isNaN = false ∧ x.key ≠ (F64.ofInt y.toInt).key
  | .float x, .float y => x.isNaN = false ∧ y.isNaN = false ∧ x.key ≠ y.key
  | _, _ => False

/-- What a field may hold; nothing at all is a value, too. -/
structure Column where
  has : Option Value → Prop
  inhabited : ∃ v, has v

/-- A column is not both missing and NULL; and no two of its values differ, or all of them but
NULL are of one kind and no binary64 is the value of two of its integers. -/
structure Sortable (has : Option Value → Prop) : Prop where
  nulls : ¬ (has none ∧ has (some .null))
  values : (∀ a b, has (some a) → has (some b) → ¬ Differ a b) ∨
    (∃ kind, ∀ v, has (some v) → v ≠ .null → v.kind = some kind) ∧
      ∀ x y f, has (some (.int x)) → has (some (.int y)) → has (some (.float f)) →
        (F64.ofInt x.toInt).key = f.key → (F64.ofInt y.toInt).key = f.key → x = y

/-- The rows with the ordered fields out of these columns. -/
def RowsOf (columns : String → Column) (orderBy : List OrderByClause) (row : Row) : Prop :=
  ∀ clause ∈ orderBy, (columns clause.field).has row.values[clause.field]?

/-- The rows are in a total preorder, and sorting any list of them gives a sorted one. -/
structure InOrder (orderBy : List OrderByClause) (rows : Row → Prop) : Prop where
  preorder : PreorderOn rows fun a b => compareRows a b orderBy
  sorted : ∀ list, (∀ row ∈ list, rows row) →
    (sortRows list orderBy).Pairwise fun a b => compareRows a b orderBy ≠ .gt

/-! ### Values -/

theorem int_number (n : Int64) : (F64.ofInt n.toInt).isNaN = false := by
  refine F64.ofInt_number ?_
  have low := n.le_toInt
  have high := n.toInt_lt
  omega

theorem int_mono {x y : Int64} (le : x.toInt ≤ y.toInt) :
    (F64.ofInt x.toInt).key ≤ (F64.ofInt y.toInt).key := by
  have low := x.le_toInt
  have high := x.toInt_lt
  have low' := y.le_toInt
  have high' := y.toInt_lt
  exact F64.ofInt_mono (by omega) (by omega) le

theorem partialCmp_number {x y : F64} (number : x.isNaN = false) (number' : y.isNaN = false) :
    compareValues.partialCmp x y = compare x.key y.key := by
  unfold compareValues.partialCmp F64.gt F64.lt
  simp only [number, number', Bool.not_false, Bool.true_and, decide_eq_true_eq]
  rcases Int.lt_trichotomy x.key y.key with below | same | above
  · rw [if_pos below, Int.compare_eq_lt.mpr below]
  · simp [same]
  · rw [if_neg (by omega), if_pos above, Int.compare_eq_gt.mpr above]

theorem partialCmp_nan {x y : F64} (nan : x.isNaN = true ∨ y.isNaN = true) :
    compareValues.partialCmp x y = .eq := by
  unfold compareValues.partialCmp F64.gt F64.lt
  rcases nan with nan | nan <;> simp [nan]

theorem nan_of_not {x y : F64} (number : ¬ (x.isNaN = false ∧ y.isNaN = false)) :
    x.isNaN = true ∨ y.isNaN = true := by
  cases nan : x.isNaN with
  | true => exact .inl rfl
  | false =>
    rw [nan] at number
    exact .inr (Bool.eq_true_of_not_eq_false fun nan' => number ⟨rfl, nan'⟩)

theorem partialCmp_swap (x y : F64) :
    compareValues.partialCmp y x = (compareValues.partialCmp x y).swap := by
  by_cases number : x.isNaN = false ∧ y.isNaN = false
  · rw [partialCmp_number number.1 number.2, partialCmp_number number.2 number.1]
    exact Std.OrientedCmp.eq_swap
  · have nan := nan_of_not number
    rw [partialCmp_nan nan, partialCmp_nan nan.symm]
    rfl

theorem partialCmp_eq_iff (x y : F64) : compareValues.partialCmp x y = .eq ↔
    ¬ (x.isNaN = false ∧ y.isNaN = false ∧ x.key ≠ y.key) := by
  by_cases number : x.isNaN = false ∧ y.isNaN = false
  · rw [partialCmp_number number.1 number.2, Std.LawfulEqOrd.compare_eq_iff_eq]
    simp [number]
  · have nan := nan_of_not number
    rw [partialCmp_nan nan]
    rcases nan with nan | nan <;> simp [nan]

theorem compareValues_refl (v : Option Value) : compareValues v v = .eq := by
  cases v with
  | none => rfl
  | some v =>
    cases v with
    | null => rfl
    | string x =>
      rw [compareValues]
      exact Std.ReflCmp.compare_self
    | bool x =>
      rw [compareValues]
      exact Std.ReflCmp.compare_self
    | int x =>
      rw [compareValues]
      exact Std.ReflCmp.compare_self
    | float x => exact (partialCmp_eq_iff x x).mpr (by simp)

theorem compareValues_swap (v w : Option Value) (apart : ¬ (v = none ∧ w = some .null))
    (apart' : ¬ (v = some .null ∧ w = none)) : compareValues w v = (compareValues v w).swap := by
  have strings (x y : String) : compare y x = (compare x y).swap := Std.OrientedCmp.eq_swap
  have bools (x y : Bool) : compare y x = (compare x y).swap := Std.OrientedCmp.eq_swap
  have ints (x y : Int64) : compare y x = (compare x y).swap := Std.OrientedCmp.eq_swap
  rcases v with _ | v
  · rcases w with _ | w
    · rfl
    · cases w <;> first | rfl | exact absurd ⟨rfl, rfl⟩ apart
  · rcases w with _ | w
    · cases v <;> first | rfl | exact absurd ⟨rfl, rfl⟩ apart'
    · cases v <;> cases w <;>
        first
        | rfl
        | exact strings _ _
        | exact bools _ _
        | exact ints _ _
        | exact partialCmp_swap _ _

/-- Values other than NULL compare as equal exactly if they do not differ. -/
theorem compareValues_eq_iff {a b : Value} (some_ : a ≠ .null) (some_' : b ≠ .null) :
    compareValues (some a) (some b) = .eq ↔ ¬ Differ a b := by
  cases a with
  | null => exact absurd rfl some_
  | string x =>
    cases b with
    | null => exact absurd rfl some_'
    | string y => exact Std.LawfulEqOrd.compare_eq_iff_eq.trans not_not.symm
    | _ => exact iff_of_true rfl id
  | bool x =>
    cases b with
    | null => exact absurd rfl some_'
    | bool y => exact Std.LawfulEqOrd.compare_eq_iff_eq.trans not_not.symm
    | _ => exact iff_of_true rfl id
  | int x =>
    cases b with
    | null => exact absurd rfl some_'
    | int y => exact Std.LawfulEqOrd.compare_eq_iff_eq.trans not_not.symm
    | float y =>
      refine (partialCmp_eq_iff _ y).trans ?_
      simp only [int_number, true_and]
      rfl
    | _ => exact iff_of_true rfl id
  | float x =>
    cases b with
    | null => exact absurd rfl some_'
    | int y =>
      refine (partialCmp_eq_iff x _).trans ?_
      simp only [int_number, true_and]
      rfl
    | float y => exact partialCmp_eq_iff x y
    | _ => exact iff_of_true rfl id

theorem kind_of_differ {a b : Value} (differ : Differ a b) :
    ∃ kind, a.kind = some kind ∧ b.kind = some kind := by
  cases a <;> cases b <;> first | exact differ.elim | exact ⟨_, rfl, rfl⟩ | skip
  · exact ⟨.number, rfl, if_neg (by simp [differ.1])⟩
  · exact ⟨.number, if_neg (by simp [differ.1]), rfl⟩
  · exact ⟨.number, if_neg (by simp [differ.1]), if_neg (by simp [differ.2.1])⟩

theorem some_of_differ {a b : Value} (differ : Differ a b) : a ≠ .null ∧ b ≠ .null := by
  obtain ⟨kind, here, there⟩ := kind_of_differ differ
  constructor <;> rintro rfl <;> contradiction

/-! ### What a column has to be -/

theorem sortable_of_preorder {has : Option Value → Prop} (ordered : PreorderOn has compareValues) :
    Sortable has where
  nulls := by
    rintro ⟨missing, null⟩
    exact absurd (ordered.swap none (some .null) missing null) (by decide)
  values := by
    by_cases flat : ∀ a b, has (some a) → has (some b) → ¬ Differ a b
    · exact .inl flat
    · simp only [not_forall, not_not] at flat
      obtain ⟨a, b, hasA, hasB, differ⟩ := flat
      obtain ⟨kind, kindA, kindB⟩ := kind_of_differ differ
      obtain ⟨someA, someB⟩ := some_of_differ differ
      -- what is equal to both makes them equal
      have between (c : Value) (hasC : has (some c)) (someC : c ≠ .null) (a b : Value)
          (hasA : has (some a)) (hasB : has (some b)) (differ : Differ a b) (same : ¬ Differ a c)
          (same' : ¬ Differ c b) : False := by
        obtain ⟨someA, someB⟩ := some_of_differ differ
        have equal := ordered.eq_trans hasA hasC hasB ((compareValues_eq_iff someA someC).mpr same)
          ((compareValues_eq_iff someC someB).mpr same')
        exact (compareValues_eq_iff someA someB).mp equal differ
      refine .inr ⟨⟨kind, fun v hasV someV => ?_⟩, fun x y f hasX hasY hasF equal equal' => ?_⟩
      · by_contra other
        refine between v hasV someV a b hasA hasB differ (fun differs => ?_) fun differs => ?_
        · obtain ⟨kind', here, there⟩ := kind_of_differ differs
          exact other (by rw [there, ← here, kindA])
        · obtain ⟨kind', here, there⟩ := kind_of_differ differs
          exact other (by rw [here, ← there, kindB])
      · by_contra differs
        refine between (.float f) hasF nofun (.int x) (.int y) hasX hasY differs ?_ ?_
        · exact fun apart => apart.2 equal
        · exact fun apart => apart.2 equal'.symm

def AtMost : Value → Value → Prop
  | .int x, .int y => x.toInt ≤ y.toInt
  | .int x, .float y => (F64.ofInt x.toInt).key ≤ y.key
  | .float x, .int y => x.key ≤ (F64.ofInt y.toInt).key
  | .float x, .float y => x.key ≤ y.key
  | _, _ => True

theorem compare_int_iff (x y : Int) : compare x y ≠ .gt ↔ x ≤ y := by
  rw [← Std.isLE_compare, Ordering.isLE_iff_ne_gt]

theorem number_cases {v : Value} (number : v.kind = some .number) :
    (∃ n, v = .int n) ∨ ∃ f, v = .float f ∧ f.isNaN = false := by
  cases v with
  | int n => exact .inl ⟨n, rfl⟩
  | float f =>
    refine .inr ⟨f, rfl, ?_⟩
    cases nan : f.isNaN with
    | false => rfl
    | true => simp [Value.kind, nan] at number
  | string _ => cases number
  | bool _ => cases number
  | null => cases number

theorem atMost_iff {a b : Value} (number : a.kind = some .number) (number' : b.kind = some .number) :
    compareValues (some a) (some b) ≠ .gt ↔ AtMost a b := by
  rcases number_cases number with ⟨x, rfl⟩ | ⟨x, rfl, nan⟩ <;>
    rcases number_cases number' with ⟨y, rfl⟩ | ⟨y, rfl, nan'⟩
  · have order : compare x y ≠ .gt ↔ x.toInt ≤ y.toInt := by
      rw [← Int64.le_iff_toInt_le, ← Std.isLE_compare, Ordering.isLE_iff_ne_gt]
    exact order
  · rw [compareValues, partialCmp_number (int_number x) nan', compare_int_iff]
    rfl
  · rw [compareValues, partialCmp_number nan (int_number y), compare_int_iff]
    rfl
  · rw [compareValues, partialCmp_number nan nan', compare_int_iff]
    rfl

theorem atMost_trans {a b c : Value} (numberA : a.kind = some .number) (numberB : b.kind = some .number)
    (numberC : c.kind = some .number)
    (alone : ∀ x y f, a = .int x → c = .int y → b = .float f → (F64.ofInt x.toInt).key = f.key →
      (F64.ofInt y.toInt).key = f.key → x = y)
    (below : AtMost a b) (below' : AtMost b c) : AtMost a c := by
  rcases number_cases numberA with ⟨x, rfl⟩ | ⟨x, rfl, -⟩ <;>
    rcases number_cases numberB with ⟨y, rfl⟩ | ⟨y, rfl, -⟩ <;>
    rcases number_cases numberC with ⟨z, rfl⟩ | ⟨z, rfl, -⟩ <;>
    unfold AtMost at *
  · exact Int.le_trans below below'
  · exact Int.le_trans (int_mono below) below'
  · by_contra above
    have rounded : (F64.ofInt z.toInt).key ≤ (F64.ofInt x.toInt).key := int_mono (by omega)
    have same := alone x z y rfl rfl rfl (by omega) (by omega)
    exact above (same ▸ Int.le_refl _)
  · exact Int.le_trans below below'
  · exact Int.le_trans below (int_mono below')
  · exact Int.le_trans below below'
  · exact Int.le_trans below below'
  · exact Int.le_trans below below'

def Last (v : Option Value) : Prop := v = none ∨ v = some .null

theorem last_above {v w : Option Value} (last : Last v) (not_ : ¬ Last w) :
    compareValues v w = .gt ∧ compareValues w v = .lt := by
  rcases w with _ | w
  · exact absurd (.inl rfl) not_
  · cases w with
    | null => exact absurd (.inr rfl) not_
    | _ => rcases last with rfl | rfl <;> exact ⟨rfl, rfl⟩

theorem value_of_not_last {v : Option Value} (not_ : ¬ Last v) : ∃ a, v = some a ∧ a ≠ .null := by
  rcases v with _ | a
  · exact absurd (.inl rfl) not_
  · exact ⟨a, rfl, fun null => not_ (.inr (congrArg some null))⟩

section Kinds
variable {a b c : Value}

theorem text_trans (textA : a.kind = some .text) (textB : b.kind = some .text)
    (textC : c.kind = some .text) (below : compareValues (some a) (some b) ≠ .gt)
    (below' : compareValues (some b) (some c) ≠ .gt) : compareValues (some a) (some c) ≠ .gt := by
  have text {v : Value} (kind : v.kind = some .text) : ∃ s, v = .string s := by
    cases v with
    | string s => exact ⟨s, rfl⟩
    | float f => cases nan : f.isNaN <;> simp [Value.kind, nan] at kind
    | _ => cases kind
  obtain ⟨x, rfl⟩ := text textA
  obtain ⟨y, rfl⟩ := text textB
  obtain ⟨z, rfl⟩ := text textC
  exact (PreorderOn.of_trans (compare : String → String → Ordering) fun _ => True).trans x y z
    trivial trivial trivial below below'

theorem truth_trans (truthA : a.kind = some .truth) (truthB : b.kind = some .truth)
    (truthC : c.kind = some .truth) (below : compareValues (some a) (some b) ≠ .gt)
    (below' : compareValues (some b) (some c) ≠ .gt) : compareValues (some a) (some c) ≠ .gt := by
  have truth {v : Value} (kind : v.kind = some .truth) : ∃ b, v = .bool b := by
    cases v with
    | bool b => exact ⟨b, rfl⟩
    | float f => cases nan : f.isNaN <;> simp [Value.kind, nan] at kind
    | _ => cases kind
  obtain ⟨x, rfl⟩ := truth truthA
  obtain ⟨y, rfl⟩ := truth truthB
  obtain ⟨z, rfl⟩ := truth truthC
  exact (PreorderOn.of_trans (compare : Bool → Bool → Ordering) fun _ => True).trans x y z
    trivial trivial trivial below below'

end Kinds

theorem preorder_of_sortable {has : Option Value → Prop} (sortable : Sortable has) :
    PreorderOn has compareValues where
  refl v _ := compareValues_refl v
  swap v w here there := by
    refine compareValues_swap v w ?_ ?_
    · rintro ⟨rfl, rfl⟩
      exact sortable.nulls ⟨here, there⟩
    · rintro ⟨rfl, rfl⟩
      exact sortable.nulls ⟨there, here⟩
  trans u v w hasU hasV hasW below below' := by
    by_cases lastU : Last u
    · have lastV : Last v := by
        by_contra not_
        exact below (last_above lastU not_).1
      have lastW : Last w := by
        by_contra not_
        exact below' (last_above lastV not_).1
      have same : u = w := by
        rcases lastU with rfl | rfl <;> rcases lastW with rfl | rfl
        · rfl
        · exact absurd ⟨hasU, hasW⟩ sortable.nulls
        · exact absurd ⟨hasW, hasU⟩ sortable.nulls
        · rfl
      rw [same, compareValues_refl]
      decide
    · by_cases lastW : Last w
      · rw [(last_above lastW lastU).2]
        decide
      · have notV : ¬ Last v := fun lastV => below' (last_above lastV lastW).1
        obtain ⟨a, rfl, someA⟩ := value_of_not_last lastU
        obtain ⟨b, rfl, someB⟩ := value_of_not_last notV
        obtain ⟨c, rfl, someC⟩ := value_of_not_last lastW
        rcases sortable.values with flat | ⟨⟨kind, one⟩, alone⟩
        · rw [(compareValues_eq_iff someA someC).mpr (flat a c hasU hasW)]
          decide
        · have kindA := one a hasU someA
          have kindB := one b hasV someB
          have kindC := one c hasW someC
          cases kind with
          | text => exact text_trans kindA kindB kindC below below'
          | truth => exact truth_trans kindA kindB kindC below below'
          | number =>
            rw [atMost_iff kindA kindB] at below
            rw [atMost_iff kindB kindC] at below'
            rw [atMost_iff kindA kindC]
            refine atMost_trans kindA kindB kindC ?_ below below'
            rintro x y f rfl rfl rfl
            exact alone x y f hasU hasW hasV

/-! ### Rows -/

theorem compareRows_cons (a b : Row) (clause : OrderByClause) (rest : List OrderByClause) :
    compareRows a b (clause :: rest) =
      (match clause.direction with
        | .asc => compareValues a.values[clause.field]? b.values[clause.field]?
        | .desc => (compareValues a.values[clause.field]? b.values[clause.field]?).swap).then
      (compareRows a b rest) := by
  rw [compareRows]
  cases clause.direction <;>
    cases compareValues a.values[clause.field]? b.values[clause.field]? <;> rfl

theorem preorder_rows {columns : String → Column} (orderBy : List OrderByClause)
    (sortable : ∀ clause ∈ orderBy, Sortable (columns clause.field).has) :
    PreorderOn (RowsOf columns orderBy) fun a b => compareRows a b orderBy := by
  induction orderBy with
  | nil => exact ⟨fun _ _ => rfl, fun _ _ _ _ => rfl, fun _ _ _ _ _ _ _ _ => by simp [compareRows]⟩
  | cons clause rest ih =>
    rw [List.forall_mem_cons] at sortable
    have here := preorder_of_sortable sortable.1
    have column : PreorderOn (RowsOf columns (clause :: rest)) fun a b =>
        compareValues a.values[clause.field]? b.values[clause.field]? :=
      (here.comap fun row : Row => row.values[clause.field]?).mono
        fun row among => among clause (List.mem_cons_self ..)
    have others : PreorderOn (RowsOf columns (clause :: rest)) fun a b => compareRows a b rest :=
      (ih sortable.2).mono fun row among c listed => among c (List.mem_cons_of_mem _ listed)
    cases way : clause.direction with
    | asc =>
      refine (column.behind others).congr fun a b _ _ => ?_
      rw [compareRows_cons, way]
    | desc =>
      refine (column.reverse.behind others).congr fun a b _ _ => ?_
      rw [compareRows_cons, way]

/-! ### Rows that differ in one column -/

def picked (pick : String → Option Value) : List String → FinMap String Value
  | [] => ∅
  | field :: rest =>
    match pick field with
    | some v => (picked pick rest).insert field v
    | none => picked pick rest

theorem get_picked (pick : String → Option Value) (fields : List String) (field : String) :
    (picked pick fields)[field]? = if field ∈ fields then pick field else none := by
  induction fields with
  | nil => simp [picked]
  | cons first rest ih =>
    unfold picked
    cases choice : pick first with
    | none =>
      rw [ih]
      by_cases here : field = first
      · simp [here, choice]
      · simp [here]
    | some v =>
      rw [FinMap.get_insert, ih]
      by_cases here : first = field
      · simp [here, ← choice]
      · simp [here, Ne.symm here]

def rowWith (pick : String → Option Value) (orderBy : List OrderByClause) : Row :=
  ⟨picked pick (orderBy.map OrderByClause.field), none⟩

theorem get_rowWith (pick : String → Option Value) {orderBy : List OrderByClause}
    {clause : OrderByClause} (among : clause ∈ orderBy) :
    (rowWith pick orderBy).values[clause.field]? = pick clause.field :=
  (get_picked pick _ clause.field).trans (if_pos (List.mem_map_of_mem among))

theorem compareRows_alike {a b : Row} {orderBy : List OrderByClause}
    (alike : ∀ clause ∈ orderBy, compareValues a.values[clause.field]? b.values[clause.field]? = .eq) :
    compareRows a b orderBy = .eq := by
  induction orderBy with
  | nil => rfl
  | cons clause rest ih =>
    rw [List.forall_mem_cons] at alike
    rw [compareRows_cons, alike.1, ih alike.2]
    cases clause.direction <;> rfl

def directed : SortDirection → Ordering → Ordering
  | .asc, answer => answer
  | .desc, answer => answer.swap

theorem compareRows_column {field : String} {orderBy : List OrderByClause} {clause : OrderByClause}
    (among : clause ∈ orderBy) (named : clause.field = field) :
    ∃ direction, ∀ a b : Row,
      (∀ c ∈ orderBy, c.field ≠ field → a.values[c.field]? = b.values[c.field]?) →
        compareRows a b orderBy =
          directed direction (compareValues a.values[field]? b.values[field]?) := by
  induction orderBy with
  | nil => exact absurd among List.not_mem_nil
  | cons first rest ih =>
    by_cases here : first.field = field
    · refine ⟨first.direction, fun a b alike => ?_⟩
      rw [compareRows_cons, here]
      have tail (same : compareValues a.values[field]? b.values[field]? = .eq) :
          compareRows a b rest = .eq := by
        refine compareRows_alike fun c listed => ?_
        by_cases again : c.field = field
        · rw [again, same]
        · rw [alike c (List.mem_cons_of_mem _ listed) again]
          exact compareValues_refl _
      cases answer : compareValues a.values[field]? b.values[field]? with
      | eq =>
        rw [tail answer]
        cases first.direction <;> rfl
      | lt => cases first.direction <;> rfl
      | gt => cases first.direction <;> rfl
    · have later : clause ∈ rest := (List.mem_cons.mp among).resolve_left fun same =>
        here (same ▸ named)
      obtain ⟨direction, decides⟩ := ih later
      refine ⟨direction, fun a b alike => ?_⟩
      rw [compareRows_cons, alike first (List.mem_cons_self ..) here, compareValues_refl,
        decides a b fun c listed => alike c (List.mem_cons_of_mem _ listed)]
      cases first.direction <;> rfl

theorem preorder_column {columns : String → Column} {orderBy : List OrderByClause}
    (ordered : PreorderOn (RowsOf columns orderBy) fun a b => compareRows a b orderBy)
    {clause : OrderByClause} (among : clause ∈ orderBy) :
    PreorderOn (columns clause.field).has compareValues := by
  choose other held using fun field => (columns field).inhabited
  let pick (v : Option Value) (field : String) : Option Value :=
    if field = clause.field then v else other field
  have rows (v : Option Value) (has : (columns clause.field).has v) :
      RowsOf columns orderBy (rowWith (pick v) orderBy) := by
    intro c listed
    rw [get_rowWith _ listed]
    unfold pick
    split
    · rename_i here
      rw [here]
      exact has
    · exact held c.field
  obtain ⟨direction, decides⟩ := compareRows_column among rfl
  have column : PreorderOn (columns clause.field).has fun v w =>
      directed direction (compareValues v w) := by
    refine ((ordered.comap fun v => rowWith (pick v) orderBy).mono rows).congr fun v w _ _ => ?_
    rw [decides]
    · rw [get_rowWith _ among, get_rowWith _ among]
      simp [pick]
    · intro c listed elsewhere
      rw [get_rowWith _ listed, get_rowWith _ listed]
      simp [pick, elsewhere]
  cases direction with
  | asc => exact column
  | desc => exact column.reverse.congr fun v w _ _ => (Ordering.swap_swap).symm

/-- The rows are in order exactly if each ordered column is sortable. -/
theorem sort_order_iff (orderBy : List OrderByClause) (columns : String → Column) :
    InOrder orderBy (RowsOf columns orderBy) ↔
      ∀ clause ∈ orderBy, Sortable (columns clause.field).has := by
  constructor
  · intro inOrder clause among
    exact sortable_of_preorder (preorder_column inOrder.preorder among)
  · intro sortable
    have ordered := preorder_rows orderBy sortable
    refine ⟨ordered, fun list all => ?_⟩
    unfold sortRows
    split
    · rename_i none_
      rw [none_]
      exact List.pairwise_of_forall fun _ _ => by simp [compareRows]
    · exact ordered.sorted list all

def anyColumn : Column := ⟨fun _ => True, none, trivial⟩

/-- A text between two integers is equal to both. -/
theorem mixed_column_unsorted :
    ¬ InOrder [⟨"a", .asc⟩] (RowsOf (fun _ => anyColumn) [⟨"a", .asc⟩]) := by
  intro inOrder
  let row (v : Value) : Row := ⟨(∅ : FinMap String Value).insert "a" v, none⟩
  have around := inOrder.preorder.trans (row (.int 2)) (row (.string "s")) (row (.int 1))
    (fun _ _ => trivial) (fun _ _ => trivial) (fun _ _ => trivial)
  revert around
  decide

end TronDB.Core
