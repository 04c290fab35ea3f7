import TronDB.Engine.AllOrNothing
import TronDB.Engine.Postings
import TronDB.Engine.VectorsFollow

/-! Whether the posting lists of the sparse indexes follow the stored vectors. -/
namespace TronDB.Engine
open TronDB.Core Binary Wal Ranked

/-! ### Stored weights -/

def heavy (w : F32) : Bool := !w.isNaN && SparseIndex.minWeight.magnitude ≤ w.magnitude

def dueWeights (vector : List (UInt32 × F32)) (d : UInt32) : List F32 :=
  (vector.filter fun entry => entry.1 = d && heavy entry.2).map Prod.snd

/-- The sparse vectors among the representations of a name, one after the other. -/
def sparseOf (representations : List Representation) (reprName : String) : List (UInt32 × F32) :=
  representations.flatMap fun r =>
    match r.vector with
    | .sparse sv => if r.name = reprName then sv else []
    | .dense _ => []

/-- The weights of a dimension that the store has for an entity. -/
def storedWeights (store : Store) (key : String × String) (id : LogicalId) (d : UInt32) : List F32 :=
  match store.entities[(key.1, id)]? with
  | some e => dueWeights (sparseOf e.representations key.2) d
  | none => []

/-! ### The system -/

/-- The writes of entities and of vectors, and imports. -/
inductive PostingAction where
  | write (a : VectorAction)
  | importFile (env : Env) (p : ImportPlan)

section Step
variable [WalPayload Payload] (registry : Registry)

def Indexed.post (x : Indexed) : PostingAction → Indexed
  | .write a => x.step registry a
  | .importFile env p => { x with state := (importCollection env x.state p).2 }

end Step

def SparseCovered (s : State) : Prop :=
  ∀ (collection : String) (schema : CollectionSchema),
    s.store.collections[collection]? = some schema → ∀ repr ∈ schema.representations,
      repr.sparse = true → s.sparseIndexes.contains (collection, repr.name) = true

/-- The posting lists hold exactly the stored weights, and the searches answer with the dot products
of the stored vectors. -/
structure PostingsFollow (s : State) : Prop where
  indexed : SparseCovered s
  listed : ∀ (key : String × String) (idx : SparseIndex), s.sparseIndexes[key]? = some idx →
    ∀ d id, (idx.weights d id).Perm (storedWeights s.store key id d)
  answers : ∀ (key : String × String) (idx : SparseIndex), s.sparseIndexes[key]? = some idx →
    idx.Answers (storedWeights s.store key)

/-- The store has no weights of the entity that an index would list. -/
def Weightless (s : State) (collection : String) (id : LogicalId) : Prop :=
  ∀ reprName, s.sparseIndexes.contains (collection, reprName) = true →
    ∀ d, storedWeights s.store (collection, reprName) id d = []

/-- The weights a recompute brings to the index of a representation. -/
def Job.brings (job : Job) (y : Encoded) (reprName : String) (d : UInt32) : List F32 :=
  match y.vector with
  | .sparse sv => if reprName = job.stored.name then SparseIndex.listedWeights sv d else []
  | .dense _ => []

/-- An INSERT whose entity cannot be built finds no stored weights, and one whose entity can be
built gives no weight that is no number. A recompute that writes back its copy of an entity finds
the weights of the copy stored but for those it brings. A file names no entity with weights. -/
def KeepsPostings (x : Indexed) : PostingAction → Prop
  | .write (.insert env p) => ∀ schema, x.state.schemas[p.collection]? = some schema →
      checkVectors schema p.collection p.vectors = .ok () →
      match buildEntity env schema p (p.target env) with
      | .error _ => Weightless x.state p.collection (p.target env)
      | .ok e => ∀ reprName, x.state.sparseIndexes.contains (p.collection, reprName) = true →
          ∀ entry ∈ sparseOf e.representations reprName, entry.2.isNaN = false
  | .write (.advance env i) => ∀ job y encoded later rest,
      x.tasks[i]? = some (.writing job (y :: encoded) later rest) →
      x.state.store.hasCollection job.collection = true →
      ∀ reprName, x.state.sparseIndexes.contains (job.collection, reprName) = true → ∀ d,
        (storedWeights x.state.store (job.collection, reprName) y.entity.id d ++
          job.brings y reprName d).Perm
          (dueWeights (sparseOf (job.refreshed env.toEnv y).representations reprName) d)
  | .write _ => True
  | .importFile env p => ∀ e ∈ x.state.rowsRead env p, Weightless x.state p.collection e.id

/-! ### Weights -/

theorem heavy_eq (w : F32) : heavy w = (!w.absLt SparseIndex.minWeight && !w.isNaN) := by
  have number : SparseIndex.minWeight.isNaN = false := by decide
  unfold heavy F32.absLt
  rw [number]
  cases w.isNaN
  · simp only [Bool.not_false, Bool.true_and, Bool.and_true, ← decide_not, Nat.not_lt]
  · simp

theorem dueWeights_eq (vector : List (UInt32 × F32)) (d : UInt32) :
    dueWeights vector d = (SparseIndex.listedWeights vector d).filter fun w => !w.isNaN := by
  unfold dueWeights SparseIndex.listedWeights
  rw [List.filter_map, List.filter_filter]
  congr 2
  funext entry
  rw [heavy_eq, Function.comp_apply, Bool.and_comm (!entry.2.isNaN), Bool.and_assoc]

theorem listed_perm_due (vector : List (UInt32 × F32)) :
    (∀ d, (SparseIndex.listedWeights vector d).Perm (dueWeights vector d)) ↔
      ∀ entry ∈ vector, entry.2.isNaN = false := by
  constructor
  · intro same entry there
    by_contra notNumber
    have listed : entry.2 ∈ SparseIndex.listedWeights vector entry.1 := by
      refine List.mem_map_of_mem (List.mem_filter.mpr ⟨there, ?_⟩)
      have nan : entry.2.isNaN = true := by simpa using notNumber
      simp [F32.absLt, nan]
    have due := (same entry.1).mem_iff.mp listed
    rw [dueWeights_eq] at due
    exact notNumber (by simpa using (List.mem_filter.mp due).2)
  · intro numbers d
    rw [dueWeights_eq, List.filter_eq_self.mpr]
    intro w there
    obtain ⟨entry, listed, rfl⟩ := List.mem_map.mp there
    rw [numbers entry (List.mem_filter.mp listed).1]
    rfl

/-! ### What the indexes list -/

/-- What an index lists of an entity, if there is the index. -/
def listedAt (sparseIndexes : FinMap (String × String) SparseIndex) (key : String × String)
    (id : LogicalId) (d : UInt32) : Option (List F32) :=
  sparseIndexes[key]?.map fun idx => idx.weights d id

def ListsFollow (s : State) : Prop :=
  ∀ (key : String × String) (id : LogicalId) (d : UInt32) (ws : List F32),
    listedAt s.sparseIndexes key id d = some ws → ws.Perm (storedWeights s.store key id d)

theorem postings_follow_lists {s : State} : PostingsFollow s ↔ SparseCovered s ∧ ListsFollow s := by
  constructor
  · refine fun follow => ⟨follow.indexed, fun key id d ws found => ?_⟩
    obtain ⟨idx, there, rfl⟩ := Option.map_eq_some_iff.mp found
    exact follow.listed key idx there d id
  · rintro ⟨covered, lists⟩
    have listed : ∀ (key : String × String) (idx : SparseIndex), s.sparseIndexes[key]? = some idx →
        ∀ d id, (idx.weights d id).Perm (storedWeights s.store key id d) :=
      fun key idx there d id => lists key id d _ (by rw [listedAt, there]; rfl)
    exact ⟨covered, listed, fun key idx there => SparseIndex.answers fun id d => listed key idx there d id⟩

theorem listedAt_adjust (sparseIndexes : FinMap (String × String) SparseIndex)
    (own key : String × String) (id : LogicalId) (d : UInt32) {change : SparseIndex → SparseIndex}
    {f : List F32 → List F32} (weights : ∀ idx, (change idx).weights d id = f (idx.weights d id)) :
    listedAt (FinMap.adjust sparseIndexes own change) key id d =
      (listedAt sparseIndexes key id d).map fun ws => if own = key then f ws else ws := by
  unfold listedAt
  rw [FinMap.get_adjust]
  by_cases here : own = key
  · rw [if_pos here, Option.map_map, Option.map_map]
    congr 1
    funext idx
    simp [weights, here]
  · rw [if_neg here, Option.map_map]
    congr 1
    funext idx
    simp [here]

theorem sparseOf_cons (r : Representation) (rest : List Representation) (reprName : String) :
    sparseOf (r :: rest) reprName = sparseOf [r] reprName ++ sparseOf rest reprName := by
  simp [sparseOf]

theorem sparseOf_single (r : Representation) (reprName : String) : sparseOf [r] reprName =
    match r.vector with
    | .sparse sv => if r.name = reprName then sv else []
    | .dense _ => [] := by
  simp [sparseOf]

section Representations
variable {collection : String} {key : String × String} {id : LogicalId} {d : UInt32}
  {change : List (UInt32 × F32) → SparseIndex → SparseIndex}
  {f : List (UInt32 × F32) → List F32 → List F32}

/-- A change for every sparse vector of an entity is one change with all of them. -/
theorem listedAt_foldl (weights : ∀ sv idx, (change sv idx).weights d id = f sv (idx.weights d id))
    (unchanged : ∀ ws, f [] ws = ws) (joined : ∀ sv sv' ws, f (sv ++ sv') ws = f sv' (f sv ws))
    (representations : List Representation) (sparseIndexes : FinMap (String × String) SparseIndex) :
    listedAt (representations.foldl (fun indexes repr =>
      match repr.vector with
      | .sparse sv => FinMap.adjust indexes (collection, repr.name) (change sv)
      | .dense _ => indexes) sparseIndexes) key id d =
      (listedAt sparseIndexes key id d).map fun ws =>
        if key.1 = collection then f (sparseOf representations key.2) ws else ws := by
  induction representations generalizing sparseIndexes with
  | nil => simp [sparseOf, unchanged]
  | cons r rest ih =>
    rw [List.foldl_cons, ih, sparseOf_cons, sparseOf_single]
    cases r.vector with
    | dense v => rfl
    | sparse sv =>
      dsimp only
      rw [listedAt_adjust _ _ _ _ _ (weights sv), Option.map_map]
      congr 1
      funext ws
      rw [Function.comp_apply, joined]
      by_cases here : key.1 = collection
      · by_cases this : r.name = key.2
        · rw [if_pos here, if_pos (Prod.ext here.symm this), if_pos here, if_pos this]
        · rw [if_pos here, if_neg fun same => this (congrArg Prod.snd same), if_pos here, if_neg this,
            unchanged]
      · rw [if_neg here, if_neg fun same => here (congrArg Prod.fst same).symm, if_neg here]

end Representations

theorem listedAt_removeSparse (sparseIndexes : FinMap (String × String) SparseIndex)
    (collection : String) (e : Entity) (key : String × String) (id : LogicalId) (d : UInt32) :
    listedAt (removeSparse sparseIndexes collection e) key id d =
      (listedAt sparseIndexes key id d).map fun ws =>
        if key.1 = collection then
          if e.id = id ∧ d ∈ (sparseOf e.representations key.2).map Prod.fst then [] else ws
        else ws := by
  refine listedAt_foldl (fun sv idx => idx.weights_remove e.id sv d id) (by simp) ?_ _ _
  intro sv sv' ws
  by_cases own : e.id = id <;> by_cases first : d ∈ sv.map Prod.fst <;>
    by_cases later : d ∈ sv'.map Prod.fst <;> simp [own, first, later]

theorem listedAt_insertSparse (sparseIndexes : FinMap (String × String) SparseIndex)
    (collection : String) (e : Entity) (key : String × String) (id : LogicalId) (d : UInt32) :
    listedAt (insertSparse sparseIndexes collection e) key id d =
      (listedAt sparseIndexes key id d).map fun ws =>
        if key.1 = collection then
          ws ++ if e.id = id then SparseIndex.listedWeights (sparseOf e.representations key.2) d else []
        else ws := by
  refine listedAt_foldl (f := fun sv ws => ws ++ if e.id = id then SparseIndex.listedWeights sv d else [])
    (fun sv idx => idx.weights_insert e.id sv d id) ?_ ?_ _ _
  · intro ws
    simp [SparseIndex.listedWeights]
  · intro sv sv' ws
    by_cases own : e.id = id <;> simp [own, SparseIndex.listedWeights]

/-! ### Changes of one collection -/

/-- The lists of some entities of a collection go from `ws` to `listed ws`, and their stored weights
become `due`. -/
structure Posted (s s' : State) (collection : String) (ids : List LogicalId)
    (listed : String → UInt32 → List F32 → List F32) (due : String → UInt32 → List F32) : Prop where
  lists : ∀ (key : String × String) (id : LogicalId) (d : UInt32),
    listedAt s'.sparseIndexes key id d = (listedAt s.sparseIndexes key id d).map fun ws =>
      if key.1 = collection ∧ id ∈ ids then listed key.2 d ws else ws
  stored : ∀ (key : String × String) (id : LogicalId) (d : UInt32),
    storedWeights s'.store key id d =
      if key.1 = collection ∧ id ∈ ids then due key.2 d else storedWeights s.store key id d

namespace Posted

variable {s s' : State} {collection : String} {ids : List LogicalId}
  {listed : String → UInt32 → List F32 → List F32} {due : String → UInt32 → List F32}

theorem same (sparseIndexes : s'.sparseIndexes = s.sparseIndexes)
    (stored : ∀ key id d, storedWeights s'.store key id d = storedWeights s.store key id d) :
    Posted s s' collection [] listed due where
  lists key id d := by simp [sparseIndexes]
  stored key id d := by simp [stored]

theorem follow_iff (posted : Posted s s' collection ids listed due) (before : ListsFollow s) :
    ListsFollow s' ↔ ∀ id ∈ ids, ∀ reprName d ws,
      listedAt s.sparseIndexes (collection, reprName) id d = some ws →
        (listed reprName d ws).Perm (due reprName d) := by
  constructor
  · intro after id there reprName d ws found
    have now := posted.lists (collection, reprName) id d
    rw [found, Option.map_some, if_pos ⟨rfl, there⟩] at now
    have agree := after _ id d _ now
    rw [posted.stored, if_pos ⟨rfl, there⟩] at agree
    exact agree
  · intro agree key id d ws found
    rw [posted.lists] at found
    obtain ⟨old, there, rfl⟩ := Option.map_eq_some_iff.mp found
    rw [posted.stored]
    by_cases own : key.1 = collection ∧ id ∈ ids
    · have here : (collection, key.2) = key := Prod.ext own.1.symm rfl
      rw [if_pos own, if_pos own]
      exact agree id own.2 key.2 d old (here ▸ there)
    · rw [if_neg own, if_neg own]
      exact before key id d old there

theorem contains (posted : Posted s s' collection ids listed due) (key : String × String) :
    s'.sparseIndexes.contains key = s.sparseIndexes.contains key := by
  have some_ := congrArg Option.isSome (posted.lists key "" 0)
  rw [Option.isSome_map] at some_
  unfold listedAt at some_
  rw [Option.isSome_map, Option.isSome_map] at some_
  rw [Std.ExtTreeMap.contains_eq_isSome_getElem?, Std.ExtTreeMap.contains_eq_isSome_getElem?, some_]

theorem covered (posted : Posted s s' collection ids listed due)
    (collections : s'.store.collections = s.store.collections) (covered : SparseCovered s) :
    SparseCovered s' := by
  intro name schema known repr there sparse
  rw [posted.contains]
  rw [collections] at known
  exact covered name schema known repr there sparse

end Posted

theorem listedAt_isSome (sparseIndexes : FinMap (String × String) SparseIndex)
    (key : String × String) (id : LogicalId) (d : UInt32) :
    (∃ ws, listedAt sparseIndexes key id d = some ws) ↔ sparseIndexes.contains key = true := by
  rw [← Option.isSome_iff_exists, listedAt, Option.isSome_map, Std.ExtTreeMap.contains_eq_isSome_getElem?]

theorem weightless_iff {s : State} (before : ListsFollow s) (collection : String) (id : LogicalId) :
    Weightless s collection id ↔ ∀ reprName d ws,
      listedAt s.sparseIndexes (collection, reprName) id d = some ws → ws.Perm [] := by
  constructor
  · intro none_ reprName d ws found
    have opened := (listedAt_isSome ..).mp ⟨ws, found⟩
    exact none_ reprName opened d ▸ before _ id d ws found
  · intro none_ reprName opened d
    obtain ⟨ws, found⟩ := (listedAt_isSome _ (collection, reprName) id d).mpr opened
    exact ((before _ id d ws found).symm.trans (none_ reprName d ws found)).eq_nil

theorem storedWeights_insert {store store' : Store} {collection : String} {e : Entity}
    (entities : store'.entities = store.entities.insert (collection, e.id) e) (key : String × String)
    (id : LogicalId) (d : UInt32) : storedWeights store' key id d =
      if key.1 = collection ∧ id ∈ [e.id] then dueWeights (sparseOf e.representations key.2) d
      else storedWeights store key id d := by
  unfold storedWeights
  rw [entities, FinMap.get_insert]
  simp only [List.mem_singleton]
  by_cases here : key.1 = collection ∧ id = e.id
  · rw [if_pos here, if_pos (Prod.ext here.1.symm here.2.symm)]
  · rw [if_neg here, if_neg fun same => here ⟨(Prod.mk.inj same).1.symm, (Prod.mk.inj same).2.symm⟩]

theorem storedWeights_entities {store store' : Store} (entities : store'.entities = store.entities)
    (key : String × String) (id : LogicalId) (d : UInt32) :
    storedWeights store' key id d = storedWeights store key id d := by
  rw [storedWeights, entities]
  rfl

/-- Taking the stored entity out of indexes that follow leaves nothing of it. -/
theorem listedAt_cleared {s : State} (before : ListsFollow s) {collection : String} {id : LogicalId}
    {old : Entity} (found : s.store.get collection id = .ok old) (key : String × String)
    (id' : LogicalId) (d : UInt32) :
    listedAt (removeSparse s.sparseIndexes collection old) key id' d =
      (listedAt s.sparseIndexes key id' d).map fun ws =>
        if key.1 = collection ∧ id' ∈ [id] then [] else ws := by
  obtain ⟨-, stored⟩ := (s.store.get_eq_ok ..).mp found
  have own : old.id = id := s.store.keyed _ _ _ stored
  rw [listedAt_removeSparse]
  simp only [List.mem_singleton]
  refine Option.map_congr fun ws listed => ?_
  by_cases here : key.1 = collection
  · by_cases this : id' = id
    · rw [if_pos here, if_pos (c := key.1 = collection ∧ id' = id) ⟨here, this⟩]
      split
      · rfl
      · rename_i absent
        have nothing : storedWeights s.store key id' d = [] := by
          have entity : s.store.entities[(key.1, id')]? = some old := by rw [here, this, stored]
          have missing : d ∉ (sparseOf old.representations key.2).map Prod.fst :=
            fun there => absent ⟨own.trans this.symm, there⟩
          unfold storedWeights
          rw [entity]
          refine List.map_eq_nil_iff.mpr (List.filter_eq_nil_iff.mpr fun entry there both => missing ?_)
          simp only [Bool.and_eq_true, decide_eq_true_eq] at both
          exact both.1 ▸ List.mem_map_of_mem there
        exact (nothing ▸ before key id' d ws listed).eq_nil
    · rw [if_pos here, if_neg fun both => this (both.1.symm.trans own), if_neg fun both => this both.2]
  · rw [if_neg here, if_neg fun both => here both.1]

theorem listedAt_removeOldEntries {s : State} (before : ListsFollow s) (env : Env) {collection : String}
    (present : s.store.hasCollection collection = true) (id : LogicalId) (key : String × String)
    (id' : LogicalId) (d : UInt32) :
    listedAt (s.removeOldEntries env collection id).sparseIndexes key id' d =
      (listedAt s.sparseIndexes key id' d).map fun ws =>
        if key.1 = collection ∧ id' ∈ [id] then [] else ws := by
  unfold State.removeOldEntries
  cases found : s.store.get collection id with
  | ok old => exact listedAt_cleared before found key id' d
  | error e =>
    have absent : s.store.entities[(collection, id)]? = none := by
      cases stored : s.store.entities[(collection, id)]? with
      | none => rfl
      | some old => cases found.symm.trans ((s.store.get_eq_ok ..).mpr ⟨present, stored⟩)
    refine Option.map_id'.symm.trans (Option.map_congr fun ws listed => ?_)
    split
    · rename_i here
      simp only [List.mem_singleton] at here
      have nothing : storedWeights s.store key id' d = [] := by
        rw [storedWeights, here.1, here.2, absent]
      exact (nothing ▸ before key id' d ws listed).eq_nil
    · rfl

/-- The step changes the lists of one collection, which agree with what is stored iff `agree`. -/
def Posts (s s' : State) (agree : Prop) : Prop :=
  ∃ collection ids listed due, Posted s s' collection ids listed due ∧
    (agree ↔ ∀ id ∈ ids, ∀ reprName d ws,
      listedAt s.sparseIndexes (collection, reprName) id d = some ws →
        (listed reprName d ws).Perm (due reprName d))

namespace Posts

variable {s s' : State} {agree : Prop}

theorem follow_iff (posts : Posts s s' agree) (before : ListsFollow s) : ListsFollow s' ↔ agree := by
  obtain ⟨collection, ids, listed, due, posted, decides⟩ := posts
  exact (posted.follow_iff before).trans decides.symm

theorem covered (posts : Posts s s' agree) (collections : s'.store.collections = s.store.collections)
    (covered : SparseCovered s) : SparseCovered s' := by
  obtain ⟨collection, ids, listed, due, posted, -⟩ := posts
  exact posted.covered collections covered

theorem same (sparseIndexes : s'.sparseIndexes = s.sparseIndexes)
    (stored : ∀ key id d, storedWeights s'.store key id d = storedWeights s.store key id d)
    (agrees : agree) : Posts s s' agree :=
  ⟨"", [], fun _ _ ws => ws, fun _ _ => [], .same sparseIndexes stored, iff_of_true agrees (by simp)⟩

end Posts

/-! ### The statements -/

section Statements
variable [WalPayload Payload] {s : State}

theorem insert_posts (env : Env) (p : InsertPlan) (synced : Synced s) (before : ListsFollow s)
    (tasks : List Task) :
    Posts s (insert env s p).2 (KeepsPostings ⟨s, tasks⟩ (.write (.insert env p))) := by
  have present {schema : CollectionSchema} (known : s.schemas[p.collection]? = some schema) :
      s.store.hasCollection p.collection = true := by
    rw [synced.schemas] at known
    exact Store.hasCollection_of_stored known
  cases insert_ends env s p with
  | refused error rejected result =>
    rw [result]
    exact .same rfl (fun _ _ _ => rfl) fun schema known checked => absurd checked (rejected schema known)
  | unbuilt schema error known checked built result =>
    rw [result]
    refine ⟨p.collection, [p.target env], fun _ _ _ => [],
      fun reprName d => storedWeights s.store (p.collection, reprName) (p.target env) d,
      ⟨listedAt_removeOldEntries before env (present known) (p.target env), fun key id d => ?_⟩, ?_⟩
    · rw [storedWeights_entities (removeOldEntries_entities env s p.collection (p.target env))]
      split
      · rename_i here
        have key_ : (p.collection, key.2) = key := Prod.ext here.1.symm rfl
        rw [key_, List.mem_singleton.mp here.2]
      · rfl
    · have keeps : KeepsPostings ⟨s, tasks⟩ (.write (.insert env p)) ↔
          Weightless s p.collection (p.target env) := by
        constructor
        · intro keeps
          have none_ := keeps schema known checked
          rw [built] at none_
          exact none_
        · intro none_ schema' known' _
          cases known.symm.trans known'
          rw [built]
          exact none_
      rw [keeps, weightless_iff before]
      simp only [List.mem_singleton, forall_eq]
      refine forall₄_congr fun reprName d ws found => ?_
      have stored := before _ _ d ws found
      exact ⟨fun none_ => (none_.symm.trans stored), fun none_ => stored.trans none_.symm⟩
  | unstored schema e known checked built absent result =>
    cases absent.symm.trans (present known)
  | stored schema e known checked built there wal left =>
    have own : e.id = p.target env := id_of_built built
    refine ⟨p.collection, [p.target env],
      fun reprName d _ => SparseIndex.listedWeights (sparseOf e.representations reprName) d,
      fun reprName d => dueWeights (sparseOf e.representations reprName) d, ⟨fun key id d => ?_, ?_⟩, ?_⟩
    · rw [left.sparseIndexes, listedAt_insertSparse,
        listedAt_removeOldEntries before env (present known), Option.map_map]
      congr 1
      funext ws
      simp only [Function.comp_apply, own, List.mem_singleton]
      by_cases here : key.1 = p.collection
      · by_cases this : id = p.target env
        · simp [here, this]
        · simp [here, this, Ne.symm this]
      · simp [here]
    · have entities := left.entities
      rw [removeOldEntries_entities] at entities
      rw [← own]
      exact storedWeights_insert (e := { e with txTime := s.wal.nextTx }) entities
    · have keeps : KeepsPostings ⟨s, tasks⟩ (.write (.insert env p)) ↔
          ∀ reprName, s.sparseIndexes.contains (p.collection, reprName) = true →
            ∀ entry ∈ sparseOf e.representations reprName, entry.2.isNaN = false := by
        constructor
        · intro keeps
          have numbers := keeps schema known checked
          rw [built] at numbers
          exact numbers
        · intro numbers schema' known' _
          cases known.symm.trans known'
          rw [built]
          exact numbers
      rw [keeps]
      simp only [List.mem_singleton, forall_eq, ← listed_perm_due]
      refine forall_congr' fun reprName => ⟨fun agree d ws found => ?_, fun agree opened d => ?_⟩
      · exact agree ((listedAt_isSome ..).mp ⟨ws, found⟩) d
      · obtain ⟨ws, found⟩ := (listedAt_isSome _ (p.collection, reprName) (p.target env) d).mpr opened
        exact agree d ws found

theorem update_posts (env : Env) (p : UpdateEntityPlan) : Posts s (updateEntity env s p).2 True := by
  obtain ⟨-, sparseIndexes, same | ⟨old, new, found, own, representations, entities⟩⟩ :=
    update_representations env s p
  · exact .same sparseIndexes (storedWeights_entities same) trivial
  · obtain ⟨-, stored⟩ := (s.store.get_eq_ok ..).mp found
    refine .same sparseIndexes (fun key id d => ?_) trivial
    rw [storedWeights_insert entities]
    split
    · rename_i here
      have same : id = p.entityId := (List.mem_singleton.mp here.2).trans own
      rw [storedWeights, here.1, same, stored, representations]
    · rfl

theorem delete_posts (env : Env) (p : DeleteEntityPlan) (before : ListsFollow s) :
    Posts s (deleteEntity env s p).2 True := by
  rcases delete_vectors env s p with same | ⟨old, found, -, sparseIndexes, entities⟩
  · rw [same]
    exact .same rfl (fun _ _ _ => rfl) trivial
  · refine ⟨p.collection, [p.entityId], fun _ _ _ => [], fun _ _ => [], ⟨fun key id d => ?_, ?_⟩, by simp⟩
    · rw [sparseIndexes]
      exact listedAt_cleared before found key id d
    · intro key id d
      unfold storedWeights
      rw [entities, FinMap.get_erase]
      simp only [List.mem_singleton]
      by_cases here : key.1 = p.collection ∧ id = p.entityId
      · rw [if_pos here, if_pos (Prod.ext here.1.symm here.2.symm)]
      · rw [if_neg here, if_neg fun same => here ⟨(Prod.mk.inj same).1.symm, (Prod.mk.inj same).2.symm⟩]

omit [WalPayload Payload] in
theorem importRows_postings (env : Env) (collection : String) (txId : Nat) (entities : List Entity)
    (t : State) (unwritten : ∀ e ∈ entities, e.representations = []) {t' : State}
    (rows : t' = entities.foldl (fun t e => t.importRow env collection txId e) t) :
    t'.sparseIndexes = t.sparseIndexes ∧ ∀ (key : String × String) (id : LogicalId) (d : UInt32),
      storedWeights t'.store key id d =
        if key.1 = collection ∧ id ∈ entities.map Entity.id then [] else storedWeights t.store key id d := by
  induction entities generalizing t with
  | nil =>
    subst rows
    exact ⟨rfl, fun _ _ _ => by simp⟩
  | cons e rest ih =>
    rw [List.forall_mem_cons] at unwritten
    obtain ⟨sparseIndexes, stored⟩ := ih (t.importRow env collection txId e) unwritten.2 rows
    refine ⟨sparseIndexes, fun key id d => (stored key id d).trans ?_⟩
    have first : storedWeights (t.importRow env collection txId e).store key id d =
        if key.1 = collection ∧ id ∈ [e.id] then dueWeights (sparseOf e.representations key.2) d
        else storedWeights t.store key id d := storedWeights_insert rfl key id d
    have none_ : dueWeights (sparseOf e.representations key.2) d = [] := by
      simp [unwritten.1, sparseOf, dueWeights]
    rw [first, none_]
    simp only [List.map_cons, List.mem_cons, List.not_mem_nil, or_false]
    by_cases here : key.1 = collection
    · by_cases this : id = e.id
      · simp [here, this]
      · simp [here, this]
    · simp [here]

theorem import_posts (env : Env) (p : ImportPlan) (synced : Synced s) (before : ListsFollow s)
    (tasks : List Task) :
    Posts s (importCollection env s p).2 (KeepsPostings ⟨s, tasks⟩ (.importFile env p)) := by
  have read (known : s.schemas.contains p.collection = true) :
      Posts s (importLoop env p.collection s.wal.nextTx (env.linesOf p.path) 0 (s.importing env p)).2
        (KeepsPostings ⟨s, tasks⟩ (.importFile env p)) := by
    have present : (s.importing env p).store.hasCollection p.collection = true := by
      rw [synced.schemas] at known
      exact known
    have unwritten : ∀ e ∈ importedEntities env (env.linesOf p.path) 0, e.representations = [] := by
      intro e there
      obtain ⟨_, _, rfl⟩ := mem_importedEntities there
      rfl
    obtain ⟨sparseIndexes, stored⟩ := importRows_postings env p.collection s.wal.nextTx _
      (s.importing env p) unwritten (importLoop_rows env _ (env.linesOf p.path) 0 present)
    refine ⟨p.collection, (s.rowsRead env p).map Entity.id, fun _ _ ws => ws, fun _ _ => [],
      ⟨fun key id d => ?_, fun key id d => ?_⟩, ?_⟩
    · rw [sparseIndexes]
      simp [State.importing]
    · rw [rowsRead_known known]
      exact stored key id d
    · unfold KeepsPostings
      dsimp only
      rw [List.forall_mem_map]
      exact forall₂_congr fun e _ => weightless_iff before p.collection e.id
  cases importCollection_ends env s p with
  | refused error nothing result =>
    rw [result]
    refine .same rfl (fun _ _ _ => rfl) fun e there => ?_
    rw [nothing] at there
    cases there
  | failed error s' known looped result =>
    have posts := read known
    rw [looped] at posts
    rw [result]
    exact posts
  | done imported s' known looped result =>
    have posts := read known
    rw [looped] at posts
    obtain ⟨reply, result⟩ := result
    rw [result]
    obtain ⟨collection, ids, listed, due, posted, decides⟩ := posts
    exact ⟨collection, ids, listed, due, ⟨posted.lists, posted.stored⟩, decides⟩

omit [WalPayload Payload] in
/-- Opening the sparse indexes of a schema makes new ones, and keeps the others. -/
theorem openSparse_cases (schema : CollectionSchema)
    (sparseIndexes : FinMap (String × String) SparseIndex) (key : String × String) :
    (key.1 = schema.name ∧ (openSparse sparseIndexes schema)[key]? = some .new) ∨
      (openSparse sparseIndexes schema)[key]? = sparseIndexes[key]? ∧
        ∀ repr ∈ schema.representations, repr.sparse = true → (schema.name, repr.name) ≠ key := by
  refine (opened_cases schema.name (fun r => if r.sparse then some SparseIndex.new else none)
    (show openSparse sparseIndexes schema = _ from rfl) ?_ ?_ key).imp ?_ ?_
  · intro m r
    cases r.sparse <;> simp
  · intro m r v
    cases r.sparse <;> simp +contextual
  · rintro ⟨own, r, v, made, found⟩
    cases sparse : r.sparse with
    | true =>
      rw [sparse] at made
      exact ⟨own, found.trans made.symm⟩
    | false => simp [sparse] at made
  · rintro ⟨same, others⟩
    exact ⟨same, fun r there sparse => others r there (by simp [sparse])⟩

theorem create_lists (env : Env) (p : CreateCollectionPlan) (housed : Housed s.store)
    (before : ListsFollow s) (covered : SparseCovered s) :
    ListsFollow (createCollection env s p).2 ∧ SparseCovered (createCollection env s p).2 := by
  rcases create_vectors env s p with ⟨-, schemas, sparseIndexes, entities⟩ |
    ⟨absent, entities, collections, -, -, sparseIndexes⟩
  · have posts : Posts s (createCollection env s p).2 True :=
      .same sparseIndexes (storedWeights_entities entities) trivial
    exact ⟨(posts.follow_iff before).mpr trivial, posts.covered schemas.collections covered⟩
  · refine ⟨fun key id d ws found => ?_, fun collection schema known repr there sparse => ?_⟩
    · rw [storedWeights_entities entities]
      unfold listedAt at found
      rw [sparseIndexes] at found
      rcases openSparse_cases (buildCollectionSchema p) s.sparseIndexes key with ⟨own, opened⟩ | ⟨same, -⟩
      · rw [opened, Option.map_some, SparseIndex.weights_new] at found
        cases found
        rw [storedWeights, housed.absent (own ▸ absent) id]
      · rw [same] at found
        exact before key id d ws found
    · rw [collections, FinMap.get_insert] at known
      rw [sparseIndexes, Std.ExtTreeMap.contains_eq_isSome_getElem?]
      rcases openSparse_cases (buildCollectionSchema p) s.sparseIndexes (collection, repr.name) with
        ⟨-, opened⟩ | ⟨same, others⟩
      · rw [opened]
        rfl
      · split at known
        · rename_i own
          cases known
          exact absurd (congrArg (·, repr.name) own) (others repr there sparse)
        · rw [same, ← Std.ExtTreeMap.contains_eq_isSome_getElem?]
          exact covered collection schema known repr there sparse

end Statements

/-! ### Recomputes -/

section Recomputes
variable [WalPayload Payload] {registry : Registry} {s : State}

/-- A write-back puts its copy, and its vector behind the lists of the representation. -/
theorem writeBack_lists (job : Job) (env : Env) {s : State} {y : Encoded} (own : y.key.1 = y.entity.id)
    (present : s.store.hasCollection job.collection = true) (key : String × String) (id : LogicalId)
    (d : UInt32) : listedAt (job.writeBack env s y).2.sparseIndexes key id d =
      (listedAt s.sparseIndexes key id d).map fun ws =>
        if key.1 = job.collection ∧ id ∈ [y.entity.id] then ws ++ job.brings y key.2 d else ws := by
  have kept : (s.logTx env.ts job.collection
      [(.reprWrite, .entity (job.refreshed env y))]).store.hasCollection job.collection = true := present
  unfold Job.writeBack Store.insert
  simp only [kept, if_true]
  cases vector : y.vector with
  | dense v =>
    have nothing : listedAt s.sparseIndexes key id d = (listedAt s.sparseIndexes key id d).map fun ws =>
        if key.1 = job.collection ∧ id ∈ [y.entity.id] then ws ++ job.brings y key.2 d else ws := by
      simp [Job.brings, vector]
    dsimp only [State.logTx]
    cases s.location.transition y.key .clean <;> exact nothing
  | sparse sv =>
    have listed : listedAt (FinMap.adjust s.sparseIndexes (job.collection, job.stored.name) fun idx =>
        idx.insert y.key.1 sv) key id d = (listedAt s.sparseIndexes key id d).map fun ws =>
        if key.1 = job.collection ∧ id ∈ [y.entity.id] then ws ++ job.brings y key.2 d else ws := by
      rw [listedAt_adjust (f := fun ws => ws ++ if y.key.1 = id then SparseIndex.listedWeights sv d else [])
        _ _ _ _ _ fun idx => idx.weights_insert y.key.1 sv d id]
      congr 1
      funext ws
      simp only [Job.brings, vector, List.mem_singleton, own]
      by_cases here : (job.collection, job.stored.name) = key
      · subst here
        by_cases this : id = y.entity.id
        · simp [this]
        · simp [this, Ne.symm this]
      · by_cases collection : key.1 = job.collection
        · have other : key.2 ≠ job.stored.name := fun name => here (Prod.ext collection.symm name.symm)
          simp [here, other]
        · simp [here, collection]
    dsimp only [State.logTx]
    cases s.location.transition y.key .clean <;> exact listed

/-- What a task is about to write back, and whether it finds its collection. -/
def Writes (s : State) (task : Task) (job : Job) (y : Encoded) : Prop :=
  (∃ encoded later rest, task = .writing job (y :: encoded) later rest) ∧
    s.store.hasCollection job.collection = true

theorem advance_posts (env : RecomputeEnv) {task : Task} (ok : TaskOk registry s.schemas task)
    (before : ListsFollow s) : Posts s (advance env s task).1
      (∀ job y, Writes s task job y → ∀ reprName,
        s.sparseIndexes.contains (job.collection, reprName) = true → ∀ d,
          (storedWeights s.store (job.collection, reprName) y.entity.id d ++
            job.brings y reprName d).Perm
            (dueWeights (sparseOf (job.refreshed env.toEnv y).representations reprName) d)) := by
  by_cases writes : ∃ job y encoded later rest, task = .writing job (y :: encoded) later rest
  · obtain ⟨job, y, encoded, later, rest, rfl⟩ := writes
    have own : y.key.1 = y.entity.id := by
      rw [(ok.2.1 y (List.mem_cons_self ..)).1]
    rw [advance_write]
    cases present : s.store.hasCollection job.collection with
    | false =>
      obtain ⟨e, failed⟩ := writeBack_absent job env.toEnv y present
      rw [failed]
      refine .same rfl (fun _ _ _ => rfl) fun job' y' writes => ?_
      obtain ⟨⟨_, _, _, this⟩, here⟩ := writes
      cases this
      cases present.symm.trans here
    | true =>
      have store := (writeBack_put job env.toEnv y present).1
      refine ⟨job.collection, [y.entity.id], fun reprName d ws => ws ++ job.brings y reprName d,
        fun reprName d => dueWeights (sparseOf (job.refreshed env.toEnv y).representations reprName) d,
        ⟨writeBack_lists job env.toEnv own present, fun key id d => ?_⟩, ?_⟩
      · rw [store]
        exact storedWeights_insert (e := job.refreshed env.toEnv y) rfl key id d
      · simp only [List.mem_singleton, forall_eq]
        constructor
        · intro keeps reprName d ws found
          have opened := (listedAt_isSome ..).mp ⟨ws, found⟩
          exact ((before _ _ d ws found).append_right _).trans
            (keeps job y ⟨⟨encoded, later, rest, rfl⟩, present⟩ reprName opened d)
        · intro agree job' y' writes reprName opened d
          obtain ⟨⟨_, _, _, this⟩, -⟩ := writes
          cases this
          obtain ⟨ws, found⟩ := (listedAt_isSome _ _ y.entity.id d).mpr opened
          exact ((before _ _ d ws found).symm.append_right _).trans (agree reprName d ws found)
  · have quiet : ∀ job y encoded later rest, task ≠ .writing job (y :: encoded) later rest :=
      fun job y encoded later rest same => writes ⟨job, y, encoded, later, rest, same⟩
    have store := (advance_quiet env s task quiet).1
    refine .same (advance_indexes env s task quiet).2 (storedWeights_entities (by rw [store])) ?_
    rintro job y ⟨⟨encoded, later, rest, same⟩, -⟩
    exact absurd same (quiet job y encoded later rest)

/-! ### Runs -/

/-- What a run keeps as long as the postings follow. -/
structure Listing (registry : Registry) (x : Indexed) : Prop where
  vectored : Vectored registry x
  covered : SparseCovered x.state

omit [WalPayload Payload] in
theorem housed_importLoop (env : Env) (collection : String) (txId : Nat) (lines : List ImportLine)
    (imported : Nat) {t : State} (housed : Housed t.store) :
    Housed (importLoop env collection txId lines imported t).2.store :=
  importLoop_invariant (P := fun t => Housed t.store) env collection txId (fun _ _ housed => housed)
    (fun _ _ present housed => housed.put present rfl rfl) lines imported housed

theorem vectored_import {tasks : List Task} (inv : Vectored registry ⟨s, tasks⟩) (env : Env)
    (p : ImportPlan) : Vectored registry ⟨(importCollection env s p).2, tasks⟩ := by
  have kept :
      Housed (importLoop env p.collection s.wal.nextTx (env.linesOf p.path) 0 (s.importing env p)).2.store ∧
      (importLoop env p.collection s.wal.nextTx (env.linesOf p.path) 0 (s.importing env p)).2.indexes =
        s.indexes :=
    ⟨housed_importLoop env _ _ _ _ inv.housed, indexes_importLoop env ..⟩
  have same := sameSchemas_importCollection env s p
  have rows {s' : State} (same : SameSchemas s s') (both : Housed s'.store ∧ s'.indexes = s.indexes) :
      Vectored registry ⟨s', tasks⟩ := by
    refine inv.rows same both.1 ?_ fun key h found => ⟨h, by rw [both.2, found]⟩
    rw [both.2]
    exact inv.ok
  cases importCollection_ends env s p with
  | refused error nothing result =>
    rw [result]
    exact inv
  | failed error s' known looped result =>
    rw [looped] at kept
    rw [result] at same ⊢
    exact rows same kept
  | done imported s' known looped result =>
    rw [looped] at kept
    obtain ⟨reply, result⟩ := result
    rw [result] at same ⊢
    exact rows same kept

theorem post_advance {x : Indexed} (env : RecomputeEnv) {i : Nat} {task : Task}
    (running : x.tasks[i]? = some task) :
    (x.post registry (.write (.advance env i))).state = (advance (env.with registry) x.state task).1 := by
  simp only [Indexed.post, Indexed.step, running]

theorem advance_agrees (env : RecomputeEnv) {x : Indexed} {i : Nat} {task : Task}
    (running : x.tasks[i]? = some task) (ok : TaskOk registry x.state.schemas task)
    (before : ListsFollow x.state) : Posts x.state (x.post registry (.write (.advance env i))).state
      (KeepsPostings x (.write (.advance env i))) := by
  obtain ⟨collection, ids, listed, due, posted, decides⟩ :=
    advance_posts (env.with registry) ok before
  rw [post_advance env running]
  refine ⟨collection, ids, listed, due, posted, Iff.trans ?_ decides⟩
  constructor
  · rintro keeps job y ⟨⟨encoded, later, rest, rfl⟩, present⟩
    exact keeps job y encoded later rest running present
  · intro agree job y encoded later rest running' present
    cases running.symm.trans running'
    exact agree job y ⟨⟨encoded, later, rest, rfl⟩, present⟩

theorem listing_step {x : Indexed} (inv : Listing registry x) (before : ListsFollow x.state)
    (a : PostingAction) : Listing registry (x.post registry a) ∧
      (ListsFollow (x.post registry a).state ↔ KeepsPostings x a) := by
  have synced := inv.vectored.synced
  have posted {a : PostingAction} (vectored : Vectored registry (x.post registry a))
      (posts : Posts x.state (x.post registry a).state (KeepsPostings x a))
      (collections : (x.post registry a).state.store.collections = x.state.store.collections) :
      Listing registry (x.post registry a) ∧
        (ListsFollow (x.post registry a).state ↔ KeepsPostings x a) :=
    ⟨⟨vectored, posts.covered collections inv.covered⟩, posts.follow_iff before⟩
  cases a with
  | importFile env p =>
    exact posted (vectored_import inv.vectored env p) (import_posts env p synced before x.tasks)
      (sameSchemas_importCollection env x.state p).collections
  | write a =>
    have vectored := vectored_step inv.vectored a
    cases a with
    | create env p =>
      obtain ⟨lists, covered⟩ := create_lists env p inv.vectored.housed before inv.covered
      exact ⟨⟨vectored, covered⟩, iff_of_true lists trivial⟩
    | insert env p =>
      exact posted vectored (insert_posts env p synced before x.tasks)
        (sameSchemas_insert env x.state p).collections
    | update env p =>
      exact posted vectored (update_posts env p) (sameSchemas_updateEntity env x.state p).collections
    | delete env p =>
      exact posted vectored (delete_posts env p before) (sameSchemas_deleteEntity env x.state p).collections
    | startRecompute env =>
      exact posted vectored (.same rfl (fun _ _ _ => rfl) trivial) rfl
    | advance env i =>
      cases running : x.tasks[i]? with
      | none =>
        have still : x.post registry (.write (.advance env i)) = x := by
          simp only [Indexed.post, Indexed.step, running]
        rw [still]
        refine ⟨inv, iff_of_true before fun job y encoded later rest running' => ?_⟩
        cases running.symm.trans running'
      | some task =>
        have ok := inv.vectored.tasks task (List.mem_of_getElem? running)
        refine posted vectored (advance_agrees env running ok before) ?_
        rw [post_advance env running]
        rcases advance_vectors (env.with registry) x.state ok with
          ⟨-, store, -⟩ | ⟨_, _, _, _, _, -, -, store, -⟩
        · rw [store]
        · rw [store]
          rfl

/-- Along every run of statements, imports and recomputes the posting lists follow the store iff
every INSERT, import and write-back keeps them. -/
theorem postings_follow_iff (registry : Registry) (config : WalConfig) (as : List PostingAction) :
    (∀ x ∈ Run.visited (Indexed.post registry) (.start (State.init config)) as,
      PostingsFollow x.state) ↔
      ∀ p ∈ Run.taken (Indexed.post registry) (.start (State.init config)) as,
        KeepsPostings p.1 p.2 := by
  have start : Listing registry (.start (State.init config)) :=
    ⟨vectored_start config, by simp [SparseCovered, Indexed.start, State.init, Store.empty]⟩
  have empty : ListsFollow (Indexed.start (State.init config)).state := by
    simp [ListsFollow, listedAt, Indexed.start, State.init]
  refine Run.good_iff_guarded (Indexed.post registry) (Listing registry) (fun x => PostingsFollow x.state)
    KeepsPostings as start ?_ (fun x a inv before _ => ?_) fun x a inv before => ?_
  · exact postings_follow_lists.mpr ⟨start.covered, empty⟩
  · exact (listing_step inv (postings_follow_lists.mp before).2 a).1
  · obtain ⟨inv', decides⟩ := listing_step inv (postings_follow_lists.mp before).2 a
    rw [postings_follow_lists, decides]
    exact and_iff_right inv'.covered

end Recomputes
section Examples
attribute [local instance] headerOnly

/-- An entity with a weight, and then a file that names it. -/
def importedOver : List PostingAction :=
  [.write (.create .idle ⟨"docs", [⟨"words", none, none, .cosine, true, []⟩], [], [], none⟩),
    .write (.insert .idle ⟨"docs", ["id"], [.string "d"], [("words", .sparse [(1, ⟨0x3F800000⟩)])],
      none, none⟩),
    .importFile (reading [.object [("id", .string "d")]]) ⟨"docs", "docs.jsonl"⟩]

/-- The posting stays when the file has taken the vector away. -/
theorem imported_over_stays_listed : ¬ PostingsFollow
    (importedOver.foldl (Indexed.post fun _ _ => none) (.start (State.init default))).state := by
  intro follow
  have listed : listedAt (importedOver.foldl (Indexed.post fun _ _ => none)
      (.start (State.init default))).state.sparseIndexes ("docs", "words") "d" 1 =
        some [⟨0x3F800000⟩] := by decide
  have stored : storedWeights (importedOver.foldl (Indexed.post fun _ _ => none)
      (.start (State.init default))).state.store ("docs", "words") "d" 1 = [] := by decide
  have same := (postings_follow_lists.mp follow).2 _ _ _ _ listed
  rw [stored] at same
  exact absurd same.eq_nil (List.cons_ne_nil _ _)

end Examples
end TronDB.Engine
