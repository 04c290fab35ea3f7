import TronDB.Core.ExactDecay
import TronDB.Engine.Structural

/-! The decay sweep in exact arithmetic: which inferred edges it takes in the end, and that it
takes no others. -/
namespace TronDB.Engine
open TronDB.Core Binary Wal

/-! ### Sweeps that differ in what they take -/

section Sweeps

def sweepTypeBy [WalPayload Payload] (ts : Int) (gone : EdgeType → F64 → Edge → Bool) (s : State)
    (et : EdgeType) : State :=
  match et.decayConfig.pruneThreshold with
  | none => s
  | some threshold => ((s.store.scanEdges et.name).filter (gone et threshold)).foldl
      (fun s edge => s.removeEdge ts et.name edge.fromId edge.toId) s

def sweepBy [WalPayload Payload] (env : Env) (gone : EdgeType → F64 → Edge → Bool) (s : State) : State :=
  ((env.edgeTypeOrder.order s.edgeTypes.toList).map Prod.snd).foldl (sweepTypeBy env.ts gone) s

theorem sweepDecayedEdges_by [WalPayload Payload] (env : Env) (s : State) :
    sweepDecayedEdges env s = sweepBy env (decayed env (env.nowMillis s.wal.nextTx)) s := rfl

variable {K : Type*} [Field K] [LinearOrder K]

def exactlyDecayed (exp : K → K) (now : Nat) (et : EdgeType) (threshold : F64) (edge : Edge) : Bool :=
  edge.source = .inferred &&
    decide (exactConfidence exp (edge.confidence.value : K) (now - edge.createdAt)
      (et.decayConfig.exact K) < (threshold.value : K))

def exactSweep [WalPayload Payload] (exp : K → K) (env : Env) (s : State) : State :=
  sweepBy env (exactlyDecayed exp (env.nowMillis s.wal.nextTx)) s

end Sweeps

/-! ### What becomes of an edge -/

def Stored (s : State) (edge : Edge) : Prop :=
  s.store.getEdge edge.edgeType edge.fromId edge.toId = some edge

/-- Neither the store nor a side of the index has the edge. -/
structure Removed (s : State) (edge : Edge) : Prop where
  store : s.store.getEdge edge.edgeType edge.fromId edge.toId = none
  forward : ∀ adj ∈ s.adjacency.get edge.fromId edge.edgeType, adj.toId ≠ edge.toId
  backward : edge.fromId ∉ s.adjacency.getBackward edge.toId edge.edgeType

/-- The edge is stored, and the index says of it what it said. -/
structure Untaken (s s' : State) (edge : Edge) : Prop where
  store : Stored s' edge
  forward : ∀ adj, adj.toId = edge.toId → (adj ∈ s'.adjacency.get edge.fromId edge.edgeType ↔
    adj ∈ s.adjacency.get edge.fromId edge.edgeType)
  backward : edge.fromId ∈ s'.adjacency.getBackward edge.toId edge.edgeType ↔
    edge.fromId ∈ s.adjacency.getBackward edge.toId edge.edgeType

section Removal
variable [WalPayload Payload]
variable {s s' s'' : State} {edge other : Edge} {gone : EdgeType → F64 → Edge → Bool} {ts : Int}

omit [WalPayload Payload] in
theorem Untaken.refl (stored : Stored s edge) : Untaken s s edge := ⟨stored, fun _ _ => .rfl, .rfl⟩

omit [WalPayload Payload] in
theorem Untaken.trans (first : Untaken s s' edge) (second : Untaken s' s'' edge) :
    Untaken s s'' edge where
  store := second.store
  forward adj target := (second.forward adj target).trans (first.forward adj target)
  backward := second.backward.trans first.backward

def Filed (s : State) : Prop := ∀ (k : String × String) (edge : Edge), s.store.edges[k]? = some edge →
  k = (edge.edgeType, edgeKey edge.fromId edge.toId)

omit [WalPayload Payload] in
theorem mem_scanEdges (filed : Filed s) {t : String} :
    edge ∈ s.store.scanEdges t ↔ Stored s edge ∧ edge.edgeType = t := by
  unfold Store.scanEdges
  rw [List.mem_map]
  constructor
  · rintro ⟨⟨k, edge'⟩, listed, rfl⟩
    obtain ⟨there, here⟩ := List.mem_filter.mp listed
    have found := (FinMap.mem_toList _ _ _).mp there
    obtain rfl := filed k edge' found
    exact ⟨found, of_decide_eq_true here⟩
  · rintro ⟨stored, rfl⟩
    have listed := (FinMap.mem_toList _ _ _).mpr stored
    exact ⟨(_, edge), List.mem_filter.mpr ⟨listed, decide_eq_true rfl⟩, rfl⟩

theorem filed_removeEdge (filed : Filed s) (t : String) (f g : LogicalId) :
    Filed (s.removeEdge ts t f g) := fun k edge there => filed k edge (get_deleteEdge there)

theorem removed_here (s : State) (ts : Int) (edge : Edge) :
    Removed (s.removeEdge ts edge.edgeType edge.fromId edge.toId) edge where
  store := by
    unfold Store.getEdge State.removeEdge Store.deleteEdge
    dsimp only
    rw [FinMap.get_erase, if_pos rfl]
  forward adj there := by
    unfold State.removeEdge at there
    dsimp only at there
    rw [AdjacencyIndex.get_remove, if_pos rfl] at there
    exact of_decide_eq_true (List.mem_filter.mp there).2
  backward there := by
    unfold State.removeEdge at there
    dsimp only at there
    rw [AdjacencyIndex.getBackward_remove, if_pos rfl] at there
    exact of_decide_eq_true (List.mem_filter.mp there).2 rfl

theorem removed_removeEdge (removed : Removed s edge) (t : String) (f g : LogicalId) :
    Removed (s.removeEdge ts t f g) edge where
  store := by
    have before := removed.store
    unfold Store.getEdge at before ⊢
    unfold State.removeEdge Store.deleteEdge
    dsimp only
    rw [FinMap.get_erase]
    split
    · rfl
    · exact before
  forward adj there := by
    unfold State.removeEdge at there
    dsimp only at there
    rw [AdjacencyIndex.get_remove] at there
    split at there
    · exact removed.forward adj (List.mem_filter.mp there).1
    · exact removed.forward adj there
  backward there := by
    unfold State.removeEdge at there
    dsimp only at there
    rw [AdjacencyIndex.getBackward_remove] at there
    split at there
    · exact removed.backward (List.mem_filter.mp there).1
    · exact removed.backward there

def Apart (other edge : Edge) : Prop := (other.edgeType, edgeKey other.fromId other.toId) ≠
  (edge.edgeType, edgeKey edge.fromId edge.toId)

omit [WalPayload Payload] in
theorem apart_of_stored (stored : Stored s edge) (stored' : Stored s other) (differ : other ≠ edge) :
    Apart other edge := by
  intro same
  unfold Stored Store.getEdge at stored stored'
  rw [same, stored] at stored'
  exact differ (Option.some.inj stored').symm

theorem untaken_removeEdge (stored : Stored s edge) (apart : Apart other edge) :
    Untaken s (s.removeEdge ts other.edgeType other.fromId other.toId) edge := by
  have ends (type : other.edgeType = edge.edgeType) (source : other.fromId = edge.fromId) :
      other.toId ≠ edge.toId := fun target => apart (by rw [type, source, target])
  constructor
  · unfold Stored Store.getEdge State.removeEdge Store.deleteEdge at *
    dsimp only
    rw [FinMap.get_erase, if_neg apart]
    exact stored
  · intro adj target
    unfold State.removeEdge
    dsimp only
    rw [AdjacencyIndex.get_remove]
    split
    · rename_i here
      obtain ⟨source, type⟩ := Prod.mk.inj here
      rw [List.mem_filter, decide_eq_true_iff, target]
      exact and_iff_left (Ne.symm (ends type source))
    · exact .rfl
  · unfold State.removeEdge
    dsimp only
    rw [AdjacencyIndex.getBackward_remove]
    split
    · rename_i here
      obtain ⟨target, type⟩ := Prod.mk.inj here
      rw [List.mem_filter, decide_eq_true_iff]
      exact and_iff_left fun source => ends type source.symm target
    · exact .rfl

/-! ### One edge type -/

theorem filed_removals (edges : List Edge) (t : String) (filed : Filed s) :
    Filed (edges.foldl (fun s e => s.removeEdge ts t e.fromId e.toId) s) := by
  induction edges generalizing s with
  | nil => exact filed
  | cons e rest ih => exact ih (filed_removeEdge filed t e.fromId e.toId)

theorem removed_removals (edges : List Edge) (t : String) (removed : Removed s edge) :
    Removed (edges.foldl (fun s e => s.removeEdge ts t e.fromId e.toId) s) edge := by
  induction edges generalizing s with
  | nil => exact removed
  | cons e rest ih => exact ih (removed_removeEdge removed t e.fromId e.toId)

theorem removals_take (edges : List Edge) (s : State) (listed : edge ∈ edges) :
    Removed (edges.foldl (fun s e => s.removeEdge ts edge.edgeType e.fromId e.toId) s) edge := by
  obtain ⟨before, behind, rfl⟩ := List.append_of_mem listed
  rw [List.foldl_append, List.foldl_cons]
  exact removed_removals behind _ (removed_here _ ts edge)

theorem removals_leave (edges : List Edge) (stored : Stored s edge) {t : String}
    (apart : ∀ e ∈ edges, e.edgeType = t ∧ Apart e edge) :
    Untaken s (edges.foldl (fun s e => s.removeEdge ts t e.fromId e.toId) s) edge := by
  induction edges generalizing s with
  | nil => exact .refl stored
  | cons e rest ih =>
    rw [List.forall_mem_cons] at apart
    obtain ⟨⟨rfl, first⟩, others⟩ := apart
    have one : Untaken s (s.removeEdge ts e.edgeType e.fromId e.toId) edge :=
      untaken_removeEdge stored first
    exact one.trans (ih one.store others)

theorem filed_sweepTypeBy (filed : Filed s) (et : EdgeType) : Filed (sweepTypeBy ts gone s et) := by
  unfold sweepTypeBy
  split
  · exact filed
  · exact filed_removals _ _ filed

theorem removed_sweepTypeBy (removed : Removed s edge) (et : EdgeType) :
    Removed (sweepTypeBy ts gone s et) edge := by
  unfold sweepTypeBy
  split
  · exact removed
  · exact removed_removals _ _ removed

/-- The edge type has a threshold, and the edge is gone below it. -/
def Takes (gone : EdgeType → F64 → Edge → Bool) (et : EdgeType) (edge : Edge) : Prop :=
  et.name = edge.edgeType ∧ ∃ p, et.decayConfig.pruneThreshold = some p ∧ gone et p edge = true

theorem sweepTypeBy_takes (filed : Filed s) (stored : Stored s edge) {et : EdgeType}
    (takes : Takes gone et edge) : Removed (sweepTypeBy ts gone s et) edge := by
  obtain ⟨type, p, threshold, below⟩ := takes
  unfold sweepTypeBy
  rw [threshold, type]
  exact removals_take _ s (List.mem_filter.mpr ⟨(mem_scanEdges filed).mpr ⟨stored, rfl⟩, below⟩)

theorem sweepTypeBy_leaves (filed : Filed s) (stored : Stored s edge) {et : EdgeType}
    (leaves : ¬ Takes gone et edge) : Untaken s (sweepTypeBy ts gone s et) edge := by
  unfold sweepTypeBy
  split
  · exact .refl stored
  · rename_i p threshold
    refine removals_leave _ stored fun e listed => ?_
    obtain ⟨scanned, below⟩ := List.mem_filter.mp listed
    obtain ⟨stored', type⟩ := (mem_scanEdges filed).mp scanned
    refine ⟨type, apart_of_stored stored stored' ?_⟩
    rintro rfl
    exact leaves ⟨type.symm, p, threshold, below⟩

/-! ### The whole sweep -/

section Sweep
variable {env : Env}

theorem sweepTypes_take (types : List EdgeType) (filed : Filed s) (stored : Stored s edge)
    {et : EdgeType} (listed : et ∈ types) (takes : Takes gone et edge) :
    Removed (types.foldl (sweepTypeBy ts gone) s) edge := by
  have stays (later : List EdgeType) {t : State} (removed : Removed t edge) :
      Removed (later.foldl (sweepTypeBy ts gone) t) edge := by
    induction later generalizing t with
    | nil => exact removed
    | cons et rest ih => exact ih (removed_sweepTypeBy removed et)
  induction types generalizing s with
  | nil => exact absurd listed List.not_mem_nil
  | cons first rest ih =>
    rw [List.foldl_cons]
    by_cases now : Takes gone first edge
    · exact stays rest (sweepTypeBy_takes filed stored now)
    · rcases List.mem_cons.mp listed with rfl | later
      · exact absurd takes now
      · exact ih (filed_sweepTypeBy filed first) (sweepTypeBy_leaves filed stored now).store later

theorem sweepTypes_leave (types : List EdgeType) (filed : Filed s) (stored : Stored s edge)
    (leave : ∀ et ∈ types, ¬ Takes gone et edge) :
    Untaken s (types.foldl (sweepTypeBy ts gone) s) edge := by
  induction types generalizing s with
  | nil => exact .refl stored
  | cons first rest ih =>
    rw [List.forall_mem_cons] at leave
    have one : Untaken s (sweepTypeBy ts gone s first) edge := sweepTypeBy_leaves filed stored leave.1
    exact one.trans (ih (filed_sweepTypeBy filed first) one.store leave.2)

omit [WalPayload Payload] in
theorem mem_types (env : Env) {et : EdgeType} :
    et ∈ (env.edgeTypeOrder.order s.edgeTypes.toList).map Prod.snd ↔
      ∃ name : String, s.edgeTypes[name]? = some et := by
  rw [((env.edgeTypeOrder.perm _).map _).mem_iff, List.mem_map]
  constructor
  · rintro ⟨⟨name, et'⟩, listed, rfl⟩
    exact ⟨name, (FinMap.mem_toList _ _ _).mp listed⟩
  · rintro ⟨name, there⟩
    exact ⟨(name, et), (FinMap.mem_toList _ _ _).mpr there, rfl⟩

/-! ### In exact arithmetic -/

section Exact
variable {K : Type*} [Field K] [LinearOrder K] {exp : K → K}

theorem exactSweep_keeps (exp : K → K) (filed : Filed s) (stored : Stored s edge)
    (kept : edge.source ≠ .inferred) : Untaken s (exactSweep exp env s) edge := by
  refine sweepTypes_leave _ filed stored fun et _ takes => ?_
  obtain ⟨-, p, -, below⟩ := takes
  unfold exactlyDecayed at below
  rw [decide_eq_false kept] at below
  cases below

/-- From some time since its creation on, every sweep removes the edge. -/
def EventuallyTaken (exp : K → K) (s : State) (edge : Edge) : Prop :=
  ∃ elapsed, ∀ env : Env, edge.createdAt + elapsed ≤ env.nowMillis s.wal.nextTx →
    Removed (exactSweep exp env s) edge

def Env.at (now : Nat) : Env := { Env.idle with nowMillis := fun _ => now }

variable {et : EdgeType} {p : F64}

/-- A sweep removes an inferred edge exactly if it has decayed below the threshold. -/
theorem exactSweep_removes_iff (filed : Filed s) (stored : Stored s edge)
    (inferred : edge.source = .inferred) (type : edge.edgeType = et.name)
    (declared : s.edgeTypes[et.name]? = some et)
    (named : ∀ (name : String) (et' : EdgeType), s.edgeTypes[name]? = some et' → et'.name = name)
    (pruned : et.decayConfig.pruneThreshold = some p) :
    Removed (exactSweep exp env s) edge ↔
      exactConfidence exp (edge.confidence.value : K) (env.nowMillis s.wal.nextTx - edge.createdAt)
        (et.decayConfig.exact K) < (p.value : K) := by
  constructor
  · intro removed
    by_contra above
    have kept : Untaken s (exactSweep exp env s) edge := by
      refine sweepTypes_leave _ filed stored ?_
      rintro et' listed ⟨type', p', pruned', below⟩
      obtain ⟨name, there⟩ := (mem_types env).mp listed
      rw [← named name et' there, type', type, declared] at there
      obtain rfl := Option.some.inj there
      obtain rfl := Option.some.inj (pruned.symm.trans pruned')
      unfold exactlyDecayed at below
      exact above (of_decide_eq_true (Bool.and_eq_true_iff.mp below).2)
    cases removed.store.symm.trans kept.store
  · intro below
    refine sweepTypes_take _ filed stored ((mem_types env).mpr ⟨et.name, declared⟩)
      ⟨type.symm, p, pruned, ?_⟩
    unfold exactlyDecayed
    rw [decide_eq_true inferred, decide_eq_true below]
    rfl

variable [IsStrictOrderedRing K] [Archimedean K] {decayFn : DecayFn} {rate : F64}

def Prunable (decayFn : DecayFn) (config : DecayConfig) (p : F64) (edge : Edge) : Prop :=
  min ((config.floor.map F64.value).getD 0) 1 < p.value ∧
    (decayFn = .linear → edge.confidence.value < 0 → 1 < p.value)

omit [WalPayload Payload] [LinearOrder K] [IsStrictOrderedRing K] [Archimedean K] in
theorem exact_floor (config : DecayConfig) : (config.exact K).floor.getD 0 =
    (((config.floor.map F64.value).getD 0 : ℚ) : K) := by
  unfold DecayConfig.exact
  cases config.floor with
  | none => exact Rat.cast_zero.symm
  | some floor => rfl

theorem eventuallyTaken_iff (vanishes : ∀ ε, 0 < ε → ∃ x, ∀ y, y ≤ x → |exp y| < ε)
    (filed : Filed s) (stored : Stored s edge) (inferred : edge.source = .inferred)
    (type : edge.edgeType = et.name) (declared : s.edgeTypes[et.name]? = some et)
    (named : ∀ (name : String) (et' : EdgeType), s.edgeTypes[name]? = some et' → et'.name = name)
    (decays : et.decayConfig.decayFn = some decayFn)
    (rated : et.decayConfig.decayRate = some rate) (positive : 0 < rate.value)
    (pruned : et.decayConfig.pruneThreshold = some p) (threshold : 0 < p.value) :
    EventuallyTaken exp s edge ↔ Prunable decayFn et.decayConfig p edge := by
  have removes (env : Env) :
      Removed (exactSweep exp env s) edge ↔
        exactConfidence exp (edge.confidence.value : K) (env.nowMillis s.wal.nextTx - edge.createdAt)
          (et.decayConfig.exact K) < (p.value : K) :=
    exactSweep_removes_iff filed stored inferred type declared named pruned
  have rate_ : 0 < (et.decayConfig.exact K).decayRate.getD 0 := by
    unfold DecayConfig.exact
    rw [rated]
    exact Rat.cast_pos.mpr positive
  have ends : (∃ t₀, ∀ t, t₀ ≤ t → exactConfidence exp (edge.confidence.value : K) t
        (et.decayConfig.exact K) < (p.value : K)) ↔ Prunable decayFn et.decayConfig p edge := by
    rw [ends_below_iff vanishes decays rate_ (Rat.cast_pos.mpr threshold), exact_floor]
    unfold Prunable
    norm_cast
  rw [← ends]
  constructor
  · rintro ⟨elapsed, taken⟩
    refine ⟨elapsed, fun t later => ?_⟩
    have below := (removes (.at (edge.createdAt + t))).mp
      (taken _ (Nat.add_le_add_left later edge.createdAt))
    have passed : (Env.at (edge.createdAt + t)).nowMillis s.wal.nextTx - edge.createdAt = t :=
      Nat.add_sub_cancel_left ..
    rw [passed] at below
    exact below
  · rintro ⟨elapsed, below⟩
    refine ⟨elapsed, fun env later => (removes env).mpr (below _ ?_)⟩
    omega

theorem reached_sound (config : WalConfig) (steps : List Step) :
    ∀ s ∈ Run.visited State.step (State.init config) steps, Synced s ∧ Sound s [] := by
  refine Run.invariant State.step steps ⟨synced_init config, ?_⟩ fun s a both => ?_
  · exact (watchful_start config).sound
  · refine ⟨synced_perform a.1 s a.2 both.1, (sound_step both.2 ?_).mono fun e none_ => ?_⟩
    · cases a.2 with
      | confirmEdge p => exact fun none_ => absurd none_ List.not_mem_nil
      | _ => trivial
    · exact absurd none_ List.not_mem_nil

/-- In every state that is reached, an inferred edge whose confidence decays is removed in the end
if and only if the floor is below the threshold, and the curve does not take a negative confidence
up; no other edge is ever removed. -/
theorem sweep_prunes_iff (vanishes : ∀ ε, 0 < ε → ∃ x, ∀ y, y ≤ x → |exp y| < ε)
    (config : WalConfig) (steps : List Step)
    (reached : s ∈ Run.visited State.step (State.init config) steps)
    (declared : s.edgeTypes[et.name]? = some et) (decays : et.decayConfig.decayFn = some decayFn)
    (rated : et.decayConfig.decayRate = some rate) (positive : 0 < rate.value)
    (pruned : et.decayConfig.pruneThreshold = some p) (threshold : 0 < p.value) :
    (∀ edge, Stored s edge → edge.edgeType = et.name → edge.source = .inferred →
      (EventuallyTaken exp s edge ↔ Prunable decayFn et.decayConfig p edge)) ∧
    ∀ env edge, Stored s edge → edge.source ≠ .inferred → Untaken s (exactSweep exp env s) edge := by
  obtain ⟨synced, sound⟩ := reached_sound config steps s reached
  refine ⟨fun edge stored type inferred => ?_, fun env edge stored kept => ?_⟩
  · refine eventuallyTaken_iff vanishes sound.keyed stored inferred type declared ?_ decays rated
      positive pruned threshold
    rw [synced.edgeTypes]
    exact synced.edgeTypeNamed
  · exact exactSweep_keeps exp sound.keyed stored kept

end Exact
end Sweep
end Removal

/-! ### An inferred edge -/

def visitedType (decayConfig : DecayConfig) : EdgeType :=
  ⟨"visited", "people", "venues", decayConfig, ⟨true, ⟨0⟩, 10⟩⟩

/-- DECAY EXPONENTIAL RATE 0.05 FLOOR 0.1 and a threshold. -/
def fading (threshold : F64) : DecayConfig :=
  ⟨some .exponential, some ⟨0x3FA999999999999A⟩, some ⟨0x3FB999999999999A⟩, none, some threshold⟩

def oneVenue : Env := { Env.idle with search := fun _ _ _ => [("cafe", fullConfidence)] }

def placed (name : String) : CreateCollectionPlan :=
  ⟨name, [⟨"v", none, some 1, .cosine, false, []⟩], [], [], none⟩

/-- A person visits the venue that the queue finds. -/
def inferVisit (decayConfig : DecayConfig) : List Step :=
  ([.createCollection (placed "people"), .createCollection (placed "venues"),
    .createEdgeType ⟨"visited", "people", "venues", some decayConfig, some ⟨true, ⟨0⟩, 10⟩⟩,
    .insert ⟨"venues", ["id"], [.string "cafe"], [("v", .dense [.one])], none, none⟩,
    .insert ⟨"people", ["id"], [.string "ada"], [("v", .dense [.one])], none, none⟩,
    .drainInferenceQueue] : List Write).map fun w => (oneVenue, w)

def visit : Edge := ⟨"ada", "cafe", "visited", fullConfidence, ∅, 0, .inferred, none, none⟩

section Examples
attribute [local instance] headerOnly

/-- At a threshold of 0.5. -/
theorem visit_pruned : EventuallyTaken Real.exp
    ((inferVisit (fading ⟨0x3FE0000000000000⟩)).foldl State.step (State.init default)) visit := by
  have stored : Stored
      ((inferVisit (fading ⟨0x3FE0000000000000⟩)).foldl State.step (State.init default)) visit := by
    unfold Stored
    decide +kernel
  have declared : ((inferVisit (fading ⟨0x3FE0000000000000⟩)).foldl State.step
      (State.init default)).edgeTypes[(visitedType (fading ⟨0x3FE0000000000000⟩)).name]? =
        some (visitedType (fading ⟨0x3FE0000000000000⟩)) := by decide +kernel
  have both := sweep_prunes_iff realExp_vanishes default (inferVisit (fading ⟨0x3FE0000000000000⟩))
    (Run.end_visited ..) declared rfl rfl (by decide +kernel) rfl (by decide +kernel)
  refine (both.1 visit stored rfl rfl).mpr ?_
  unfold Prunable
  decide +kernel

/-- At a threshold of 0.05, below the floor. -/
theorem visit_never_pruned :
    let s := (inferVisit (fading ⟨0x3FA999999999999A⟩)).foldl State.step (State.init default)
    Stored s visit ∧ ¬ EventuallyTaken Real.exp s visit := by
  intro s
  have stored : Stored s visit := by unfold Stored; decide +kernel
  obtain ⟨synced, sound⟩ := reached_sound default (inferVisit (fading ⟨0x3FA999999999999A⟩)) s
    (Run.end_visited ..)
  have declared : s.edgeTypes[(visitedType (fading ⟨0x3FA999999999999A⟩)).name]? =
      some (visitedType (fading ⟨0x3FA999999999999A⟩)) := by decide +kernel
  -- rate and threshold are both 0.05
  have positive : 0 < F64.value ⟨0x3FA999999999999A⟩ := by decide +kernel
  refine ⟨stored, fun taken => ?_⟩
  have low := (eventuallyTaken_iff realExp_vanishes sound.keyed stored rfl rfl declared
    (synced.edgeTypes ▸ synced.edgeTypeNamed) rfl rfl positive rfl positive).mp taken
  revert low
  unfold Prunable
  decide +kernel

end Examples
end TronDB.Engine
