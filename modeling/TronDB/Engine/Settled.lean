import TronDB.Engine.Parts

/-! Schema operations replayed onto the schema they have led to. Only the renamed and
dropped fields can make a difference. -/
namespace TronDB.Engine
open TronDB.Core Journal

/-! ### The first element that passes a test -/

section ModifyFirst
variable {α : Type} {test other : α → Bool} {f g : α → α}

theorem modifyFirst_absent {l : List α} (absent : l.any test = false) :
    modifyFirst test f l = l := by
  induction l with
  | nil => rfl
  | cons a rest ih =>
    rw [List.any_cons, Bool.or_eq_false_iff] at absent
    rw [modifyFirst_cons, if_neg (by simp [absent.1]), ih absent.2]

theorem modifyFirst_append {l : List α} (present : l.any test = true) (more : List α) :
    modifyFirst test f (l ++ more) = modifyFirst test f l ++ more := by
  induction l with
  | nil => simp at present
  | cons a rest ih =>
    by_cases here : test a = true
    · simp [modifyFirst_cons, here]
    · have later : rest.any test = true := by simpa [here] using present
      simp [modifyFirst_cons, here, ih later]

theorem modifyFirst_map {β : Type} {key : α → β} (kept : ∀ a, key (f a) = key a) (l : List α) :
    (modifyFirst test f l).map key = l.map key := by
  induction l with
  | nil => rfl
  | cons a rest ih =>
    rw [modifyFirst_cons]
    split <;> simp [kept, ih]

theorem modifyFirst_twice (kept : ∀ a, test (f a) = test a) (l : List α) :
    modifyFirst test g (modifyFirst test f l) = modifyFirst test (fun a => g (f a)) l := by
  induction l with
  | nil => rfl
  | cons a rest ih => by_cases here : test a = true <;> simp [modifyFirst_cons, here, kept, ih]

theorem modifyFirst_comm (apart : ∀ a, ¬ (test a = true ∧ other a = true))
    (keptF : ∀ a, other (f a) = other a) (keptG : ∀ a, test (g a) = test a) (l : List α) :
    modifyFirst test f (modifyFirst other g l) = modifyFirst other g (modifyFirst test f l) := by
  induction l with
  | nil => rfl
  | cons a rest ih =>
    by_cases here : test a = true <;> by_cases there : other a = true
    · exact absurd ⟨here, there⟩ (apart a)
    all_goals simp [modifyFirst_cons, here, there, keptF, keptG, ih]

end ModifyFirst

/-! ### The three parts of a schema -/

def alterFields (fields : List StoredField) : SchemaAlterOp → List StoredField
  | .renameField oldName newName =>
    modifyFirst (fun f => f.name = oldName) (fun f => { f with name := newName }) fields
  | .dropField fieldName => fields.filter fun f => f.name ≠ fieldName
  | _ => fields

def alterRepresentations (reprs : List StoredRepresentation) :
    SchemaAlterOp → List StoredRepresentation
  | .alterRepresentationSetFields reprName fields =>
    modifyFirst (fun r => r.name = reprName) (fun r => { r with fields }) reprs
  | .alterRepresentationSetModel reprName model modelPath =>
    modifyFirst (fun r => r.name = reprName)
      (fun r => { r with vectoriser := setVectoriserModel r.vectoriser model modelPath }) reprs
  | .addRepresentation name dimensions metric sparse fields =>
    if reprs.any fun r => r.name = name then reprs
    else reprs ++ [storedRepresentation name none dimensions metric sparse fields]
  | _ => reprs

def alterConfig (config : Option VectoriserConfig) : SchemaAlterOp → Option VectoriserConfig
  | .setModel model modelPath => setVectoriserModel config model modelPath
  | _ => config

/-- Replay works on the three parts separately. -/
theorem reapply_parts (op : SchemaAlterOp) (schema : CollectionSchema) :
    reapply op schema = { schema with
      fields := alterFields schema.fields op
      representations := alterRepresentations schema.representations op
      vectoriserConfig := alterConfig schema.vectoriserConfig op } := by
  unfold reapply
  cases op with
  | renameField oldName newName =>
    by_cases there : (schema.fields.any fun f => f.name = oldName) = true
    · exact if_pos there
    · rw [alterApplies, if_neg there, alterFields, modifyFirst_absent (by simpa using there)]
      rfl
  | dropField fieldName =>
    by_cases there : (schema.fields.any fun f => f.name = fieldName) = true
    · exact if_pos there
    · have same : alterSchema schema (.dropField fieldName) = schema := alterSchema_drop_missing there
      rw [alterApplies, if_neg there]
      exact same.symm
  | setModel model modelPath => exact if_pos rfl
  | alterRepresentationSetFields reprName fields =>
    by_cases there : (schema.representations.any fun r => r.name = reprName) = true
    · exact if_pos there
    · rw [alterApplies, if_neg there, alterRepresentations, modifyFirst_absent (by simpa using there)]
      rfl
  | alterRepresentationSetModel reprName model modelPath =>
    by_cases there : (schema.representations.any fun r => r.name = reprName) = true
    · exact if_pos there
    · rw [alterApplies, if_neg there, alterRepresentations, modifyFirst_absent (by simpa using there)]
      rfl
  | addRepresentation name dimensions metric sparse fields =>
    by_cases there : (schema.representations.any fun r => r.name = name) = true
    · rw [alterApplies, there, alterRepresentations, if_pos there]
      rfl
    · rw [alterRepresentations, if_neg there]
      exact if_pos (by simpa [alterApplies] using there)

theorem reapplyAll_parts (ops : List SchemaAlterOp) (schema : CollectionSchema) :
    ops.foldl (fun h a => reapply a h) schema = { schema with
      fields := ops.foldl alterFields schema.fields
      representations := ops.foldl alterRepresentations schema.representations
      vectoriserConfig := ops.foldl alterConfig schema.vectoriserConfig } := by
  induction ops generalizing schema with
  | nil => rfl
  | cons op rest ih => rw [List.foldl_cons, ih, reapply_parts]; rfl

/-! ### Configuration and representations -/

theorem alterConfig_again (ops : List SchemaAlterOp) (config : Option VectoriserConfig) :
    ops.foldl alterConfig (ops.foldl alterConfig config) = ops.foldl alterConfig config := by
  refine foldl_again alterConfig ops (fun a config => ?_) (fun a b c c' same => ?_) config
  · cases a <;> rfl
  · cases a with
    | setModel model modelPath => cases b <;> exact same
    | _ => exact congrArg (alterConfig · b) same

def target : SchemaAlterOp → Option String
  | .alterRepresentationSetFields name _ | .alterRepresentationSetModel name _ _
  | .addRepresentation name _ _ _ _ => some name
  | _ => none

def named (reprs : List StoredRepresentation) (name : String) : Bool :=
  reprs.any fun r => r.name = name

theorem named_alter {reprs : List StoredRepresentation} {name : String}
    (there : named reprs name = true) (op : SchemaAlterOp) :
    named (alterRepresentations reprs op) name = true := by
  have names (l : List StoredRepresentation) :
      named l name = (l.map StoredRepresentation.name).any fun n => n = name := by
    rw [named, List.any_map]
    rfl
  cases op with
  | alterRepresentationSetFields reprName fields =>
    rw [names, alterRepresentations, modifyFirst_map (by simp), ← names, there]
  | alterRepresentationSetModel reprName model modelPath =>
    rw [names, alterRepresentations, modifyFirst_map (by simp), ← names, there]
  | addRepresentation added dimensions metric sparse fields =>
    rw [alterRepresentations]
    split
    · exact there
    · rw [named, List.any_append, Bool.or_eq_true]
      exact .inl there
  | _ => exact there

theorem alter_append {reprs : List StoredRepresentation} {op : SchemaAlterOp}
    (there : ∀ name, target op = some name → named reprs name = true)
    (more : List StoredRepresentation) :
    alterRepresentations (reprs ++ more) op = alterRepresentations reprs op ++ more := by
  cases op with
  | alterRepresentationSetFields reprName fields => exact modifyFirst_append (there _ rfl) more
  | alterRepresentationSetModel reprName model modelPath =>
    exact modifyFirst_append (there _ rfl) more
  | addRepresentation added dimensions metric sparse fields =>
    have present : (reprs.any fun r => r.name = added) = true := there _ rfl
    rw [alterRepresentations, alterRepresentations, if_pos present,
      if_pos (by rw [List.any_append, present]; rfl)]
  | _ => rfl

theorem alterAll_append {ops : List SchemaAlterOp} {reprs : List StoredRepresentation}
    (there : ∀ op ∈ ops, ∀ name, target op = some name → named reprs name = true)
    (more : List StoredRepresentation) :
    ops.foldl alterRepresentations (reprs ++ more) =
      ops.foldl alterRepresentations reprs ++ more := by
  induction ops generalizing reprs with
  | nil => rfl
  | cons op rest ih =>
    rw [List.forall_mem_cons] at there
    rw [List.foldl_cons, alter_append there.1, ih fun op listed name own =>
      named_alter (there.2 op listed name own) _]
    rfl

theorem named_permitted {schema : CollectionSchema} {op : SchemaAlterOp}
    (permitted : permits op schema) {name : String} (own : target op = some name) :
    named (alterRepresentations schema.representations op) name = true := by
  cases op with
  | alterRepresentationSetFields reprName fields =>
    cases own
    exact named_alter (permitted.resolve_right (by simp)) _
  | alterRepresentationSetModel reprName model modelPath =>
    cases own
    exact named_alter (permitted.resolve_right (by simp)) _
  | addRepresentation added dimensions metric sparse fields =>
    cases own
    rw [alterRepresentations]
    split
    · assumption
    · simp [named, storedRepresentation]
  | _ => cases own

theorem named_permittedAll {ops : List SchemaAlterOp} {schema : CollectionSchema}
    (permitted : PermittedAll reapply permits schema ops) :
    ∀ op ∈ ops, ∀ name, target op = some name →
      named (ops.foldl alterRepresentations schema.representations) name = true := by
  have stays {name : String} (rest : List SchemaAlterOp) (reprs : List StoredRepresentation)
      (there : named reprs name = true) : named (rest.foldl alterRepresentations reprs) name = true := by
    induction rest generalizing reprs with
    | nil => exact there
    | cons op rest ih => exact ih _ (named_alter there op)
  induction ops generalizing schema with
  | nil => simp
  | cons op rest ih =>
    intro op' listed name own
    rcases List.mem_cons.mp listed with rfl | listed
    · exact stays rest _ (named_permitted permitted.1 own)
    · have later := ih permitted.2 op' listed name own
      rwa [reapply_parts] at later

/-- The representation of a name changed by a function that keeps the name. -/
def setRepr (name : String) (f : StoredRepresentation → StoredRepresentation)
    (reprs : List StoredRepresentation) : List StoredRepresentation :=
  modifyFirst (fun r => r.name = name) f reprs

section Kernel
variable {n m : String} {f g : StoredRepresentation → StoredRepresentation}
  {x y : List StoredRepresentation}

/-- Where one change makes another pointless or commutes with it, it respects what the other
identifies. -/
theorem setRepr_kernel (keptF : ∀ r, (f r).name = r.name) (keptG : ∀ r, (g r).name = r.name)
    (meet : (∀ r, f (g r) = f r) ∨ ∀ r, f (g r) = g (f r)) (same : setRepr n f x = setRepr n f y) :
    setRepr n f (setRepr m g x) = setRepr n f (setRepr m g y) := by
  by_cases here : n = m
  · subst here
    have twice (l : List StoredRepresentation) :
        setRepr n f (setRepr n g l) = setRepr n (fun r => f (g r)) l :=
      modifyFirst_twice (by simp [keptG]) l
    rcases meet with absorbed | commuting
    · rw [twice, twice, funext absorbed]
      exact same
    · have swapped (l : List StoredRepresentation) :
          setRepr n (fun r => g (f r)) l = setRepr n g (setRepr n f l) :=
        (modifyFirst_twice (by simp [keptF]) l).symm
      rw [twice, twice, funext commuting, swapped, swapped, same]
  · have swapped (l : List StoredRepresentation) :
        setRepr n f (setRepr m g l) = setRepr m g (setRepr n f l) := by
      refine modifyFirst_comm (fun r both => ?_) (by simp [keptF]) (by simp [keptG]) l
      simp only [decide_eq_true_eq] at both
      exact here (both.1.symm.trans both.2)
    rw [swapped, swapped, same]

theorem named_setRepr (keptF : ∀ r, (f r).name = r.name) (name : String) :
    named (setRepr n f x) name = named x name := by
  have names (l : List StoredRepresentation) :
      named l name = (l.map StoredRepresentation.name).any fun n => n = name := by
    rw [named, List.any_map]
    rfl
  rw [names, names, setRepr, modifyFirst_map keptF]

theorem setRepr_kernel_add (keptF : ∀ r, (f r).name = r.name) (added : StoredRepresentation)
    (same : setRepr n f x = setRepr n f y) :
    setRepr n f (if named x m then x else x ++ [added]) =
      setRepr n f (if named y m then y else y ++ [added]) := by
  have agree (name : String) : named x name = named y name := by
    rw [← named_setRepr keptF, same, named_setRepr keptF]
  rw [agree m]
  split
  · exact same
  · cases there : named y n with
    | true =>
      have inX : named x n = true := (agree n).trans there
      rw [setRepr, setRepr, modifyFirst_append inX, modifyFirst_append there]
      exact congrArg (· ++ [added]) same
    | false =>
      have notX : named x n = false := (agree n).trans there
      rw [setRepr, setRepr, modifyFirst_absent notX, modifyFirst_absent there] at same
      rw [same]

end Kernel

theorem alter_kernel {a : SchemaAlterOp} (sets : ∀ n d m s fs, a ≠ .addRepresentation n d m s fs)
    (b : SchemaAlterOp) {x y : List StoredRepresentation}
    (same : alterRepresentations x a = alterRepresentations y a) :
    alterRepresentations (alterRepresentations x b) a =
      alterRepresentations (alterRepresentations y b) a := by
  cases a with
  | addRepresentation n d m s fs => exact absurd rfl (sets n d m s fs)
  | alterRepresentationSetFields n fields =>
    cases b with
    | alterRepresentationSetFields m fields' =>
      exact setRepr_kernel (fun _ => rfl) (fun _ => rfl) (.inl fun _ => rfl) same
    | alterRepresentationSetModel m model modelPath =>
      exact setRepr_kernel (fun _ => rfl) (fun _ => rfl) (.inr fun _ => rfl) same
    | addRepresentation m dimensions metric sparse fs =>
      exact setRepr_kernel_add (f := fun r => { r with fields }) (fun _ => rfl) _ same
    | _ => exact same
  | alterRepresentationSetModel n model modelPath =>
    cases b with
    | alterRepresentationSetFields m fields =>
      exact setRepr_kernel (fun _ => rfl) (fun _ => rfl) (.inr fun _ => rfl) same
    | alterRepresentationSetModel m model' modelPath' =>
      exact setRepr_kernel (fun _ => rfl) (fun _ => rfl) (.inl fun _ => rfl) same
    | addRepresentation m dimensions metric sparse fs =>
      exact setRepr_kernel_add (f := fun r =>
        { r with vectoriser := setVectoriserModel r.vectoriser model modelPath }) (fun _ => rfl) _ same
    | _ => exact same
  | _ => exact congrArg (alterRepresentations · b) same

theorem alter_idempotent (a : SchemaAlterOp) (x : List StoredRepresentation) :
    alterRepresentations (alterRepresentations x a) a = alterRepresentations x a := by
  cases a with
  | alterRepresentationSetFields n fields => exact modifyFirst_twice (by simp) x
  | alterRepresentationSetModel n model modelPath => exact modifyFirst_twice (by simp) x
  | addRepresentation n dimensions metric sparse fields =>
    refine if_pos ?_
    by_cases there : named x n = true
    · exact named_alter there _
    · rw [named] at there
      rw [alterRepresentations, if_neg there]
      simp [storedRepresentation]
  | _ => rfl

/-- The representations are what the operations make of them once more. -/
theorem alterRepresentations_again {ops : List SchemaAlterOp} {schema : CollectionSchema}
    (permitted : PermittedAll reapply permits schema ops) :
    ops.foldl alterRepresentations (ops.foldl alterRepresentations schema.representations) =
      ops.foldl alterRepresentations schema.representations := by
  induction ops using List.reverseRecOn with
  | nil => rfl
  | append_singleton ops a ih =>
    obtain ⟨before, last⟩ := permittedAll_append permitted
    have again := ih before
    have reprs : (ops.foldl (fun h a => reapply a h) schema).representations =
        ops.foldl alterRepresentations schema.representations := by rw [reapplyAll_parts]
    simp only [List.foldl_append, List.foldl_cons, List.foldl_nil]
    by_cases adds : ∃ n d m s fs, a = .addRepresentation n d m s fs
    · obtain ⟨n, d, m, s, fs, rfl⟩ := adds
      have absent : ¬ named (ops.foldl alterRepresentations schema.representations) n = true := by
        have fresh := last.resolve_right (by simp)
        rw [alterApplies, reprs] at fresh
        simpa [named] using fresh
      rw [show alterRepresentations (ops.foldl alterRepresentations schema.representations)
          (.addRepresentation n d m s fs) = _ from if_neg absent,
        alterAll_append (named_permittedAll before), again]
      exact if_pos (by simp [storedRepresentation])
    · rw [foldl_kernel alterRepresentations
        (fun b x y => alter_kernel (fun n d m s fs h => adds ⟨n, d, m, s, fs, h⟩) b)
        ops (alter_idempotent a _), again]

/-! ### The whole schema -/

/-- The renames and drops, run over the fields they have led to, leave them as they are. -/
def SettledFields (ops : List SchemaAlterOp) (fields : List StoredField) : Prop :=
  ops.foldl alterFields fields = fields

instance (ops : List SchemaAlterOp) (fields : List StoredField) :
    Decidable (SettledFields ops fields) := inferInstanceAs (Decidable (_ = _))

theorem reapplyAll_again {ops : List SchemaAlterOp} {schema : CollectionSchema}
    (permitted : PermittedAll reapply permits schema ops) :
    ops.foldl (fun h a => reapply a h) (ops.foldl (fun h a => reapply a h) schema) =
        ops.foldl (fun h a => reapply a h) schema ↔
      SettledFields ops (ops.foldl alterFields schema.fields) := by
  rw [reapplyAll_parts ops schema, reapplyAll_parts]
  simp only [alterRepresentations_again permitted, alterConfig_again]
  constructor
  · exact fun same => congrArg CollectionSchema.fields same
  · intro settled
    rw [settled]

theorem settled_of_kept {ops : List SchemaAlterOp} {fields : List StoredField}
    (kept : ∀ op ∈ ops, ∀ fields, alterFields fields op = fields) : SettledFields ops fields := by
  induction ops with
  | nil => rfl
  | cons op rest ih =>
    rw [List.forall_mem_cons] at kept
    rw [SettledFields, List.foldl_cons, kept.1]
    exact ih kept.2

end TronDB.Engine
