import Mathlib.Data.List.Forall2
import TronDB.Engine.Recompute
import TronDB.Vectoriser.OnnxDense

/-! A batch is encoded as its rows are alone, where the model runs a padded row as it runs the row
alone. -/
namespace TronDB.Vectoriser
open TronDB.Core Binary Packing

abbrev Row := List Int × List Int

def padRow (maxSeq : Nat) (row : List Int) : List Int := row ++ List.replicate (maxSeq - row.length) 0

def padRows (maxSeq : Nat) (rows : List (List Int)) : List Int := rows.flatMap (padRow maxSeq)

/-- The rows of a batch as the vectoriser cuts them: of one token or more, and as long as the
longest of them at most. -/
structure IsBatch (rows : List Row) (maxSeq : Nat) : Prop where
  longest : ∃ row ∈ rows, row.1.length = maxSeq
  cut : maxSeq ≤ maxLen
  each : ∀ row ∈ rows, row.2.length = row.1.length ∧ 1 ≤ row.1.length ∧ row.1.length ≤ maxSeq

namespace OnnxDense
variable {α : Type} (onnx : OnnxDense α)

def runRow (row : Row) : Except String (Tensor α) :=
  onnx.run 1 row.1.length row.1 row.2 (List.replicate row.1.length 0)

def runBatch (rows : List Row) (maxSeq : Nat) : Except String (Tensor α) :=
  onnx.run rows.length maxSeq (padRows maxSeq (rows.map Prod.fst)) (padRows maxSeq (rows.map Prod.snd))
    (List.replicate (rows.length * maxSeq) 0)

/-- The hidden states of a batch at the tokens of each row are those of the row alone; so are the
vectors of a model that pools itself. -/
inductive Agrees (rows : List Row) (maxSeq : Nat) (outputs : List (Tensor α)) (output : Tensor α) : Prop
  | states (hidden : Nat) (shape : output.shape = [rows.length, maxSeq, hidden])
      (each : ∀ i row out, rows[i]? = some row → outputs[i]? = some out →
        out.shape = [1, row.1.length, hidden] ∧ ∀ t < row.1.length, ∀ d < hidden,
          output.data[i * maxSeq * hidden + t * hidden + d]? = out.data[t * hidden + d]?)
  | pooled (hidden : Nat) (shape : output.shape = [rows.length, hidden])
      (each : ∀ i out, outputs[i]? = some out →
        out.shape = [1, hidden] ∧ ∀ d < hidden, output.data[i * hidden + d]? = out.data[d]?)
  | other (shape : output.shape.length ≠ 3 ∧ output.shape.length ≠ 2)
      (each : ∀ out ∈ outputs, out.shape.length ≠ 3 ∧ out.shape.length ≠ 2)

/-- A model that runs a row of a padded and masked batch as it runs the row alone. -/
structure RunsRowsAlone : Prop where
  together : ∀ rows maxSeq outputs, IsBatch rows maxSeq →
    List.Forall₂ (fun row out => onnx.runRow row = .ok out) rows outputs →
      ∃ output, onnx.runBatch rows maxSeq = .ok output ∧ Agrees rows maxSeq outputs output
  alone : ∀ rows maxSeq output, IsBatch rows maxSeq → onnx.runBatch rows maxSeq = .ok output →
    ∀ row ∈ rows, ∃ out, onnx.runRow row = .ok out

end OnnxDense

/-! ### The padding -/

def Encoding.len (e : Encoding) : Nat := min e.ids.length maxLen

def Encoding.row (e : Encoding) : Row :=
  (asI64 (e.ids.take e.len), asI64 (e.attentionMask.take e.len))

theorem Encoding.length_row (e : Encoding) : e.row.1.length = e.len ∧ e.row.2.length = e.len := by
  have masked := e.masked
  have cut : e.len ≤ e.ids.length := Nat.min_le_left _ _
  unfold Encoding.row asI64
  dsimp only
  rw [List.length_map, List.length_map, List.length_take, List.length_take]
  omega

theorem copy_rounds (e : Encoding) {front front' : List Int} (same : front'.length = front.length)
    (room : Nat) {rounds : Nat} (part : rounds ≤ e.len) :
    (List.range rounds).foldlM (fun all j => do
        let id ← readAt (asI64 e.ids) j
        let ids ← writeAt all.1 (front.length + j) id
        let entry ← readAt (asI64 e.attentionMask) j
        let mask ← writeAt all.2 (front.length + j) entry
        return (ids, mask))
      ((front ++ List.replicate (e.len + room) 0, front' ++ List.replicate (e.len + room) 0) :
        List Int × List Int) =
      .ok (front ++ (asI64 (e.ids.take rounds) ++ List.replicate (e.len - rounds + room) 0),
        front' ++ (asI64 (e.attentionMask.take rounds) ++ List.replicate (e.len - rounds + room) 0)) := by
  have masked := e.masked
  have cut : e.len ≤ e.ids.length := Nat.min_le_left _ _
  have write (front : List Int) (tokens : List UInt32) (r : Nat) (below : r < tokens.length)
      (left : r < e.len) : writeAt (front ++ (asI64 (tokens.take r) ++
        List.replicate (e.len - r + room) 0)) (front.length + r) (tokens[r].toNat : Int) =
      .ok (front ++ (asI64 (tokens.take (r + 1)) ++ List.replicate (e.len - (r + 1) + room) 0)) := by
    have taken : (asI64 (tokens.take r)).length = r := by
      unfold asI64
      rw [List.length_map, List.length_take]
      omega
    have next : asI64 (tokens.take (r + 1)) = asI64 (tokens.take r) ++ [(tokens[r].toNat : Int)] := by
      unfold asI64
      rw [List.take_succ_eq_append_getElem below, List.map_append]
      rfl
    have zeros : e.len - r + room = e.len - (r + 1) + room + 1 := by omega
    refine writeAt_ok.mpr ⟨by simp; omega, ?_⟩
    rw [List.set_append_right _ _ (Nat.le_add_right _ _), Nat.add_sub_cancel_left,
      List.set_append_right _ _ taken.le, taken, Nat.sub_self, zeros, List.replicate_succ,
      List.set_cons_zero, next, List.append_assoc]
    rfl
  induction rounds with
  | zero => rfl
  | succ r ih =>
    have id : readAt (asI64 e.ids) r = .ok (e.ids[r].toNat : Int) := by
      refine readAt_ok.mpr ?_
      unfold asI64
      rw [List.getElem?_map, List.getElem?_eq_getElem (by omega)]
      rfl
    have entry : readAt (asI64 e.attentionMask) r = .ok (e.attentionMask[r].toNat : Int) := by
      refine readAt_ok.mpr ?_
      unfold asI64
      rw [List.getElem?_map, List.getElem?_eq_getElem (by omega)]
      rfl
    have second := write front' e.attentionMask r (by omega) part
    rw [same] at second
    rw [foldlM_range_succ, ih (by omega)]
    exact bind_ok.mpr ⟨_, rfl, bind_ok.mpr ⟨_, id, bind_ok.mpr ⟨_, write front e.ids r (by omega) part,
      bind_ok.mpr ⟨_, entry, bind_ok.mpr ⟨_, second, rfl⟩⟩⟩⟩⟩

theorem length_padRow {maxSeq : Nat} {row : List Int} (short : row.length ≤ maxSeq) :
    (padRow maxSeq row).length = maxSeq := by
  unfold padRow
  rw [List.length_append, List.length_replicate]
  omega

theorem copied_row (front row : List Int) (maxSeq rest : Nat) :
    front ++ (row ++ List.replicate (maxSeq - row.length + rest) 0) =
      front ++ padRow maxSeq row ++ List.replicate rest 0 := by
  unfold padRow
  rw [List.replicate_add, List.append_assoc, List.append_assoc]

theorem padBatch_rows {encodings : List Encoding} {maxSeq : Nat}
    (short : ∀ e ∈ encodings, e.len ≤ maxSeq) {front front' : List Int} {k : Nat}
    (placed : front.length = k * maxSeq) (same : front'.length = front.length) :
    (encodings.zipIdx k).foldlM (fun all enc =>
        (List.range (min enc.1.ids.length maxLen)).foldlM (fun all j => do
          let id ← readAt (asI64 enc.1.ids) j
          let ids ← writeAt all.1 (enc.2 * maxSeq + j) id
          let entry ← readAt (asI64 enc.1.attentionMask) j
          let mask ← writeAt all.2 (enc.2 * maxSeq + j) entry
          return (ids, mask)) all)
      ((front ++ List.replicate (encodings.length * maxSeq) 0,
        front' ++ List.replicate (encodings.length * maxSeq) 0) : List Int × List Int) =
      .ok (front ++ padRows maxSeq (encodings.map fun e => e.row.1),
        front' ++ padRows maxSeq (encodings.map fun e => e.row.2)) := by
  induction encodings generalizing front front' k with
  | nil =>
    rw [List.length_nil, Nat.zero_mul]
    rfl
  | cons e rest ih =>
    obtain ⟨here, short⟩ := List.forall_mem_cons.mp short
    obtain ⟨ids, mask⟩ := e.length_row
    have zeros : (e :: rest).length * maxSeq = e.len + (maxSeq - e.len + rest.length * maxSeq) := by
      rw [List.length_cons, Nat.succ_mul]
      omega
    have first := copy_rounds e same (maxSeq - e.len + rest.length * maxSeq) (Nat.le_refl e.len)
    have padded := length_padRow (ids.le.trans here)
    have padded' := length_padRow (mask.le.trans here)
    have whole := copied_row front e.row.1 maxSeq (rest.length * maxSeq)
    have whole' := copied_row front' e.row.2 maxSeq (rest.length * maxSeq)
    rw [ids] at whole
    rw [mask] at whole'
    have later := @ih short (front ++ padRow maxSeq e.row.1) (front' ++ padRow maxSeq e.row.2) (k + 1)
      (by rw [List.length_append, placed, padded, Nat.succ_mul])
      (by rw [List.length_append, List.length_append, same, padded, padded'])
    rw [List.zipIdx_cons, List.foldlM_cons, zeros]
    refine bind_ok.mpr ⟨_, ?_, later.trans ?_⟩
    · dsimp only
      rw [← placed]
      refine first.trans ?_
      rw [Nat.sub_self, Nat.zero_add]
      exact congrArg Except.ok (Prod.ext whole whole')
    · rw [List.append_assoc, List.append_assoc]
      rfl

theorem OnnxDense.padBatch_ok {encodings : List Encoding} {maxSeq : Nat}
    (short : ∀ e ∈ encodings, e.len ≤ maxSeq) :
    OnnxDense.padBatch encodings maxSeq =
      .ok (padRows maxSeq (encodings.map fun e => e.row.1), padRows maxSeq (encodings.map fun e => e.row.2)) :=
  @padBatch_rows _ _ short [] [] 0 (Nat.zero_mul _).symm rfl

theorem OnnxDense.maxSeq_spec {encodings : List Encoding} (nonempty : encodings ≠ []) :
    OnnxDense.maxSeq encodings ∈ encodings.map Encoding.len ∧
      ∀ e ∈ encodings, e.len ≤ OnnxDense.maxSeq encodings := by
  cases found : (encodings.map Encoding.len).max? with
  | none => exact absurd (List.map_eq_nil_iff.mp (List.max?_eq_none_iff.mp found)) nonempty
  | some m =>
    have longest : OnnxDense.maxSeq encodings = m := congrArg (Option.getD · 1) found
    obtain ⟨attained, most⟩ := List.max?_eq_some_iff.mp found
    rw [longest]
    exact ⟨attained, fun e listed => most _ (List.mem_map_of_mem listed)⟩

theorem OnnxDense.isBatch {encodings : List Encoding} (nonempty : encodings ≠ [])
    (tokens : ∀ e ∈ encodings, 1 ≤ e.ids.length) :
    IsBatch (encodings.map Encoding.row) (OnnxDense.maxSeq encodings) := by
  obtain ⟨attained, most⟩ := OnnxDense.maxSeq_spec nonempty
  obtain ⟨longest, listed, whole⟩ := List.mem_map.mp attained
  constructor
  case longest => exact ⟨longest.row, List.mem_map_of_mem listed, longest.length_row.1.trans whole⟩
  case cut => exact whole ▸ Nat.min_le_right _ _
  case each =>
    intro row there
    obtain ⟨e, listed, rfl⟩ := List.mem_map.mp there
    obtain ⟨ids, mask⟩ := e.length_row
    have positive : 1 ≤ e.len := Nat.le_min.mpr ⟨tokens e listed, by decide⟩
    rw [ids, mask]
    exact ⟨rfl, positive, most e listed⟩

/-! ### What is read from the output -/

section Extract
variable {α : Type}

theorem readSlice_row {data row : List α} {i len : Nat}
    (same : ∀ d < len, data[i * len + d]? = row[d]?) :
    readSlice data (i * len) len = readSlice row 0 len := by
  have inside : i * len + len ≤ data.length ↔ 0 + len ≤ row.length := by
    cases len with
    | zero => simp
    | succ k =>
      have last : data[i * (k + 1) + k]? = none ↔ row[k]? = none := by
        rw [same k (Nat.lt_succ_self k)]
      rw [List.getElem?_eq_none_iff, List.getElem?_eq_none_iff] at last
      omega
  have slice : (data.drop (i * len)).take len = (row.drop 0).take len := by
    refine List.ext_getElem? fun d => ?_
    rw [List.getElem?_take, List.getElem?_take]
    split
    · rename_i below
      rw [List.getElem?_drop, List.drop_zero, same d below]
    · rfl
  unfold readSlice
  rw [slice]
  exact if_congr inside rfl rfl

theorem readAt_same {xs ys : List α} {i j : Nat} (same : xs[i]? = ys[j]?) :
    readAt xs i = readAt ys j := by
  unfold readAt
  rw [same]

theorem meanPool_row [Zero α] [Add α] [Div α] [NatCast α] {data row : List α} {base count dims : Nat}
    (same : ∀ t < count, ∀ d < dims, data[base + t * dims + d]? = row[t * dims + d]?) :
    meanPool data base count dims = meanPool row 0 count dims := by
  unfold meanPool
  refine congrArg (· >>= _) (foldlM_same (fun pooled t there => ?_) _)
  refine foldlM_same (fun pooled d below => ?_) pooled
  have read : readAt data (base + t * dims + d) = readAt row (0 + t * dims + d) := by
    refine readAt_same ?_
    rw [Nat.zero_add]
    exact same t (List.mem_range.mp there) d (List.mem_range.mp below)
  rw [read]

variable [Zero α] [Add α] [Mul α] [Div α] [NatCast α] [Scalar α]

theorem OnnxDense.extractBatch_alone {encodings : List Encoding} (nonempty : encodings ≠ [])
    {maxSeq : Nat} {outputs : List (Tensor α)} {output : Tensor α}
    (long : outputs.length = encodings.length)
    (agrees : Agrees (encodings.map Encoding.row) maxSeq outputs output) (vectors : List (List α)) :
    extractBatch encodings output = .ok vectors ↔ outputs.mapM extract = .ok vectors := by
  have places (i : Nat) (x : Encoding × Nat) (there : encodings.zipIdx[i]? = some x) :
      encodings[i]? = some x.1 ∧ x.2 = i := by
    rw [List.getElem?_zipIdx, Option.map_eq_some_iff] at there
    obtain ⟨e, found, rfl⟩ := there
    exact ⟨found, Nat.zero_add i⟩
  have long' : encodings.zipIdx.length = outputs.length := List.length_zipIdx.trans long.symm
  cases agrees with
  | states hidden shape each =>
    unfold extractBatch
    rw [shape]
    refine iff_of_eq (congrArg (· = _) (mapM_same long' fun i x out left right => ?_))
    obtain ⟨found, rfl⟩ := places i x left
    have row : (encodings.map Encoding.row)[x.2]? = some x.1.row := by
      rw [List.getElem?_map, found]
      rfl
    obtain ⟨shape, same⟩ := each x.2 x.1.row out row right
    rw [x.1.length_row.1] at shape same
    unfold extract
    rw [shape]
    exact congrArg (fun pooled => panics pooled >>= fun pooled => pure (normalise pooled))
      (meanPool_row same)
  | pooled hidden shape each =>
    unfold extractBatch
    rw [shape]
    refine iff_of_eq (congrArg (· = _) (mapM_same long' fun i x out left right => ?_))
    obtain ⟨-, rfl⟩ := places i x left
    obtain ⟨shape, same⟩ := each x.2 out right
    unfold extract
    rw [shape]
    exact congrArg (fun vector => panics vector >>= fun vector => pure (normalise vector))
      (readSlice_row same)
  | other shape each =>
    obtain ⟨first, rest, rfl⟩ : ∃ first rest, outputs = first :: rest :=
      List.exists_cons_of_ne_nil fun none_ => nonempty (List.eq_nil_of_length_eq_zero (by
        rw [← long, none_, List.length_nil]))
    have fails (out : Tensor α) (vector : List α)
        (shape : out.shape.length ≠ 3 ∧ out.shape.length ≠ 2) : extract out ≠ .ok vector := by
      unfold extract
      split
      · simp_all
      · simp_all
      · simp
    have fails' : extractBatch encodings output ≠ .ok vectors := by
      unfold extractBatch
      split
      · simp_all
      · simp_all
      · simp
    refine iff_of_false fails' fun ran => ?_
    rw [List.mapM_cons] at ran
    obtain ⟨vector, ran, -⟩ := bind_ok.mp ran
    exact fails first vector (each first (.head _)) ran

end Extract

/-! ### A batch and its rows -/

section Batch
variable {α : Type} [Zero α] [Add α] [Mul α] [Div α] [NatCast α] [Scalar α] (onnx : OnnxDense α)
namespace OnnxDense

def encodeRow (e : Encoding) : Except VectoriserError (List α) := do
  let output ← encodeFailed (onnx.runRow e.row)
  extract output

def encodeRows (encodings : List Encoding) : Except VectoriserError (List (List α)) := do
  let output ← encodeFailed (onnx.runBatch (encodings.map Encoding.row) (maxSeq encodings))
  extractBatch encodings output

theorem encodeFailed_ok {β : Type} {x : Except String β} {b : β} :
    encodeFailed x = .ok b ↔ x = .ok b := by
  cases x with
  | error message => exact ⟨nofun, nofun⟩
  | ok b => exact ⟨fun same => by cases same; rfl, fun same => by cases same; rfl⟩

theorem encodeRows_eq {encodings : List Encoding} (nonempty : encodings ≠ []) :
    (do
      let (allIds, allMask) ← panics (padBatch encodings (maxSeq encodings))
      let allTypes := List.replicate (encodings.length * maxSeq encodings) 0
      let output ← encodeFailed (onnx.run encodings.length (maxSeq encodings) allIds allMask allTypes)
      extractBatch encodings output) = onnx.encodeRows encodings := by
  rw [padBatch_ok (maxSeq_spec nonempty).2]
  unfold encodeRows runBatch
  rw [List.length_map, List.map_map, List.map_map]
  rfl

theorem encodeRows_alone (alone : onnx.RunsRowsAlone) {encodings : List Encoding}
    (nonempty : encodings ≠ []) (tokens : ∀ e ∈ encodings, 1 ≤ e.ids.length)
    (vectors : List (List α)) :
    onnx.encodeRows encodings = .ok vectors ↔ encodings.mapM onnx.encodeRow = .ok vectors := by
  have batch := isBatch nonempty tokens
  have agree {outputs : List (Tensor α)}
      (rows : encodings.mapM (fun e => onnx.runRow e.row) = .ok outputs) :
      ∃ output, onnx.runBatch (encodings.map Encoding.row) (maxSeq encodings) = .ok output ∧
        (extractBatch encodings output = .ok vectors ↔ outputs.mapM extract = .ok vectors) := by
    have ran := mapM_ok.mp rows
    obtain ⟨output, together, agrees⟩ := alone.together _ _ outputs batch
      (List.forall₂_map_left_iff.mpr ran)
    exact ⟨output, together, extractBatch_alone nonempty ran.length_eq.symm agrees vectors⟩
  have lift (outputs : List (Tensor α)) :
      encodings.mapM (fun e => encodeFailed (onnx.runRow e.row)) = .ok outputs ↔
        encodings.mapM (fun e => onnx.runRow e.row) = .ok outputs := by
    rw [mapM_ok, mapM_ok]
    exact ⟨fun each => each.imp fun _ _ => encodeFailed_ok.mp, fun each => each.imp fun _ _ =>
      encodeFailed_ok.mpr⟩
  constructor
  · intro ran
    obtain ⟨output, together, ran⟩ := bind_ok.mp ran
    have together := encodeFailed_ok.mp together
    obtain ⟨outputs, rows⟩ := mapM_total fun (e : Encoding) listed =>
      alone.alone _ _ output batch together e.row (List.mem_map_of_mem listed)
    obtain ⟨output', together', same⟩ := agree rows
    cases together.symm.trans together'
    exact mapM_bind_ok.mpr ⟨outputs, (lift outputs).mpr rows, same.mp ran⟩
  · intro ran
    obtain ⟨outputs, rows, ran⟩ := mapM_bind_ok.mp ran
    obtain ⟨output, together, same⟩ := agree ((lift outputs).mp rows)
    exact bind_ok.mpr ⟨output, encodeFailed_ok.mpr together, same.mpr ran⟩

theorem encodeBatch_iff (alone : onnx.RunsRowsAlone) (batch : List FieldSet)
    (tokens : ∀ fields ∈ batch, ∀ e, onnx.tokenize (fieldText fields) = .ok e → 1 ≤ e.ids.length)
    (vectors : List (List α)) :
    onnx.encodeBatch batch = .ok vectors ↔ batch.mapM onnx.encode = .ok vectors := by
  cases batch with
  | nil => exact Iff.rfl
  | cons first rest =>
    have each : (first :: rest).mapM onnx.encode = .ok vectors ↔ ∃ encodings,
        (first :: rest).mapM (fun fields => encodeFailed (onnx.tokenize (fieldText fields))) =
          .ok encodings ∧ encodings.mapM onnx.encodeRow = .ok vectors := mapM_bind_ok
    rw [each]
    unfold encodeBatch
    rw [List.mapM_map]
    refine bind_ok.trans (exists_congr fun encodings => and_congr_right fun tokenised => ?_)
    have nonempty : encodings ≠ [] := by
      rintro rfl
      cases mapM_ok.mp tokenised
    rw [← onnx.encodeRows_alone alone nonempty (fun e there => ?_) vectors]
    · exact iff_of_eq (congrArg (· = _) (onnx.encodeRows_eq nonempty))
    · obtain ⟨fields, asked, tokenised⟩ := mapM_mem tokenised there
      exact tokens fields asked e (encodeFailed_ok.mp tokenised)

end OnnxDense
end Batch

/-! ### A model that looks at each token alone -/

theorem getElem?_padRows {maxSeq : Nat} {rows : List (List Int)}
    (short : ∀ row ∈ rows, row.length ≤ maxSeq) {i : Nat} {row : List Int} (there : rows[i]? = some row)
    {t : Nat} (token : t < row.length) : (padRows maxSeq rows)[i * maxSeq + t]? = row[t]? := by
  induction rows generalizing i with
  | nil => cases there
  | cons first rest ih =>
    obtain ⟨here, later⟩ := List.forall_mem_cons.mp short
    have split : padRows maxSeq (first :: rest) = padRow maxSeq first ++ padRows maxSeq rest := rfl
    have length := length_padRow here
    rw [split]
    cases i with
    | zero =>
      cases there
      rw [Nat.zero_mul, Nat.zero_add, List.getElem?_append_left (by omega), padRow,
        List.getElem?_append_left token]
    | succ i =>
      rw [Nat.succ_mul, Nat.add_right_comm, List.getElem?_append_right (by omega), length,
        Nat.add_sub_cancel]
      exact ih later there

/-- A token for each character between two marks; the hidden state of a token is its id. -/
def OnnxDense.characters : OnnxDense F32 where
  tokenize text :=
    let ids := 101 :: (text.toList.map Char.val ++ [102])
    .ok ⟨ids, List.replicate ids.length 1, List.length_replicate⟩
  run batchSize seqLen inputIds _ _ := .ok ⟨[batchSize, seqLen, 1], inputIds.map fun id => F32.ofNat id.toNat⟩

theorem OnnxDense.characters_alone : OnnxDense.characters.RunsRowsAlone where
  together rows maxSeq outputs batch ran := by
    refine ⟨_, rfl, .states 1 rfl fun i row out there output => ?_⟩
    obtain ⟨inRows, rfl⟩ := List.getElem?_eq_some_iff.mp there
    obtain ⟨inOutputs, rfl⟩ := List.getElem?_eq_some_iff.mp output
    have same := Except.ok.inj (ran.get inRows inOutputs)
    rw [List.get_eq_getElem, List.get_eq_getElem] at same
    rw [← same]
    refine ⟨rfl, fun t token d unit => ?_⟩
    obtain rfl : d = 0 := by omega
    have short : ∀ row ∈ rows.map Prod.fst, row.length ≤ maxSeq := fun row listed => by
      obtain ⟨r, inBatch, rfl⟩ := List.mem_map.mp listed
      exact (batch.each r inBatch).2.2
    have placed := getElem?_padRows short (i := i) (by rw [List.getElem?_map, there]; rfl) token
    rw [Nat.mul_one, Nat.mul_one, List.getElem?_map, Nat.add_zero, placed, List.getElem?_map,
      Nat.add_zero]
  alone _ _ _ _ _ _ _ := ⟨_, rfl⟩

/-! ### Insert and recompute -/

def textFields (display : Value → String) (fields : List (String × Value)) : FieldSet :=
  FinMap.insertAll ∅ (fields.map fun f => (f.1, display f.2))

def OnnxDense.vectoriser (onnx : OnnxDense F32) (display : Value → String)
    (message : VectoriserError → String) (modelId : String) : Engine.Vectoriser where
  modelId
  encode fields := ((onnx.encode (textFields display fields)).map .dense).mapError message

def OnnxDense.HasTokens {α : Type} (onnx : OnnxDense α) (batch : List FieldSet) : Prop :=
  ∀ fields ∈ batch, ∀ e, onnx.tokenize (fieldText fields) = .ok e → 1 ≤ e.ids.length

theorem vectoriser_encodeBatch (vectoriser : Engine.Vectoriser) (batch : List (List (String × Value))) :
    vectoriser.encodeBatch batch = batch.mapM vectoriser.encode := by
  induction batch with
  | nil => rfl
  | cons fields rest ih =>
    unfold Engine.Vectoriser.encodeBatch
    rw [List.mapM_cons, ih]
    cases vectoriser.encode fields with
    | error e => rfl
    | ok vector => cases rest.mapM vectoriser.encode <;> rfl

theorem OnnxDense.vectoriser_ok (onnx : OnnxDense F32) (display : Value → String)
    (message : VectoriserError → String) (modelId : String) (batch : List (List (String × Value)))
    (vectors : List (List F32)) :
    (onnx.vectoriser display message modelId).encodeBatch batch = .ok (vectors.map .dense) ↔
      (batch.map (textFields display)).mapM onnx.encode = .ok vectors := by
  rw [vectoriser_encodeBatch, mapM_ok, mapM_ok, List.forall₂_map_right_iff, List.forall₂_map_left_iff]
  refine iff_of_eq (congrArg (fun r => List.Forall₂ r batch vectors) ?_)
  funext fields vector
  unfold OnnxDense.vectoriser
  dsimp only
  cases onnx.encode (textFields display fields) with
  | error e => simp [Except.map, Except.mapError]
  | ok v => simp [Except.map, Except.mapError]

/-- An INSERT of the entity's values that gives no vector for the representation stores this one. -/
def InsertStores (vectoriser : Engine.Vectoriser) (stored : StoredRepresentation) (e : Entity)
    (vector : VectorData) : Prop :=
  ∀ (env : Engine.Env) collection names representations made,
    env.vectoriser collection stored.name = some vectoriser → stored ∈ representations →
      stored.name ∉ names →
        Engine.managedRepresentations env collection names e.metadata representations = .ok made →
          ∃ r ∈ made, r.name = stored.name ∧ r.vector = vector

theorem insertStores_of_encode {vectoriser : Engine.Vectoriser} {stored : StoredRepresentation}
    {e : Entity} {vector : VectorData}
    (encoded : vectoriser.encode (Engine.fieldSet stored e) = .ok vector)
    (filled : Engine.fieldSet stored e ≠ []) : InsertStores vectoriser stored e vector := by
  intro env collection names representations made registered listed given built
  have fields : stored.fields ≠ [] := fun none_ => filled (by simp [Engine.fieldSet, none_])
  have set : (stored.fields.filterMap fun f => e.metadata[f]?.map fun v => (f, v)) =
      Engine.fieldSet stored e := rfl
  induction representations generalizing made with
  | nil => cases listed
  | cons first rest ih =>
    unfold Engine.managedRepresentations at built
    dsimp only at built
    rcases List.mem_cons.mp listed with rfl | later
    · rw [if_neg (not_or.mpr ⟨fields, given⟩), set, if_neg filled, registered] at built
      dsimp only at built
      rw [encoded] at built
      dsimp only at built
      split at built
      · cases built
      · cases built
        exact ⟨_, List.mem_cons_self, rfl, rfl⟩
    · split at built
      · exact ih made later built
      · split at built
        · exact ih made later built
        · split at built
          · cases built
          · split at built
            · cases built
            · split at built
              · cases built
              · rename_i reprs rest_
                cases built
                obtain ⟨r, there, made⟩ := ih reprs later rest_
                exact ⟨r, List.mem_cons_of_mem _ there, made⟩

/-- The entries of a recompute are encoded to the vectors of the batch, each the one INSERT stores. -/
theorem OnnxDense.recomputed {onnx : OnnxDense F32} {display : Value → String}
    {message : VectoriserError → String} {modelId : String} (alone : onnx.RunsRowsAlone)
    {job : Engine.Job} (own : job.vectoriser = onnx.vectoriser display message modelId)
    (tokens : onnx.HasTokens
      (job.entries.map fun e => textFields display (Engine.fieldSet job.stored e.2)))
    {vectors : List (List F32)} (ran : onnx.encodeBatch
      (job.entries.map fun e => textFields display (Engine.fieldSet job.stored e.2)) = .ok vectors) :
    ∃ encoded, job.encode = .ok encoded ∧ encoded.map Engine.Encoded.vector = vectors.map .dense ∧
      ∀ y ∈ encoded, Engine.fieldSet job.stored y.entity ≠ [] →
        InsertStores job.vectoriser job.stored y.entity y.vector := by
  have batch : job.vectoriser.encodeBatch (job.entries.map fun e => Engine.fieldSet job.stored e.2) =
      .ok (vectors.map .dense) := by
    rw [own, onnx.vectoriser_ok, List.map_map]
    exact (onnx.encodeBatch_iff alone _ tokens vectors).mp ran
  have each := batch
  rw [vectoriser_encodeBatch, mapM_ok, List.forall₂_map_left_iff] at each
  refine ⟨_, by rw [Engine.Job.encode, batch], ?_, fun y there filled => ?_⟩
  · rw [List.map_map]
    exact List.map_snd_zip each.length_eq.symm.le
  · obtain ⟨⟨e, vector⟩, zipped, rfl⟩ := List.mem_map.mp there
    exact insertStores_of_encode ((List.forall₂_iff_zip.mp each).2 zipped) filled

theorem encodeBatch_encodes_alone :
    (∀ {α : Type} [Zero α] [Add α] [Mul α] [Div α] [NatCast α] [Scalar α] (onnx : OnnxDense α),
      onnx.RunsRowsAlone → ∀ batch, onnx.HasTokens batch → ∀ vectors,
        (onnx.encodeBatch batch = .ok vectors ↔ batch.mapM onnx.encode = .ok vectors)) ∧
    (∀ (onnx : OnnxDense F32) display message modelId, onnx.RunsRowsAlone →
      ∀ (stored : StoredRepresentation) (entities : List Entity),
        onnx.HasTokens (entities.map fun e => textFields display (Engine.fieldSet stored e)) → ∀ vectors,
          (onnx.encodeBatch (entities.map fun e => textFields display (Engine.fieldSet stored e)) =
              .ok vectors ↔
            (onnx.vectoriser display message modelId).encodeBatch
              (entities.map fun e => Engine.fieldSet stored e) = .ok (vectors.map .dense))) ∧
    ∀ (onnx : OnnxDense F32) display message modelId, onnx.RunsRowsAlone → ∀ job : Engine.Job,
      job.vectoriser = onnx.vectoriser display message modelId →
        onnx.HasTokens
          (job.entries.map fun e => textFields display (Engine.fieldSet job.stored e.2)) → ∀ vectors,
          onnx.encodeBatch
              (job.entries.map fun e => textFields display (Engine.fieldSet job.stored e.2)) =
            .ok vectors →
          ∃ encoded, job.encode = .ok encoded ∧
            encoded.map Engine.Encoded.vector = vectors.map .dense ∧
              ∀ y ∈ encoded, Engine.fieldSet job.stored y.entity ≠ [] →
                InsertStores job.vectoriser job.stored y.entity y.vector := by
  refine ⟨fun onnx alone batch tokens vectors => onnx.encodeBatch_iff alone batch tokens vectors,
    fun onnx display message modelId alone stored entities tokens vectors => ?_,
    fun onnx display message modelId alone job own tokens vectors ran =>
      OnnxDense.recomputed alone own tokens ran⟩
  rw [onnx.encodeBatch_iff alone _ tokens, onnx.vectoriser_ok, List.map_map]
  rfl

theorem OnnxDense.characters_hasTokens (batch : List FieldSet) :
    OnnxDense.characters.HasTokens batch := by
  intro fields _ e tokenised
  cases tokenised
  exact Nat.succ_le_succ (Nat.zero_le _)

def showText : Value → String
  | .string s => s
  | _ => ""

/-- Two trees in a batch, one with a longer name. -/
def twoTrees : Engine.Job :=
  let tree (name : String) : Engine.ReprKey × Entity :=
    ((name, 0),
      { Entity.new name with metadata := (∅ : FinMap String Value).insert "name" (.string name) })
  ⟨"trees", 0, ⟨"r", none, none, .cosine, false, ["name"], 0, "", none⟩,
    OnnxDense.characters.vectoriser showText (fun _ => "") "m", [tree "Elm", tree "Birch"]⟩

theorem characters_encode_alone :
    let trees := twoTrees.entries.map Prod.snd
    let texts := trees.map fun e => textFields showText (Engine.fieldSet twoTrees.stored e)
    (∀ vectors, OnnxDense.characters.encodeBatch texts = .ok vectors ↔
      texts.mapM OnnxDense.characters.encode = .ok vectors) ∧
    (∀ vectors, OnnxDense.characters.encodeBatch texts = .ok vectors ↔
      twoTrees.vectoriser.encodeBatch (trees.map (Engine.fieldSet twoTrees.stored)) =
        .ok (vectors.map .dense)) ∧
    ∃ vectors, OnnxDense.characters.encodeBatch texts = .ok vectors ∧
      ∃ encoded, twoTrees.encode = .ok encoded ∧
        encoded.map Engine.Encoded.vector = vectors.map .dense ∧
          ∀ y ∈ encoded, Engine.fieldSet twoTrees.stored y.entity ≠ [] →
            InsertStores twoTrees.vectoriser twoTrees.stored y.entity y.vector :=
  ⟨encodeBatch_encodes_alone.1 _ OnnxDense.characters_alone _ (OnnxDense.characters_hasTokens _),
    encodeBatch_encodes_alone.2.1 _ _ _ _ OnnxDense.characters_alone twoTrees.stored
      (twoTrees.entries.map Prod.snd) (OnnxDense.characters_hasTokens _),
    _, rfl, encodeBatch_encodes_alone.2.2 _ _ _ _ OnnxDense.characters_alone twoTrees rfl
      (OnnxDense.characters_hasTokens _) _ rfl⟩

end TronDB.Vectoriser
