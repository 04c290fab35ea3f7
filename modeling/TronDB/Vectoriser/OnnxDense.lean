import TronDB.Core.Polar
import TronDB.Lib.FinMap

/-! The dense vectoriser: a text is tokenised and run through a model, alone or in a padded batch. -/
namespace TronDB.Vectoriser
open TronDB.Core Packing

inductive VectoriserError where
  | encodeFailed (message : String)
  /-- The call does not return. -/
  | panicked (fault : Fault)
  deriving DecidableEq, Repr

abbrev FieldSet := FinMap String String

/-- The tokens of a text, with a mask entry for each. -/
structure Encoding where
  ids : List UInt32
  attentionMask : List UInt32
  masked : attentionMask.length = ids.length

structure Tensor (α : Type) where
  shape : List Nat
  data : List α
  deriving DecidableEq, Repr

/-- The tokeniser, and the session of the model on a batch of rows: its ids, its mask and its token
types. -/
structure OnnxDense (α : Type) where
  tokenize : String → Except String Encoding
  run : (batchSize seqLen : Nat) → (inputIds attentionMask tokenTypeIds : List Int) →
    Except String (Tensor α)

def maxLen : Nat := 512

def asI64 (tokens : List UInt32) : List Int := tokens.map fun token => (token.toNat : Int)

def encodeFailed {β : Type} (x : Except String β) : Except VectoriserError β :=
  x.mapError .encodeFailed

def panics {β : Type} (x : Except Fault β) : Except VectoriserError β := x.mapError .panicked

/-- The pairs in the order of their keys, as the sort leaves them. -/
def fieldText (fields : FieldSet) : String :=
  ". ".intercalate (fields.toList.map fun kv => s!"{kv.1}: {kv.2}")

section Encode
variable {α : Type} [Zero α] [Add α] [Mul α] [Div α] [NatCast α] [Scalar α]

def readSlice (data : List α) (start len : Nat) : Except Fault (List α) :=
  if start + len ≤ data.length then .ok ((data.drop start).take len) else .error .index

/-- The mean of the first rows of `dims` numbers from `base` on. -/
def meanPool (data : List α) (base tokenCount dims : Nat) : Except Fault (List α) := do
  let pooled ← (List.range tokenCount).foldlM (fun pooled t =>
    (List.range dims).foldlM (fun pooled d => do
      let sum ← readAt pooled d
      let x ← readAt data (base + t * dims + d)
      writeAt pooled d (sum + x)) pooled) (List.replicate dims 0)
  return pooled.map (· / (tokenCount : α))

def normalise (vector : List α) : List α :=
  let norm := Scalar.sqrt ((vector.map fun x => x * x).foldl (· + ·) 0)
  if Scalar.gt norm 0 then vector.map (· / norm) else vector

namespace OnnxDense
variable (onnx : OnnxDense α)

def extract (output : Tensor α) : Except VectoriserError (List α) :=
  match output.shape with
  | [_, tokenCount, dims] => do
    let pooled ← panics (meanPool output.data 0 tokenCount dims)
    return normalise pooled
  | [_, dims] => do
    let vector ← panics (readSlice output.data 0 dims)
    return normalise vector
  | shape => .error (.encodeFailed s!"unexpected output shape: {shape}")

def encodeText (text : String) : Except VectoriserError (List α) := do
  let encoding ← encodeFailed (onnx.tokenize text)
  let len := min encoding.ids.length maxLen
  let inputIds := asI64 (encoding.ids.take len)
  let attentionMask := asI64 (encoding.attentionMask.take len)
  let seqLen := inputIds.length
  let output ← encodeFailed (onnx.run 1 seqLen inputIds attentionMask (List.replicate seqLen 0))
  extract output

def encode (fields : FieldSet) : Except VectoriserError (List α) := onnx.encodeText (fieldText fields)

/-- The ids and the masks of all rows, each row padded with zeros. -/
def padBatch (encodings : List Encoding) (maxSeq : Nat) : Except Fault (List Int × List Int) :=
  encodings.zipIdx.foldlM (fun all enc =>
    (List.range (min enc.1.ids.length maxLen)).foldlM (fun all j => do
      let id ← readAt (asI64 enc.1.ids) j
      let ids ← writeAt all.1 (enc.2 * maxSeq + j) id
      let entry ← readAt (asI64 enc.1.attentionMask) j
      let mask ← writeAt all.2 (enc.2 * maxSeq + j) entry
      return (ids, mask)) all)
    (List.replicate (encodings.length * maxSeq) 0, List.replicate (encodings.length * maxSeq) 0)

def extractBatch (encodings : List Encoding) (output : Tensor α) :
    Except VectoriserError (List (List α)) :=
  match output.shape with
  | [_, seq, hidden] => encodings.zipIdx.mapM fun enc => do
    let encLen := min enc.1.ids.length maxLen
    let pooled ← panics (meanPool output.data (enc.2 * seq * hidden) encLen hidden)
    return normalise pooled
  | [_, hidden] => encodings.zipIdx.mapM fun enc => do
    let vector ← panics (readSlice output.data (enc.2 * hidden) hidden)
    return normalise vector
  | shape => .error (.encodeFailed s!"unexpected batch output shape: {shape}")

def maxSeq (encodings : List Encoding) : Nat :=
  ((encodings.map fun e => min e.ids.length maxLen).max?).getD 1

def encodeBatch (batch : List FieldSet) : Except VectoriserError (List (List α)) :=
  if batch.isEmpty then .ok []
  else do
    let encodings ← (batch.map fieldText).mapM fun text => encodeFailed (onnx.tokenize text)
    let maxSeq := maxSeq encodings
    let batchSize := encodings.length
    let (allIds, allMask) ← panics (padBatch encodings maxSeq)
    let allTypes := List.replicate (batchSize * maxSeq) 0
    let output ← encodeFailed (onnx.run batchSize maxSeq allIds allMask allTypes)
    extractBatch encodings output

end OnnxDense
end Encode
end TronDB.Vectoriser
