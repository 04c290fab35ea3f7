import TronDB.Routing.Tiers

/-! MessagePack of entities and of vectors. -/
namespace TronDB.Routing
open TronDB.Core TronDB.Engine TronDB.Wal Binary Bytes

namespace MessagePack
open Wal.MessagePack

def float32 (x : F32) : List UInt8 := 0xca :: beBytes 4 x.bits.toNat

def float64 (x : F64) : List UInt8 := 0xcb :: beBytes 8 x.bits.toNat

def map (entries : List (List UInt8 × List UInt8)) : List UInt8 :=
  let n := entries.length
  (if n < 16 then [UInt8.ofNat (0x80 + n)]
    else if n < 65536 then 0xde :: beBytes 2 n
    else 0xdf :: beBytes 4 n) ++ entries.flatMap fun kv => kv.1 ++ kv.2

def value : Value → List UInt8
  | .string s => fixmap [("String", str s)]
  | .int n => fixmap [("Int", int n.toInt)]
  | .float f => fixmap [("Float", float64 f)]
  | .bool b => fixmap [("Bool", [if b then 0xc3 else 0xc2])]
  | .null => str "Null"

def vectorData : VectorData → List UInt8
  | .dense v => fixmap [("Dense", array (v.map float32))]
  | .sparse v => fixmap [("Sparse", array (v.map fun iv => array [uint iv.1.toNat, float32 iv.2]))]

def representation (r : Representation) : List UInt8 :=
  fixmap
    [("name", str r.name),
      ("repr_type", str (match r.reprType with | .atomic => "Atomic" | .composite => "Composite")),
      ("fields", array (r.fields.map str)), ("vector", vectorData r.vector),
      ("recipe_hash", array (r.recipeHash.map fun b => uint b.toNat)),
      ("state", str (match r.state with | .clean => "Clean" | .dirty => "Dirty")),
      ("computed_at", uint r.computedAt), ("model_version", str r.modelVersion)]

def optional (time : Option Int64) : List UInt8 :=
  match time with
  | none => [0xc0]
  | some t => int t.toInt

def entity (e : Entity) : List UInt8 :=
  fixmap
    [("id", str e.id), ("metadata", map (e.metadata.toList.map fun kv => (str kv.1, value kv.2))),
      ("representations", array (e.representations.map representation)),
      ("schema_version", uint e.schemaVersion), ("valid_from", optional e.validFrom),
      ("valid_to", optional e.validTo), ("tx_time", uint e.txTime)]

def readFloat32 : Reader F32
  | [] => none
  | b :: rest =>
    if b = 0xca then (readBE 4 rest).map fun (bits, rest) => (⟨UInt32.ofNat bits⟩, rest) else none

def readFloats (bytes : List UInt8) : Option (List F32) := (readArray readFloat32 bytes).map Prod.fst

/-! ### Vectors are read back -/

theorem readBE_beBytes (width n : Nat) (fits : n < 256 ^ width) (rest : List UInt8) :
    readBE width (beBytes width n ++ rest) = some (n, rest) := by
  unfold readBE readBytes
  have long : ¬ (beBytes width n ++ rest).length < width := by
    rw [List.length_append, length_beBytes]
    omega
  rw [if_neg long, List.take_left' (length_beBytes width n), List.drop_left' (length_beBytes width n)]
  exact congrArg (fun n => some (n, rest)) (fromBE_beBytes width n fits)

theorem readFloat32_float32 (x : F32) (rest : List UInt8) :
    readFloat32 (float32 x ++ rest) = some (x, rest) := by
  have back := readBE_beBytes 4 x.bits.toNat x.bits.toNat_lt rest
  unfold float32 readFloat32
  rw [List.cons_append]
  dsimp only
  rw [if_pos rfl, back]
  simp

theorem readMany_floats (v : List F32) (rest : List UInt8) :
    readMany readFloat32 v.length ((v.map float32).flatten ++ rest) = some (v, rest) := by
  induction v with
  | nil => rfl
  | cons x v ih =>
    rw [List.map_cons, List.flatten_cons, List.append_assoc, List.length_cons, readMany]
    dsimp only
    rw [readFloat32_float32]
    dsimp only [Option.bind_eq_bind, Option.bind_some]
    rw [ih]
    rfl

theorem readFloats_vectorBytes (v : List F32) (fits : v.length < 2 ^ 32) :
    readFloats (vectorBytes v) = some v := by
  have all := readMany_floats v []
  rw [List.append_nil] at all
  have elements : (v.map fun x => 0xca :: beBytes 4 x.bits.toNat) = v.map float32 := rfl
  unfold readFloats vectorBytes Wal.MessagePack.array
  rw [elements, List.length_map]
  dsimp only
  by_cases small : v.length < 16
  · have header : (UInt8.ofNat (0x90 + v.length)).toNat = 0x90 + v.length := by
      simp only [UInt8.toNat_ofNat']
      omega
    have form : (0x90 : UInt8) ≤ UInt8.ofNat (0x90 + v.length) ∧
        UInt8.ofNat (0x90 + v.length) < 0xa0 := by
      rw [UInt8.le_iff_toNat_le, UInt8.lt_iff_toNat_lt, header]
      exact ⟨Nat.le_add_right _ _, Nat.add_lt_add_left small _⟩
    rw [if_pos small, List.singleton_append, readArray]
    dsimp only
    rw [if_pos form, header, Nat.add_sub_cancel_left]
    exact congrArg (Option.map Prod.fst) all
  · rw [if_neg small]
    by_cases medium : v.length < 65536
    · rw [if_pos medium, List.cons_append, readArray]
      dsimp only
      rw [if_neg (by decide), if_pos rfl, readBE_beBytes 2 v.length medium]
      exact congrArg (Option.map Prod.fst) all
    · rw [if_neg medium, List.cons_append, readArray]
      dsimp only
      rw [if_neg (by decide), if_neg (by decide), if_pos rfl, readBE_beBytes 4 v.length fits]
      exact congrArg (Option.map Prod.fst) all

/-! ### Entities and vectors are told apart -/

theorem entity_head (e : Entity) : (entity e).head? = some 0x87 := rfl

theorem vectorBytes_head (v : List F32) : ∃ b ∈ (vectorBytes v).head?, 0x90 ≤ b := by
  unfold vectorBytes Wal.MessagePack.array
  rw [List.length_map]
  dsimp only
  by_cases small : v.length < 16
  · have header : (UInt8.ofNat (0x90 + v.length)).toNat = 0x90 + v.length := by
      simp only [UInt8.toNat_ofNat']
      omega
    rw [if_pos small]
    refine ⟨_, rfl, ?_⟩
    rw [UInt8.le_iff_toNat_le, header]
    exact Nat.le_add_right _ _
  · rw [if_neg small]
    split
    · exact ⟨0xdc, rfl, by decide⟩
    · exact ⟨0xdd, rfl, by decide⟩

theorem entity_no_vector (e : Entity) : readFloats (entity e) = none := rfl

theorem vector_no_entity (v : List F32) (e : Entity) : vectorBytes v ≠ entity e := by
  intro same
  obtain ⟨b, first, large⟩ := vectorBytes_head v
  rw [same, entity_head] at first
  cases first
  exact absurd large (by decide)

end MessagePack

/-- The format of the files, with a reader of one entity. -/
def serdeOf (e : Entity) : RmpSerde where
  entityBytes := MessagePack.entity
  readEntity bytes := if bytes = MessagePack.entity e then some e else none
  readVector := MessagePack.readFloats

theorem serdeOf_tellsApart (e : Entity) : (serdeOf e).TellsApart where
  vector := MessagePack.readFloats_vectorBytes
  noVector := MessagePack.entity_no_vector
  noEntity v := if_neg (MessagePack.vector_no_entity v e)

theorem serdeOf_reads (e : Entity) : (serdeOf e).readEntity ((serdeOf e).entityBytes e) = some e :=
  if_pos rfl

end TronDB.Routing
