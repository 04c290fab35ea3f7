import TronDB.Core.Fetch
import TronDB.Lib.Arithmetic
import TronDB.Lib.Codec
import TronDB.Proto.Message

/-! What a result says beside its rows, and results put into messages and taken out of them, by every
node they pass. -/
namespace TronDB.Core
open Binary

structure AcuLineItem where
  operation : String
  count : UInt64
  unitCost : F64
  total : F64
  deriving DecidableEq, Repr

structure AcuEstimate where
  items : List AcuLineItem
  totalAcu : F64
  deriving DecidableEq, Repr

namespace AcuEstimate

def lineItem (operation : String) (count : UInt64) (unitCost : F64) : AcuLineItem :=
  ⟨operation, count, unitCost, (F64.ofInt count.toNat).mul unitCost⟩

def zero : AcuEstimate := ⟨[], .zero⟩

def single (operation : String) (count : UInt64) (unitCost : F64) : AcuEstimate :=
  ⟨[lineItem operation count unitCost], (lineItem operation count unitCost).total⟩

def add (e : AcuEstimate) (operation : String) (count : UInt64) (unitCost : F64) : AcuEstimate :=
  ⟨e.items ++ [lineItem operation count unitCost],
    e.totalAcu.add (lineItem operation count unitCost).total⟩

end AcuEstimate

inductive WarningSeverity where
  | info | warning | critical
  deriving DecidableEq, Repr

def WarningSeverity.text : WarningSeverity → String
  | .info => "INFO"
  | .warning => "WARN"
  | .critical => "CRIT"

structure PlanWarning where
  severity : WarningSeverity
  message : String
  suggestion : Option String
  acuImpact : Option F64
  deriving DecidableEq, Repr

/-- What is said of a query beside its rows; the time is in nanoseconds. -/
structure QueryStats where
  elapsed : Nat
  entitiesScanned : UInt64
  mode : QueryMode
  tier : String
  cost : Option AcuEstimate
  warnings : List PlanWarning
  deriving DecidableEq

/-- A result with everything that is said of it. -/
structure FullResult where
  columns : List String
  rows : List Row
  stats : QueryStats
  deriving DecidableEq

end TronDB.Core

namespace TronDB.Proto
open TronDB.Core Binary

namespace Message

inductive ValueMessage where
  | unset
  | stringVal (s : String)
  | intVal (n : Int64)
  | floatVal (f : F64)
  | boolVal (b : Bool)
  | nullVal (b : Bool)

structure RowMessage where
  values : FinMap String ValueMessage
  score : Option F32

structure AcuLineItemProto where
  operation : String
  count : UInt64
  unitCost : F64
  total : F64

structure AcuEstimateProto where
  items : List AcuLineItemProto
  totalAcu : F64

structure PlanWarningProto where
  severity : String
  message : String
  suggestion : String
  acuImpact : F64

structure QueryStatsMessage where
  elapsedNanos : UInt64
  entitiesScanned : UInt64
  mode : Int32
  tier : String
  cost : Option AcuEstimateProto
  warnings : List PlanWarningProto

structure QueryResponse where
  columns : List String
  rows : List RowMessage
  stats : Option QueryStatsMessage

end Message

open Message (ValueMessage RowMessage QueryResponse QueryStatsMessage)

/-! ### The conversions -/

def valueToProto : Value → ValueMessage
  | .string s => .stringVal s
  | .int n => .intVal n
  | .float f => .floatVal f
  | .bool b => .boolVal b
  | .null => .nullVal true

def protoToValue : ValueMessage → Except String Value
  | .stringVal s => .ok (.string s)
  | .intVal n => .ok (.int n)
  | .floatVal f => .ok (.float f)
  | .boolVal b => .ok (.bool b)
  | .nullVal _ => .ok .null
  | .unset => .error "missing value in ValueMessage"

def modeToProto : QueryMode → Int32
  | .deterministic => 0
  | .probabilistic => 1

def protoToMode (n : Int32) : Except String QueryMode :=
  if n = 0 then .ok .deterministic
  else if n = 1 then .ok .probabilistic
  else .error s!"unknown QueryModeProto value: {n}"

def acuEstimateToProto (est : AcuEstimate) : Message.AcuEstimateProto :=
  ⟨est.items.map fun item => ⟨item.operation, item.count, item.unitCost, item.total⟩, est.totalAcu⟩

def protoToAcuEstimate (est : Message.AcuEstimateProto) : AcuEstimate :=
  ⟨est.items.map fun item => ⟨item.operation, item.count, item.unitCost, item.total⟩, est.totalAcu⟩

/-- What is absent is sent as the empty text and as zero. -/
def planWarningToProto (w : PlanWarning) : Message.PlanWarningProto :=
  ⟨w.severity.text, w.message, w.suggestion.getD "", w.acuImpact.getD .zero⟩

def protoToPlanWarning (w : Message.PlanWarningProto) : PlanWarning where
  severity :=
    if w.severity = "WARN" then .warning else if w.severity = "CRIT" then .critical else .info
  message := w.message
  suggestion := if w.suggestion = "" then none else some w.suggestion
  acuImpact := if w.acuImpact.eq .zero then none else some w.acuImpact

def rowToProto (row : Row) : RowMessage := ⟨row.values.map fun _ v => valueToProto v, row.score⟩

def protoToRow (row : RowMessage) : Except String Row := do
  let values ← row.values.toList.mapM fun kv => (protoToValue kv.2).map (kv.1, ·)
  .ok ⟨FinMap.insertAll ∅ values, row.score⟩

def statsToProto (stats : QueryStats) : QueryStatsMessage :=
  ⟨.ofNat stats.elapsed, stats.entitiesScanned, modeToProto stats.mode, stats.tier,
    stats.cost.map acuEstimateToProto, stats.warnings.map planWarningToProto⟩

def protoToStats (stats : QueryStatsMessage) : Except String QueryStats := do
  .ok ⟨stats.elapsedNanos.toNat, stats.entitiesScanned, ← protoToMode stats.mode, stats.tier,
    stats.cost.map protoToAcuEstimate, stats.warnings.map protoToPlanWarning⟩

def resultToProto (r : FullResult) : QueryResponse :=
  ⟨r.columns, r.rows.map rowToProto, some (statsToProto r.stats)⟩

def protoToResult (m : QueryResponse) : Except String FullResult := do
  let rows ← m.rows.mapM protoToRow
  match m.stats with
  | none => .error "missing stats in QueryResponse"
  | some stats => .ok ⟨m.columns, rows, ← protoToStats stats⟩

/-! ### What arrives -/

def sentWarning (w : PlanWarning) : PlanWarning :=
  { w with
    suggestion := w.suggestion.filter (· ≠ "")
    acuImpact := w.acuImpact.filter fun x => !x.eq .zero }

def sentResult (r : FullResult) : FullResult :=
  { r with stats := { r.stats with
    elapsed := r.stats.elapsed % 2 ^ 64
    warnings := r.stats.warnings.map sentWarning } }

/-- A result that a message has room for. -/
structure Deliverable (r : FullResult) : Prop where
  elapsed : r.stats.elapsed < 2 ^ 64
  suggestion : ∀ w ∈ r.stats.warnings, w.suggestion ≠ some ""
  impact : ∀ w ∈ r.stats.warnings, ∀ x ∈ w.acuImpact, x.eq .zero = false

theorem value_back (v : Value) : protoToValue (valueToProto v) = .ok v := by
  cases v <;> rfl

theorem mode_back (mode : QueryMode) : protoToMode (modeToProto mode) = .ok mode := by
  cases mode <;> rfl

theorem estimate_back (est : AcuEstimate) : protoToAcuEstimate (acuEstimateToProto est) = est := by
  unfold protoToAcuEstimate acuEstimateToProto
  rw [List.map_map]
  exact congrArg (AcuEstimate.mk · est.totalAcu) (List.map_id est.items)

theorem row_back (row : Row) : protoToRow (rowToProto row) = .ok row := by
  have values : (row.values.map fun _ v => valueToProto v).toList.mapM
      (fun kv => (protoToValue kv.2).map (kv.1, ·)) = .ok row.values.toList := by
    rw [Std.ExtTreeMap.toList_map]
    refine Codec.mapM_map (fun kv => ?_) row.values.toList
    rw [value_back]
    rfl
  have whole : FinMap.insertAll ∅ row.values.toList = row.values := by
    apply FinMap.ext
    intro k
    rw [FinMap.get_insertAll_toList]
    simp
  unfold protoToRow rowToProto
  rw [values]
  exact congrArg (fun values => Except.ok (⟨values, row.score⟩ : Row)) whole

theorem severity_back (severity : WarningSeverity) :
    (if severity.text = "WARN" then WarningSeverity.warning
      else if severity.text = "CRIT" then .critical else .info) = severity := by
  cases severity <;> rfl

theorem warning_back (w : PlanWarning) : protoToPlanWarning (planWarningToProto w) = sentWarning w := by
  obtain ⟨severity, message, suggestion, impact⟩ := w
  unfold protoToPlanWarning planWarningToProto sentWarning
  rw [severity_back]
  congr 1
  · cases suggestion with
    | none => rfl
    | some s => by_cases empty : s = "" <;> simp [empty, Option.filter]
  · cases impact with
    | none => rfl
    | some x => cases zero : x.eq .zero <;> simp [zero, Option.filter]

theorem stats_back (stats : QueryStats) :
    protoToStats (statsToProto stats) = .ok { stats with
      elapsed := stats.elapsed % 2 ^ 64
      warnings := stats.warnings.map sentWarning } := by
  have cost : (stats.cost.map acuEstimateToProto).map protoToAcuEstimate = stats.cost := by
    cases stats.cost with
    | none => rfl
    | some est => exact congrArg some (estimate_back est)
  have warnings : (stats.warnings.map planWarningToProto).map protoToPlanWarning =
      stats.warnings.map sentWarning := by
    rw [List.map_map]
    exact List.map_congr_left fun w _ => warning_back w
  unfold protoToStats statsToProto
  rw [mode_back, cost, warnings]
  rfl

theorem response_back (r : FullResult) : protoToResult (resultToProto r) = .ok (sentResult r) := by
  unfold protoToResult resultToProto
  rw [Codec.mapM_map row_back r.rows]
  change (protoToStats (statsToProto r.stats) >>= fun stats =>
    Except.ok (⟨r.columns, r.rows, stats⟩ : FullResult)) = _
  rw [stats_back]
  rfl

theorem warning_sent_iff (w : PlanWarning) :
    sentWarning w = w ↔ w.suggestion ≠ some "" ∧ ∀ x ∈ w.acuImpact, x.eq .zero = false := by
  obtain ⟨severity, message, suggestion, impact⟩ := w
  rw [sentWarning, PlanWarning.mk.injEq]
  simp only [true_and]
  refine and_congr ?_ ?_
  · cases suggestion <;> simp [Option.filter_eq_some_iff]
  · cases impact <;> simp [Option.filter_eq_some_iff]

theorem sent_iff (r : FullResult) : sentResult r = r ↔ Deliverable r := by
  obtain ⟨columns, rows, elapsed, scanned, mode, tier, cost, warnings⟩ := r
  simp only [sentResult, FullResult.mk.injEq, QueryStats.mk.injEq, true_and]
  rw [← List.map_id warnings, List.map_map, List.map_inj_left, List.map_id]
  simp only [Function.comp_id, id_eq, warning_sent_iff]
  constructor
  · rintro ⟨short, kept⟩
    exact ⟨by dsimp only; omega, fun w there => (kept w there).1, fun w there => (kept w there).2⟩
  · rintro ⟨short, suggestion, impact⟩
    exact ⟨Nat.mod_eq_of_lt short, fun w there => ⟨suggestion w there, impact w there⟩⟩

theorem sent_deliverable (r : FullResult) : Deliverable (sentResult r) where
  elapsed := Nat.mod_lt r.stats.elapsed (by decide)
  suggestion w there := by
    obtain ⟨w, -, rfl⟩ := List.mem_map.mp there
    simp [sentWarning, Option.filter_eq_some_iff]
  impact w there x kept := by
    obtain ⟨w, -, rfl⟩ := List.mem_map.mp there
    simpa [sentWarning] using (Option.mem_filter_iff.mp kept).2

/-! ### From node to node -/

/-- A result passed on by a number of nodes, each taking it out of a message and putting it into
the next. -/
def passedOn : Nat → FullResult → Except String FullResult
  | 0, r => .ok r
  | hops + 1, r => protoToResult (resultToProto r) >>= passedOn hops

theorem passedOn_deliverable (hops : Nat) {r : FullResult} (deliverable : Deliverable r) :
    passedOn hops r = .ok r := by
  induction hops with
  | zero => rfl
  | succ hops ih =>
    rw [passedOn, response_back, (sent_iff r).mpr deliverable]
    exact ih

/-- Over any number of nodes a result arrives as it does over one. That is the result itself
exactly if the message has room for it. -/
theorem passedOn_arrives (hops : Nat) (r : FullResult) :
    passedOn (hops + 1) r = .ok (sentResult r) ∧ (passedOn (hops + 1) r = .ok r ↔ Deliverable r) := by
  have arrives : passedOn (hops + 1) r = .ok (sentResult r) := by
    rw [passedOn, response_back]
    exact passedOn_deliverable hops (sent_deliverable r)
  refine ⟨arrives, ?_⟩
  rw [arrives, Except.ok.injEq, sent_iff]

end TronDB.Proto
