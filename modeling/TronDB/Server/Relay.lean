import TronDB.Lib.Packing
import TronDB.Proto.RoundTrip
import TronDB.Server.Forwarding

/-! A plan passed on from node to node until one of them executes it: what comes back when a plan
that was taken out of a message is put into one again, and who executes it. -/
namespace TronDB.Proto
open TronDB.Core TronDB.Engine Binary
open Message (WhereClauseProto PlanRequest)

/-! ### The text of a NaN -/

/-- A budget that is not a number is read as the one NaN. -/
def settleHint (text : FloatText) : QueryHint → QueryHint
  | .maxAcu v => .maxAcu (if v.isNaN then text.nan else v)
  | h => h

def settle (text : FloatText) : Plan → Plan
  | .fetch p => .fetch { p with hints := p.hints.map (settleHint text) }
  | .search p => .search { p with hints := p.hints.map (settleHint text) }
  | .join p => .join { p with hints := p.hints.map (settleHint text) }
  | .explain plan => .explain (settle text plan)
  | plan => plan

section Settle
variable (text : FloatText)

theorem settleHint_twice (h : QueryHint) :
    settleHint text (settleHint text h) = settleHint text h := by
  cases h with
  | maxAcu v =>
    unfold settleHint
    by_cases nan : v.isNaN = true
    · simp [nan]
    · simp [nan]
  | _ => rfl

theorem settle_twice (p : Plan) : settle text (settle text p) = settle text p := by
  induction p with
  | explain plan ih => exact congrArg Plan.explain ih
  | fetch p | search p | join p => simp [settle, Function.comp_def, settleHint_twice]
  | _ => rfl

theorem budget_read (budget : String) :
    protoToHint text ("MAX_ACU(" ++ budget ++ ")") = (text.parse budget).map .maxAcu := by
  have chars : ("MAX_ACU(" ++ budget ++ ")").toList = 'M' :: ("AX_ACU(" ++ budget ++ ")").toList := by
    simp
  have other (s : String) (c : Char) (rest : List Char) (first : s.toList = c :: rest)
      (differ : c ≠ 'M') : ¬ "MAX_ACU(" ++ budget ++ ")" = s := by
    intro same
    rw [same, first] at chars
    exact differ (List.cons.inj chars).1
  unfold protoToHint
  rw [if_neg (other _ 'N' _ rfl (by decide)), if_neg (other _ 'N' _ rfl (by decide)),
    if_neg (other _ 'F' _ rfl (by decide)), inner_between]

theorem hint_settled (h : QueryHint) :
    protoToHint text (hintToProto text (settleHint text h)) =
      protoToHint text (hintToProto text h) := by
  cases h with
  | maxAcu v =>
    simp only [settleHint, hintToProto, budget_read, text.parse_display]
    by_cases nan : v.isNaN = true
    · simp [nan]
    · simp [nan]
  | _ => rfl

theorem hints_settled (hints : List QueryHint) :
    ((hints.map (settleHint text)).map (hintToProto text)).filterMap (protoToHint text) =
      (hints.map (hintToProto text)).filterMap (protoToHint text) := by
  simp only [List.map_map, List.filterMap_map]
  exact List.filterMap_congr fun h _ => hint_settled text h

theorem explain_back (p : Plan) :
    planToProto text (.explain p) >>= protoToPlan text =
      (planToProto text p >>= protoToPlan text).map .explain := by
  rw [planToProto]
  cases planToProto text p with
  | error e => rfl
  | ok message =>
    change protoToPlan text (.explain (some message)) = (protoToPlan text message).map .explain
    rw [protoToPlan]
    cases protoToPlan text message <;> rfl

theorem plan_settled (p : Plan) :
    planToProto text (settle text p) >>= protoToPlan text =
      planToProto text p >>= protoToPlan text := by
  induction p with
  | fetch p =>
    unfold settle planToProto
    dsimp only
    cases p.filter.mapM whereClauseToProto with
    | error e => rfl
    | ok filter =>
      dsimp only [bind, Except.bind]
      unfold protoToPlan
      dsimp only
      rw [hints_settled]
  | search p =>
    unfold settle planToProto
    dsimp only
    cases p.filter.mapM whereClauseToProto with
    | error e => rfl
    | ok filter =>
      cases p.preFilter.mapM preFilterToProto with
      | error e => rfl
      | ok preFilter =>
        dsimp only [bind, Except.bind]
        unfold protoToPlan
        dsimp only
        rw [hints_settled]
  | join p =>
    unfold settle planToProto
    dsimp only
    cases p.filter.mapM whereClauseToProto with
    | error e => rfl
    | ok filter =>
      dsimp only [bind, Except.bind]
      unfold protoToPlan
      dsimp only
      rw [hints_settled]
  | explain plan ih =>
    rw [settle, explain_back, explain_back, ih]
  | _ => rfl

/-! ### What a message can hold -/

theorem sendable_read {message : WhereClauseProto} {clause : WhereClause}
    (read : protoToWhereClause message = .ok clause) : Sendable clause := by
  induction message using protoToWhereClause.induct generalizing clause with
  | case1 c | case2 c | case3 c | case4 c | case5 c =>
    rw [protoToWhereClause] at read
    obtain ⟨⟨f, v⟩, -, same⟩ := Packing.bind_ok.mp read
    cases same
    trivial
  | case6 l r left right | case7 l r left right =>
    rw [protoToWhereClause] at read
    obtain ⟨l', first, rest⟩ := Packing.bind_ok.mp read
    obtain ⟨r', second, same⟩ := Packing.bind_ok.mp rest
    cases same
    exact ⟨left first, right second⟩
  | case8 | case9 | case12 =>
    rw [protoToWhereClause] at read
    cases read
  | case10 l _ | case11 l _ =>
    rw [protoToWhereClause] at read
    obtain ⟨_, -, refused⟩ := Packing.bind_ok.mp read
    cases refused

theorem filter_read {message : Option WhereClauseProto} {filter : Option WhereClause}
    (read : message.mapM protoToWhereClause = .ok filter) : ∀ clause ∈ filter, Sendable clause := by
  cases message with
  | none =>
    cases read
    exact fun clause there => nomatch there
  | some m =>
    obtain ⟨clause, one, rfl⟩ := Codec.mapM_some.mp read
    intro clause' same
    cases same
    exact sendable_read one

theorem preFilter_read {message : Option Message.PreFilterProto} {preFilter : Option PreFilter}
    (read : message.mapM protoToPreFilter = .ok preFilter) :
    ∀ pf ∈ preFilter, Sendable pf.clause := by
  cases message with
  | none =>
    cases read
    exact fun pf there => nomatch there
  | some m =>
    obtain ⟨pf, one, rfl⟩ := Codec.mapM_some.mp read
    obtain ⟨clause, -, rest⟩ := Packing.bind_ok.mp one
    obtain ⟨clause', here, same⟩ := Packing.bind_ok.mp rest
    cases same
    intro pf' same
    cases same
    exact sendable_read here

theorem indexes_read {messages : List Message.IndexDecl} {indexes : List IndexDecl}
    (read : messages.mapM protoToIndexDecl = .ok indexes) :
    ∀ idx ∈ indexes, ∀ clause ∈ idx.partialCondition, Sendable clause := by
  intro idx listed
  obtain ⟨m, -, one⟩ := Codec.mem_of_mapM read idx listed
  obtain ⟨condition, here, same⟩ := Packing.bind_ok.mp one
  cases same
  exact filter_read here

theorem hint_read {s : String} {h : QueryHint} (read : protoToHint text s = some h) :
    HintSendable text (settleHint text h) := by
  cases h with
  | maxAcu v =>
    intro nan
    by_cases number : v.isNaN = true
    · exact if_pos number
    · rw [if_neg number] at nan
      exact absurd nan number
  | timeout n =>
    unfold protoToHint at read
    repeat' split at read
    all_goals try cases read
    · obtain ⟨v, -, other⟩ := Option.map_eq_some_iff.mp read
      cases other
    · obtain ⟨n', parsed, same⟩ := Option.map_eq_some_iff.mp read
      cases same
      have below : n < 2 ^ 64 := of_decide_eq_true (Option.filter_eq_some_iff.mp parsed).2
      exact below
  | _ => trivial

theorem hints_read (hints : List String) :
    ∀ h ∈ (hints.filterMap (protoToHint text)).map (settleHint text), HintSendable text h := by
  intro h listed
  obtain ⟨h', there, rfl⟩ := List.mem_map.mp listed
  obtain ⟨s, -, read⟩ := List.mem_filterMap.mp there
  exact hint_read text read

theorem settle_wireable {message : PlanRequest} {p : Plan}
    (read : protoToPlan text message = .ok p) : Wireable text (settle text p) := by
  induction message using protoToPlan.induct generalizing p with
  | case1 | case6 =>
    rw [protoToPlan] at read
    cases read
  | case2 m =>
    rw [protoToPlan] at read
    obtain ⟨fields, -, rest⟩ := Packing.bind_ok.mp read
    obtain ⟨indexes, here, same⟩ := Packing.bind_ok.mp rest
    cases same
    refine ⟨fun r listed => ?_, indexes_read here, rfl⟩
    obtain ⟨m', -, rfl⟩ := List.mem_map.mp listed
    rfl
  | case3 m =>
    rw [protoToPlan] at read
    obtain ⟨vectors, -, rest⟩ := Packing.bind_ok.mp read
    obtain ⟨values, -, same⟩ := Packing.bind_ok.mp rest
    cases same
    change (if m.collocateWith = [] then none else some m.collocateWith) ≠ some []
    split
    · simp
    · rename_i some_
      exact fun same => some_ (Option.some.inj same)
  | case4 m =>
    rw [protoToPlan] at read
    obtain ⟨fields, -, rest⟩ := Packing.bind_ok.mp read
    obtain ⟨filter, here, rest⟩ := Packing.bind_ok.mp rest
    obtain ⟨temporal, -, same⟩ := Packing.bind_ok.mp rest
    cases same
    exact ⟨filter_read here, hints_read text m.hints⟩
  | case5 m =>
    rw [protoToPlan] at read
    obtain ⟨fields, -, rest⟩ := Packing.bind_ok.mp read
    obtain ⟨filter, here, rest⟩ := Packing.bind_ok.mp rest
    obtain ⟨preFilter, there, rest⟩ := Packing.bind_ok.mp rest
    obtain ⟨within, -, same⟩ := Packing.bind_ok.mp rest
    cases same
    exact ⟨filter_read here, preFilter_read there, hints_read text m.hints⟩
  | case7 m ih =>
    rw [protoToPlan] at read
    obtain ⟨plan, here, same⟩ := Packing.bind_ok.mp read
    cases same
    have wireable := ih here
    exact wireable
  | case8 m =>
    rw [protoToPlan] at read
    cases read
    rfl
  | case24 m =>
    rw [protoToPlan] at read
    obtain ⟨fields, -, rest⟩ := Packing.bind_ok.mp read
    obtain ⟨joins, -, rest⟩ := Packing.bind_ok.mp rest
    obtain ⟨filter, here, same⟩ := Packing.bind_ok.mp rest
    cases same
    exact ⟨filter_read here, hints_read text m.hints⟩
  | case30 m =>
    rw [protoToPlan] at read
    obtain ⟨operation, -, same⟩ := Packing.bind_ok.mp read
    cases same
    cases operation with
    | addRepresentation op =>
      intro d there
      obtain ⟨d', -, rfl⟩ := Option.map_eq_some_iff.mp there
      exact d'.toNat_lt
    | _ => trivial
  | case9 m | case18 m | case25 m =>
    rw [protoToPlan] at read
    obtain ⟨part, -, same⟩ := Packing.bind_ok.mp read
    cases same
    trivial
  | case27 m =>
    rw [protoToPlan] at read
    obtain ⟨vectors, -, rest⟩ := Packing.bind_ok.mp read
    obtain ⟨values, -, same⟩ := Packing.bind_ok.mp rest
    cases same
    trivial
  | _ =>
    rw [protoToPlan] at read
    cases read
    trivial

theorem read_back {message : PlanRequest} {p : Plan} (read : protoToPlan text message = .ok p) :
    planToProto text p >>= protoToPlan text = .ok (settle text p) := by
  rw [← plan_settled]
  exact (plan_survives_iff text _).mpr (settle_wireable text read)

end Settle
end TronDB.Proto

namespace TronDB.Server
open TronDB.Core TronDB.Engine TronDB.Proto Wal
open Message (PlanRequest)

/-- A node with no engine passes a plan on, and one that is not the primary a write. -/
def Service.forwards (x : Service) (plan : Plan) : Bool :=
  x.engine.isNone || decide (x.role ≠ .primary) && isWritePlan plan

/-- The answer of a node that has to forward and knows no primary. -/
def noPrimary : Answer := .unavailable "no primary configured for write forwarding"

section Relay
variable [WalPayload Payload]

/-- What a node does with a plan it does not pass on. -/
def Service.carryOut (front : Front) (env : Env) (x : Service) (plan : Plan) : Answer × Service :=
  if x.role = .primary ∧ isWritePlan plan ∧ x.requireReplica ∧ x.connected = some 0 then
    (.unavailable "no replicas connected and require_replica is true", x)
  else (.executed, { x with engine := x.engine.map fun s => executePlan front env s plan })

/-- A request at the first of some nodes, each of which has the next one for its primary: the
answer that comes back, or the panic, and what has become of the nodes. The answer is passed back
as it is. -/
def relay (front : Front) : List (Env × Service) → PlanRequest → Except String Answer × List Service
  | [], _ => (.ok noPrimary, [])
  | (env, x) :: rest, message =>
    match x.execute front env message with
    | (.forwarded plan, x) =>
      if rest.isEmpty then (.ok noPrimary, [x])
      else
        match planToProto front.text plan with
        | .error panic => (.error panic, x :: rest.map Prod.snd)
        | .ok message =>
          let later := relay front rest message
          (later.1, x :: later.2)
    | (answer, x) => (.ok answer, x :: rest.map Prod.snd)

theorem execute_read {front : Front} {message : PlanRequest} {plan : Plan}
    (read : protoToPlan front.text message = .ok plan) (env : Env) (x : Service) :
    x.execute front env message =
      if x.forwards plan then (.forwarded plan, x) else x.carryOut front env plan := by
  obtain ⟨role, engine, connected, requireReplica⟩ := x
  unfold Service.execute Service.forwards Service.carryOut
  rw [read]
  cases engine with
  | none => rfl
  | some s =>
    dsimp only
    by_cases primary : role = .primary
    · simp [primary]
    · by_cases write : isWritePlan plan = true
      · simp [primary, write]
      · simp [primary, write]

omit [WalPayload Payload] in
theorem forwards_settle (text : FloatText) (x : Service) (plan : Plan) :
    x.forwards (settle text plan) = x.forwards plan := by
  have same : isWritePlan (settle text plan) = isWritePlan plan := by cases plan <;> rfl
  unfold Service.forwards
  rw [same]

theorem carryOut_answers (front : Front) (env : Env) (x : Service) (plan : Plan) :
    ∀ plan', (x.carryOut front env plan).1 ≠ .forwarded plan' := by
  intro plan'
  unfold Service.carryOut
  split <;> simp

/-- The plan as it comes to a node with some before it. -/
def arriving (text : FloatText) (before : List (Env × Service)) (plan : Plan) : Plan :=
  if before.isEmpty then plan else settle text plan

/-- The first node that does not pass an accepted plan on carries it out, and no other node does
anything; where all pass it on, the request is answered with the want of a primary. No node on the
way refuses the plan or panics. -/
theorem relay_spec (front : Front) (chain : List (Env × Service)) {message : PlanRequest}
    {plan : Plan} (read : protoToPlan front.text message = .ok plan) :
    (∃ before env x after, chain = before ++ (env, x) :: after ∧
      (∀ y ∈ before, y.2.forwards plan = true) ∧ x.forwards plan = false ∧
        relay front chain message =
          let (answer, x) := x.carryOut front env (arriving front.text before plan)
          (.ok answer, before.map Prod.snd ++ x :: after.map Prod.snd)) ∨
    (∀ y ∈ chain, y.2.forwards plan = true) ∧
      relay front chain message = (.ok noPrimary, chain.map Prod.snd) := by
  induction chain generalizing message plan with
  | nil => exact .inr ⟨by simp, rfl⟩
  | cons first rest ih =>
    obtain ⟨env, x⟩ := first
    have here := execute_read read env x
    unfold relay
    by_cases forwards : x.forwards plan = true
    · rw [if_pos forwards] at here
      rw [here]
      dsimp only
      cases rest with
      | nil => exact .inr ⟨by simpa using forwards, rfl⟩
      | cons next later =>
        -- the plan is encoded, and read at the next node
        obtain ⟨message', sent, again⟩ := Packing.bind_ok.mp (read_back front.text read)
        rw [sent]
        dsimp only [List.isEmpty_cons]
        have passed (y : Env × Service) : y.2.forwards (settle front.text plan) = y.2.forwards plan :=
          forwards_settle front.text y.2 plan
        rcases ih again with ⟨before, env', x', after, split_, pass, stays, relayed⟩ | ⟨pass, relayed⟩
        · refine .inl ⟨(env, x) :: before, env', x', after, by rw [split_]; rfl, ?_, ?_, ?_⟩
          · exact List.forall_mem_cons.mpr ⟨forwards, fun y there => passed y ▸ pass y there⟩
          · exact forwards_settle front.text x' plan ▸ stays
          · have same : arriving front.text before (settle front.text plan) =
                arriving front.text ((env, x) :: before) plan := by
              unfold arriving
              rw [settle_twice]
              cases before <;> rfl
            rw [if_neg Bool.false_ne_true, relayed, same]
            rfl
        · refine .inr ⟨List.forall_mem_cons.mpr ⟨forwards, fun y there => passed y ▸ pass y there⟩, ?_⟩
          rw [if_neg Bool.false_ne_true, relayed]
          rfl
    · rw [if_neg forwards] at here
      rw [here]
      refine .inl ⟨[], env, x, rest, rfl, by simp, by simpa using forwards, ?_⟩
      have answers := carryOut_answers front env x plan
      rw [show arriving front.text [] plan = plan from rfl]
      generalize Service.carryOut front env x plan = outcome at answers ⊢
      obtain ⟨answer, x'⟩ := outcome
      cases answer with
      | forwarded plan' => exact absurd rfl (answers plan')
      | _ => rfl

end Relay

section Examples
attribute [local instance] headerOnly

def routed : List (Env × Service) :=
  [(.idle, ⟨.router, none, none, false⟩), (.idle, ⟨.primary, some (.init default), some 0, true⟩)]

theorem delete_relayed :
    ∃ answer, (relay checkpointOnly routed (.deleteEntity ⟨"a", "venues"⟩)).1 = .ok answer := by
  have read : protoToPlan checkpointOnly.text (.deleteEntity ⟨"a", "venues"⟩) =
      .ok (.deleteEntity ⟨"a", "venues"⟩) := rfl
  rcases relay_spec checkpointOnly routed read with ⟨before, env, x, after, -, -, -, relayed⟩ | ⟨-, relayed⟩
  · exact ⟨_, congrArg Prod.fst relayed⟩
  · exact ⟨_, congrArg Prod.fst relayed⟩

end Examples
end TronDB.Server
