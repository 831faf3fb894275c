import JamJet.BudgetRuns
import JamJet.Hashing
import JamJet.LeaseOps
import JamJet.Skips

/-! Routing: the expressions of a condition node's branches, the executor that picks one, the
spilling of large outputs to the artifact store, and the route the scheduler reads off the
committed completion. -/

namespace JamJet

namespace Condition

/-- White space, as Unicode has it. -/
def isWhiteSpace (c : Char) : Bool :=
  (9 ≤ c.toNat ∧ c.toNat ≤ 13) ∨ c.toNat ∈ [0x20, 0x85, 0xa0, 0x1680, 0x2028, 0x2029, 0x202f, 0x205f,
    0x3000] ∨ (0x2000 ≤ c.toNat ∧ c.toNat ≤ 0x200a)

def trim (s : List Char) : List Char :=
  ((s.dropWhile isWhiteSpace).reverse.dropWhile isWhiteSpace).reverse

inductive CompareOp
  | eq
  | ne
  deriving DecidableEq, Repr

/-- The first operator from the left, with the text before and after it. -/
def findFirstOp : List Char → Option (List Char × CompareOp × List Char)
  | '!' :: '=' :: rest => some ([], .ne, rest)
  | '=' :: '=' :: rest => some ([], .eq, rest)
  | c :: rest => (findFirstOp rest).map fun (before, op, after) => (c :: before, op, after)
  | [] => none

/-- `str::parse::<usize>`. -/
def parseUsize (s : List Char) : Option ℕ :=
  let digits := match s with
    | '+' :: rest => rest
    | _ => s
  let n := Nat.ofDigitChars 10 digits 0
  if !digits.isEmpty && digits.all Char.isDigit && n < 2 ^ 64 then some n else none

/-- One segment of a path: a key of an object, or an index into an array. -/
def descend (current : Json) (segment : List Char) : Option Json :=
  if segment.isEmpty then none
  else
    match current with
    | .object fields => BTree.get fields (String.ofList segment)
    | .array items => (parseUsize segment).bind fun i => items[i]?
    | _ => none

def resolvePath (root : Json) (dottedPath : List Char) : Option Json :=
  (dottedPath.splitOn '.').foldlM descend root

/-- Absent, null, false, zero and everything empty are falsy. -/
def isTruthy : Option Json → Bool
  | none | some .null => false
  | some (.bool b) => b
  | some (.number (.int n)) => n ≠ 0
  | some (.number (.float bits)) => bits.extractLsb' 0 63 ≠ 0
  | some (.string s) => !s.isEmpty
  | some (.array items) => !items.isEmpty
  | some (.object fields) => !fields.isEmpty

/-- Equality of numbers: an integer is no float, and the two float zeros are one. -/
def numbersEqual : JsonNumber → JsonNumber → Bool
  | .int a, .int b => a = b
  | .float a, .float b => a = b ∨ (a.extractLsb' 0 63 = 0 ∧ b.extractLsb' 0 63 = 0)
  | _, _ => false

mutual

/-- Equality of two JSON values. -/
def jsonEqual : Json → Json → Bool
  | .null, .null => true
  | .bool a, .bool b => a = b
  | .number a, .number b => numbersEqual a b
  | .string a, .string b => a = b
  | .array a, .array b => itemsEqual a b
  | .object a, .object b => membersEqual a b
  | _, _ => false

def itemsEqual : List Json → List Json → Bool
  | [], [] => true
  | a :: as, b :: bs => jsonEqual a b && itemsEqual as bs
  | _, _ => false

def membersEqual : List (String × Json) → List (String × Json) → Bool
  | [], [] => true
  | (k, a) :: as, (l, b) :: bs => k = l && jsonEqual a b && membersEqual as bs
  | _, _ => false

end

/-- A missing path counts as null. -/
def valuesEqual (resolved : Option Json) (rhs : Json) : Bool :=
  match resolved with
  | none => jsonEqual rhs .null
  | some v => jsonEqual v rhs

/-- What follows `state.`, unless nothing does. -/
def statePath (s : List Char) : Option (List Char) :=
  match "state.".toList.isPrefixOf? s with
  | some (c :: path) => some (c :: path)
  | _ => none

/-- `lhs OP rhs`; a right-hand side that is no literal makes the comparison false. -/
def evalComparison (parseLiteral : String → Option Json) (lhs : List Char) (op : CompareOp)
    (rhs : List Char) (state : Json) : Bool :=
  match statePath (trim lhs), parseLiteral (String.ofList (trim rhs)) with
  | some path, some literal =>
      match op with
      | .eq => valuesEqual (resolvePath state path) literal
      | .ne => !valuesEqual (resolvePath state path) literal
  | _, _ => false

def evalTruthiness (expr : List Char) (state : Json) : Bool :=
  match statePath expr with
  | some path => isTruthy (resolvePath state path)
  | none => false

/-- Whether a branch expression holds in the committed state, given how JSON text is read. -/
def evalCondition (parseLiteral : String → Option Json) (expr : String) (state : Json) : Bool :=
  let expr := trim expr.toList
  if expr.isEmpty then false
  else
    match findFirstOp expr with
    | some (lhs, op, rhs) => evalComparison parseLiteral lhs op rhs state
    | none => evalTruthiness expr state

end Condition

/-- What an executor returns. -/
structure ExecutionResult where
  output : Json
  statePatch : Json
  durationMs : ℕ
  genAiSystem : Option String := none
  genAiModel : Option String := none
  inputTokens : Option ℕ := none
  outputTokens : Option ℕ := none
  finishReason : Option String := none

/-- A branch as the executor reads it off the payload; no condition marks the default. -/
structure BranchDef where
  condition : Option String
  target : String
  deriving DecidableEq, Repr

namespace BranchDef

/-- `serde_json::from_value`, from an object or from the list of the two fields. -/
def fromJson : Json → Option BranchDef
  | .object fields =>
      ofFields ((BTree.get fields "condition").getD .null) (BTree.get fields "target")
  | .array [condition, target] => ofFields condition (some target)
  | _ => none
where
  ofFields (condition : Json) (target : Option Json) : Option BranchDef :=
    match condition, target with
    | .null, some (.string target) => some ⟨none, target⟩
    | .string expr, some (.string target) => some ⟨some expr, target⟩
    | _, _ => none

def listFromJson : Json → Option (List BranchDef)
  | .array items => items.mapM fromJson
  | _ => none

end BranchDef

namespace ConditionNodeExecutor

/-- The branch chosen so far and the default found so far. -/
def considerBranch (parseLiteral : String → Option Json) (state : Json)
    (found : Option String × Option String) (branch : BranchDef) : Option String × Option String :=
  match branch.condition with
  | some expr =>
      if found.1.isNone && Condition.evalCondition parseLiteral expr state then
        (some branch.target, found.2)
      else found
  | none => if found.2.isNone then (found.1, some branch.target) else found

/-- The first branch that holds, else the first default. -/
def resolve (parseLiteral : String → Option Json) (state : Json) (branches : List BranchDef) :
    Option String :=
  let found := branches.foldl (considerBranch parseLiteral state) (none, none)
  found.1.or found.2

/-- The routing record of the output. -/
def routing (resolved : Option String) (targets : List String) : Json :=
  Json.ofFields [("chosen_target", Json.ofOption .string resolved),
    ("branch_targets", .array (targets.map .string))]

/-- Its errors are fatal.  `malformed` is the reader's account of branches it could not read,
`durationMs` the time the execution took. -/
def execute (parseLiteral : String → Option Json) (malformed : Json → String) (durationMs : ℕ)
    (nodeId : NodeId) (payload : Json) : Except String ExecutionResult :=
  let noop : ExecutionResult :=
    { output := .object [], statePatch := .object [], durationMs := durationMs }
  match payload.get "branches" with
  | none => .ok noop
  | some raw =>
      match BranchDef.listFromJson raw with
      | none =>
          .error ("condition node `" ++ nodeId ++ "`: malformed `branches` payload — " ++
            "expected an array of \x7bcondition, target\x7d objects; " ++ malformed raw)
      | some [] => .ok noop
      | some branches =>
          let state := (payload.get "state").getD (.object [])
          .ok
            { output := routing (resolve parseLiteral state branches) (branches.map (·.target))
              statePatch := .object []
              durationMs := durationMs }

end ConditionNodeExecutor

/-- A large value stored apart, by the hash of its bytes. -/
structure ArtifactRef where
  hash : String
  size : ℕ
  mediaType : Option String
  deriving DecidableEq, Repr

/-- The value that stands in an event for one stored apart. -/
def ArtifactRef.toSentinel (ref : ArtifactRef) : Json :=
  Json.ofFields [("$artifact", Json.ofFields [("hash", .string ref.hash),
    ("size", Json.ofNat ref.size), ("media_type", Json.ofOption .string ref.mediaType)])]

structure ArtifactRow where
  hash : String
  bytes : String
  mediaType : Option String
  deriving DecidableEq, Repr

abbrev Artifacts := Table String ArtifactRow (·.hash)

/-- Write-once: the first row of a hash stays, with its media type. -/
def putArtifact (sha256Hex : String → String) (artifacts : Artifacts) (bytes : String)
    (mediaType : Option String) : ArtifactRef × Artifacts :=
  let hash := sha256Hex bytes
  let stored := (artifacts.insert? ⟨hash, bytes, mediaType⟩).getD artifacts
  (⟨hash, bytes.utf8ByteSize, (stored.find? hash).bind (·.mediaType)⟩, stored)

/-- The text of a value that takes more than `threshold` bytes; its keys are in order already. -/
def spillBytes [FloatText] (value : Json) (threshold : ℕ) : Option String :=
  let bytes := Hashing.canonicalJson value
  if threshold < bytes.utf8ByteSize then some bytes else none

namespace Worker

/-- The output as the event carries it: in place, or stored apart and referred to. -/
def eventOutput [FloatText] (sha256Hex : String → String) (threshold : ℕ) (artifacts : Artifacts)
    (output : Json) : Json × Artifacts :=
  match spillBytes output threshold with
  | some bytes =>
      let (ref, artifacts) := putArtifact sha256Hex artifacts bytes (some "application/json")
      (ref.toSentinel, artifacts)
  | none => (output, artifacts)

/-- The end of `execute_item`: what the executor returned is committed under the claim, a result
with the counters of the budget in its patch. -/
def commitExecution [FloatText] [F64] (sha256Hex : String → String) (threshold : ℕ)
    (budget : BudgetState) (idempotencyKey : Option String) (item : WorkItem)
    (outcome : Except String ExecutionResult) (now : Instant) (artifacts : Artifacts) (db : Db) :
    Except BackendError EventSequence × Artifacts × Db :=
  match outcome with
  | .ok result =>
      let budget := budget.accumulate result.inputTokens result.outputTokens none
      let (output, artifacts) := eventOutput sha256Hex threshold artifacts result.output
      let (reply, db) := db.commitTurn item.id item.leaseFence item.executionId
        (.nodeCompleted item.nodeId
          { output := output
            statePatch := budget.patchIntoSnapshotState result.statePatch
            durationMs := result.durationMs
            genAiSystem := result.genAiSystem
            genAiModel := result.genAiModel
            inputTokens := result.inputTokens
            outputTokens := result.outputTokens
            finishReason := result.finishReason
            idempotencyKey := idempotencyKey }) true now
      (reply, artifacts, db)
  | .error msg =>
      let (reply, db) := db.commitTurn item.id item.leaseFence item.executionId
        (.nodeFailed item.nodeId msg item.attempt false) false now
      (reply, artifacts, db)

end Worker

section Reading

variable {parseLiteral : String → Option Json} {state : Json}

/-- The target of the first branch that holds, else of the first without a condition. -/
def expectedRoute (holds : String → Bool) (branches : List ConditionalBranch) : Option NodeId :=
  ((branches.find? fun b => b.condition.any holds).or
    (branches.find? fun b => b.condition.isNone)).map (·.target)

def ConditionalBranch.toDef (b : ConditionalBranch) : BranchDef := ⟨b.condition, b.target⟩

theorem BranchDef.fromJson_toJson (b : ConditionalBranch) : fromJson b.toJson = some b.toDef := by
  obtain ⟨condition, target⟩ := b
  have hget : ∀ k, BTree.get (BTree.insertAll [] [("condition", Json.ofOption .string condition),
      ("target", .string target)]) k = if "target" = k then some (.string target)
        else if "condition" = k then some (Json.ofOption .string condition) else none := by
    intro k
    simp [BTree.insertAll, BTree.get_insert]
  rw [ConditionalBranch.toJson, Json.ofFields, fromJson, hget, hget]
  cases condition <;> rfl

theorem BranchDef.listFromJson_toJson (branches : List ConditionalBranch) :
    listFromJson (.array (branches.map ConditionalBranch.toJson)) =
      some (branches.map ConditionalBranch.toDef) := by
  rw [listFromJson]
  induction branches with
  | nil => rfl
  | cons b branches ih =>
    rw [List.map_cons, List.mapM_cons, fromJson_toJson, ih]
    rfl

namespace ConditionNodeExecutor

theorem foldl_considerBranch (branches : List ConditionalBranch)
    (found : Option String × Option String) :
    (branches.map ConditionalBranch.toDef).foldl (considerBranch parseLiteral state) found =
      (found.1.or ((branches.find? fun b =>
          b.condition.any fun expr => Condition.evalCondition parseLiteral expr state).map (·.target)),
        found.2.or ((branches.find? fun b => b.condition.isNone).map (·.target))) := by
  induction branches generalizing found with
  | nil => simp
  | cons b branches ih =>
    rw [List.map_cons, List.foldl_cons, ih]
    obtain ⟨chosen, fallback⟩ := found
    obtain ⟨condition, target⟩ := b
    cases condition with
    | none =>
      cases fallback <;> simp [considerBranch, ConditionalBranch.toDef]
    | some expr =>
      by_cases hexpr : Condition.evalCondition parseLiteral expr state = true
      · cases chosen <;> simp [considerBranch, ConditionalBranch.toDef, hexpr]
      · cases chosen <;> simp [considerBranch, ConditionalBranch.toDef, hexpr]

theorem resolve_eq (branches : List ConditionalBranch) :
    resolve parseLiteral state (branches.map ConditionalBranch.toDef) =
      expectedRoute (fun expr => Condition.evalCondition parseLiteral expr state) branches := by
  rw [resolve, foldl_considerBranch, expectedRoute, Option.map_or]
  simp

end ConditionNodeExecutor

theorem execute_dispatched {branches : List ConditionalBranch} (hroutes : branches ≠ [])
    (malformed : Json → String) (durationMs : ℕ) (ir : WorkflowIr) (nodeId : NodeId)
    (retryPolicy : Option String) (state : JsonMap) (workflowId workflowVersion : String) :
    ConditionNodeExecutor.execute parseLiteral malformed durationMs nodeId
      (buildWorkItemPayload ir nodeId ⟨.condition branches, retryPolicy⟩ state workflowId
        workflowVersion) =
    .ok
      { output := ConditionNodeExecutor.routing
          (expectedRoute (fun expr => Condition.evalCondition parseLiteral expr (.object state))
            branches) (branches.map (·.target))
        statePatch := .object []
        durationMs := durationMs } := by
  have hempty : branches.isEmpty = false := by simpa using hroutes
  have hpayload : buildWorkItemPayload ir nodeId ⟨.condition branches, retryPolicy⟩ state workflowId
      workflowVersion = Json.ofFields [("workflow_id", .string workflowId),
        ("workflow_version", .string workflowVersion), ("node_id", .string nodeId),
        ("branches", .array (branches.map ConditionalBranch.toJson)), ("state", .object state)] := by
    simp [buildWorkItemPayload, NodeKind.payloadFields, hempty]
  have hbranches : (buildWorkItemPayload ir nodeId ⟨.condition branches, retryPolicy⟩ state
      workflowId workflowVersion).get "branches" =
        some (.array (branches.map ConditionalBranch.toJson)) := by
    rw [hpayload]
    simp [Json.ofFields, Json.get, BTree.insertAll, BTree.get_insert]
  have hstate : (buildWorkItemPayload ir nodeId ⟨.condition branches, retryPolicy⟩ state
      workflowId workflowVersion).get "state" = some (.object state) := by
    rw [hpayload]
    simp [Json.ofFields, Json.get, BTree.insertAll, BTree.get_insert]
  have htargets : (branches.map ConditionalBranch.toDef).map (·.target) =
      branches.map (·.target) := by
    simp [ConditionalBranch.toDef]
  unfold ConditionNodeExecutor.execute
  rw [hbranches]
  simp only [BranchDef.listFromJson_toJson, hstate, Option.getD_some]
  cases branches with
  | nil => exact absurd rfl hroutes
  | cons b branches =>
    rw [← htargets, ← ConditionNodeExecutor.resolve_eq]
    rfl

end Reading

/-- The target a completion's output carries. -/
def routeOf (output : Json) : Option NodeId := (output.get "chosen_target").bind Json.asStr

theorem routeOf_routing (resolved : Option String) (targets : List String) :
    routeOf (ConditionNodeExecutor.routing resolved targets) = resolved := by
  have hget : (ConditionNodeExecutor.routing resolved targets).get "chosen_target" =
      some (Json.ofOption .string resolved) := by
    simp [ConditionNodeExecutor.routing, Json.ofFields, Json.get, BTree.insertAll, BTree.get_insert]
  rw [routeOf, hget]
  cases resolved <;> rfl

theorem routeOf_toSentinel (ref : ArtifactRef) : routeOf ref.toSentinel = none := by
  simp [routeOf, ArtifactRef.toSentinel, Json.ofFields, Json.get, BTree.insertAll, BTree.get_insert]

theorem routeOf_eventOutput [FloatText] (sha256Hex : String → String) (threshold : ℕ)
    (artifacts : Artifacts) (output : Json) :
    routeOf (Worker.eventOutput sha256Hex threshold artifacts output).1 =
      if (Hashing.canonicalJson output).utf8ByteSize ≤ threshold then routeOf output else none := by
  unfold Worker.eventOutput spillBytes
  by_cases hfits : (Hashing.canonicalJson output).utf8ByteSize ≤ threshold
  · simp [hfits, Nat.not_lt.mpr hfits]
  · simp [hfits, Nat.lt_of_not_le hfits, putArtifact, routeOf_toSentinel]

theorem Db.events_of_commitTurn {db : Db} {id : WorkItemId} {fence : ℤ} {e : ExecutionId}
    {kind : EventKind} {snapshot : Bool} {now : Instant} {sequence : EventSequence}
    (h : (db.commitTurn id fence e kind snapshot now).1 = .ok sequence) :
    (db.commitTurn id fence e kind snapshot now).2.events e = (db.events e).append kind := by
  cases hkind : Db.settleOf kind now with
  | none =>
    obtain ⟨err, herr⟩ : ∃ err, db.commitTurn id fence e kind snapshot now = (.error err, db) :=
      Db.commitTurn_refused snapshot (.inl hkind)
    rw [herr] at h
    cases h
  | some settle =>
    cases hhit : db.workItems.hits id (WorkItemRow.claimedUnder fence) with
    | false =>
      obtain ⟨err, herr⟩ : ∃ err, db.commitTurn id fence e kind snapshot now = (.error err, db) :=
        Db.commitTurn_refused snapshot (.inr hhit)
      rw [herr] at h
      cases h
    | true =>
      cases hx : db.executions.find? e with
      | none => simp [Db.commitTurn, Db.commitTurnInner, hkind, hhit, hx] at h
      | some x =>
        obtain ⟨_, db', hdb, -, -, -, hlog⟩ := Db.commitTurn_held hkind hhit hx snapshot
        rw [hdb]
        exact hlog

namespace ExecProgress

variable {p : ExecProgress} {ir : WorkflowIr} {node : NodeId} {route : Option NodeId}

/-- The route is recorded for the node, and the scheduler skips exactly the other branches. -/
structure Routed (p : ExecProgress) (ir : WorkflowIr) (node : NodeId) (route : Option NodeId) :
    Prop where
  recorded : p.routes.lookup node = route
  dead : ∀ dst, p.edgeDead ir node dst = true ↔ route ≠ some dst
  /-- A branch that is entered from this node only. -/
  skipped : ∀ dst, inEdges ir dst ≠ [] → (∀ edge ∈ inEdges ir dst, edge.src = node) →
    ¬ p.resolved dst → (p.skippable ir dst = true ↔ route ≠ some dst)

theorem routed_iff {branches : List ConditionalBranch} {retryPolicy : Option String}
    (hnode : ir.nodes.lookup node = some ⟨.condition branches, retryPolicy⟩)
    (hroutes : branches ≠ []) (hdone : node ∈ p.completed) :
    p.Routed ir node route ↔ p.routes.lookup node = route ∧ (node ∉ p.skipped ∨ route = none) := by
  have hdead : ∀ dst, p.edgeDead ir node dst = true ↔
      node ∈ p.skipped ∨ p.routes.lookup node ≠ some dst := by
    intro dst
    simp [edgeDead_iff, hnode, hroutes, hdone]
  constructor
  · intro h
    refine ⟨h.recorded, ?_⟩
    by_contra hnot
    push Not at hnot
    obtain ⟨hskip, hsome⟩ := hnot
    obtain ⟨dst, rfl⟩ := Option.ne_none_iff_exists'.mp hsome
    exact (h.dead dst).mp ((hdead dst).mpr (.inl hskip)) rfl
  · rintro ⟨hrecorded, hskip⟩
    have hexact : ∀ dst, p.edgeDead ir node dst = true ↔ route ≠ some dst := by
      intro dst
      rw [hdead, hrecorded]
      rcases hskip with hskip | rfl
      · simp [hskip]
      · simp
    refine ⟨hrecorded, hexact, fun dst hin honly hopen => ?_⟩
    rw [skippable_iff, ← hexact dst]
    constructor
    · rintro ⟨-, -, hall⟩
      obtain ⟨edge, hedge⟩ := List.exists_mem_of_ne_nil _ hin
      rw [← honly edge hedge]
      exact hall edge hedge
    · intro hd
      refine ⟨hopen, hin, fun edge hedge => ?_⟩
      rw [honly edge hedge]
      exact hd

theorem apply_completed [Chrono] (p : ExecProgress) (sequence : EventSequence) (node : NodeId)
    (result : NodeResult) :
    node ∈ (p.apply ⟨sequence, .nodeCompleted node result⟩).completed ∧
      (p.apply ⟨sequence, .nodeCompleted node result⟩).skipped = p.skipped ∧
      (p.apply ⟨sequence, .nodeCompleted node result⟩).routes.lookup node =
        (routeOf result.output).or (p.routes.lookup node) := by
  refine ⟨by simp [apply, applyKind], rfl, ?_⟩
  simp only [apply, applyKind, routeOf]
  cases (result.output.get "chosen_target").bind Json.asStr with
  | none => rfl
  | some target => simp

end ExecProgress

/-- After the worker has executed a routing condition node and committed it, the scheduler has the
expected route and skips the other branches exactly when the routing record stays in the event, or
the route of an earlier completion is still the right one. -/
theorem route_committed_iff [Chrono] [F64] [FloatText] (parseLiteral : String → Option Json)
    (malformed : Json → String) (durationMs : ℕ) (sha256Hex : String → String) (threshold : ℕ)
    (budget : BudgetState) (idempotencyKey : Option String) (now : Instant) {ir : WorkflowIr}
    {item : WorkItem} {branches : List ConditionalBranch} {retryPolicy : Option String}
    (hnode : ir.nodes.lookup item.nodeId = some ⟨.condition branches, retryPolicy⟩)
    (hroutes : branches ≠ []) {state : JsonMap} {workflowId workflowVersion : String}
    (hpayload : item.payload = buildWorkItemPayload ir item.nodeId
      ⟨.condition branches, retryPolicy⟩ state workflowId workflowVersion)
    {artifacts artifacts' : Artifacts} {db db' : Db} {sequence : EventSequence}
    (hcommit : Worker.commitExecution sha256Hex threshold budget idempotencyKey item
      (ConditionNodeExecutor.execute parseLiteral malformed durationMs item.nodeId item.payload) now
      artifacts db = (.ok sequence, artifacts', db')) :
    let expected :=
      expectedRoute (fun expr => Condition.evalCondition parseLiteral expr (.object state)) branches
    let record := ConditionNodeExecutor.routing expected (branches.map (·.target))
    let before := ExecProgress.applyAll {} (db.events item.executionId).entries
    (ExecProgress.applyAll {} (db'.events item.executionId).entries).Routed ir item.nodeId expected ↔
      (before.routes.lookup item.nodeId = expected ∨
        expected ≠ none ∧ (Hashing.canonicalJson record).utf8ByteSize ≤ threshold) ∧
      (item.nodeId ∉ before.skipped ∨ expected = none) := by
  intro expected record before
  rw [hpayload, execute_dispatched hroutes, Worker.commitExecution] at hcommit
  simp only at hcommit
  generalize houtput : Worker.eventOutput sha256Hex threshold artifacts _ = spilled at hcommit
  have hroute : routeOf spilled.1 =
      if (Hashing.canonicalJson record).utf8ByteSize ≤ threshold then expected else none := by
    rw [← houtput, routeOf_eventOutput, routeOf_routing]
  generalize hresult : NodeResult.mk _ _ _ _ _ _ _ _ _ _ = result at hcommit
  have hout : result.output = spilled.1 := by rw [← hresult]
  obtain ⟨hreply, -, rfl⟩ := by simpa using hcommit
  have hlog := Db.events_of_commitTurn hreply
  have hafter : ExecProgress.applyAll {} (((db.commitTurn item.id item.leaseFence item.executionId
      (.nodeCompleted item.nodeId result) true now).2).events item.executionId).entries =
      before.apply ⟨(db.events item.executionId).latest + 1, .nodeCompleted item.nodeId result⟩ := by
    rw [hlog, SeqLog.entries_append, ExecProgress.applyAll_append]
    rfl
  obtain ⟨hdone, hskipped, hlookup⟩ := before.apply_completed
    ((db.events item.executionId).latest + 1) item.nodeId result
  rw [hafter, ExecProgress.routed_iff hnode hroutes hdone, hskipped, hlookup, hout, hroute]
  refine and_congr ?_ Iff.rfl
  by_cases hfits : (Hashing.canonicalJson record).utf8ByteSize ≤ threshold
  · cases hexp : expected with
    | none => simp
    | some target => simp [hfits]
  · simp [hfits]

/-- A condition node with a default branch only. -/
def gate : NodeDef := ⟨.condition [⟨none, "b"⟩], none⟩

def gateIr : WorkflowIr :=
  ⟨(Finmap.singleton "gate" gate).insert "b" ⟨.tool, none⟩, [⟨"gate", "b"⟩], ∅⟩

def gateItem : WorkItem where
  id := 1
  executionId := 0
  nodeId := "gate"
  queueType := "general"
  payload := buildWorkItemPayload gateIr "gate" gate [] "wf" "1.0.0"
  attempt := 0
  maxAttempts := 3
  createdAt := 0
  leaseFence := 1

/-- A run of the node alone, claimed. -/
def gateClaimed : Db :=
  ({} : Db).runOps [⟨_, startRun gateIr "gate" gate 0 "wf" "1.0.0" (.object []) "default" 0⟩,
    ⟨_, .claimWorkItem "w" ["general"] none 0⟩]

/-- The node executed and committed under a threshold; every artifact has one hash. -/
def gateCommitted (threshold : ℕ) : Except BackendError EventSequence × Artifacts × Db :=
  @Worker.commitExecution bitsText costless (fun _ => "hash") threshold {} none gateItem
    (ConditionNodeExecutor.execute (fun _ => none) (fun _ => "") 5 gateItem.nodeId gateItem.payload) 1
    .empty gateClaimed

theorem gate_routed_under_default_threshold :
    (@ExecProgress.applyAll firstDay {} ((gateCommitted 8192).2.2.events 0).entries).Routed gateIr
      "gate" (some "b") := by
  have hcommit : gateCommitted 8192 = (.ok 3, .empty, (gateCommitted 8192).2.2) := rfl
  refine (@route_committed_iff firstDay costless bitsText (fun _ => none) (fun _ => "") 5
    (fun _ => "hash") 8192 {} none 1 gateIr gateItem _ none rfl (by decide) [] "wf" "1.0.0" rfl
    .empty .empty gateClaimed _ 3 hcommit).mpr ⟨.inr ⟨by decide, ?_⟩, .inl ?_⟩
  · decide +kernel
  · decide +kernel

theorem gate_not_routed_when_spilled :
    ∃ sequence artifacts db, gateCommitted 32 = (.ok sequence, artifacts, db) ∧
      expectedRoute (fun expr => Condition.evalCondition (fun _ => none) expr (.object []))
        [⟨none, "b"⟩] = some "b" ∧
      (@ExecProgress.applyAll firstDay {} (db.events 0).entries).routes.lookup "gate" = none ∧
      (@ExecProgress.applyAll firstDay {} (db.events 0).entries).skippable gateIr "b" = true :=
  ⟨_, _, _, rfl, rfl, rfl, rfl⟩

end JamJet
