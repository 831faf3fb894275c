import JamJet.CallTraces
import JamJet.Fallible
import JamJet.PyDumps

/-! Python callables behind a gate: the policy decider, the approval channel, the callable and the
receipt emitter are called in turn, each of them may raise, and a receipt is emitted for what was
done. -/

namespace JamJet.ActionGate

open AtomicCalls
open PyDumps (PyStr)

/-! ### Values and signatures -/

/-- An object that is none of the types told apart. -/
abbrev ObjectId := ℕ

inductive Key
  | str (s : PyStr)
  | other (o : ObjectId)
  deriving DecidableEq

inductive Value
  | none
  | bool (b : Bool)
  | int (n : ℤ)
  | float (bits : BitVec 64)
  | str (s : PyStr)
  | list (items : List Value)
  | tuple (items : List Value)
  | dict (members : List (Key × Value))
  | other (o : ObjectId)

inductive ParameterKind
  | positionalOnly
  | positionalOrKeyword
  | varPositional
  | keywordOnly
  | varKeyword
  deriving DecidableEq

structure Parameter where
  name : PyStr
  kind : ParameterKind
  default : Option Value

structure Signature where
  parameters : List Parameter
  nodup : (parameters.map (·.name)).Nodup

/-- The arguments at a call site. -/
structure Call where
  args : List Value
  kwargs : List (PyStr × Value)

/-! ### Policies, approvals, receipts -/

inductive PolicyDecision
  | allow
  | requireApproval
  | deny
  | escalate
  deriving DecidableEq

def PolicyDecision.text : PolicyDecision → String
  | allow => "allow"
  | requireApproval => "require-approval"
  | deny => "deny"
  | escalate => "escalate"

structure PolicyOutcome where
  decision : PolicyDecision
  name : String := "jamjet.gate.default"
  version : String := "1"
  reason : String := ""

structure ApprovalDecision where
  approved : Bool
  approverId : String
  approverDisplayName : Option String := none
  approverRole : Option String := none
  context : Option String := none

structure ApprovalRequest where
  actionId : String
  arguments : List (PyStr × Value)
  argumentsHash : String
  reason : String

structure AgentMeta where
  framework : String := "jamjet"
  frameworkVersion : String := "0.8.6"
  model : String := "unknown"

structure ApprovalBlock where
  approverId : String
  displayName : Option String
  role : Option String
  approvedAt : String
  context : Option String

/-- A receipt without its own hash. -/
structure ReceiptBody where
  receiptId : String
  issuedAt : String
  actorType : String
  actorId : String
  actorDisplayName : Option String
  agent : AgentMeta
  toolName : String
  capability : String
  targetSystem : String
  targetEnvironment : String
  argumentsHash : String
  policyName : String
  policyVersion : String
  decision : String
  status : String
  resultRef : Option PyStr
  approval : Option ApprovalBlock

structure Receipt extends ReceiptBody where
  receiptHash : String

inductive Raised
  | typeError (msg : String)
  | policyDenied (msg : String) (receipt : Receipt)
  | other (text : String)

/-- `str` and `repr`, and the hashes of the receipt library. -/
structure Python where
  str : Value → Except Raised PyStr
  repr : Value → Except Raised PyStr
  computeArgumentsHash : List (PyStr × Value) → Except Raised String
  computeReceiptHash : ReceiptBody → Except Raised String

/-- The configuration of a gate, and the time and the identifier of a receipt of it. -/
structure GateConfig where
  actionId : String
  actorId : String
  actorType : String := "agent"
  actorDisplayName : Option String := none
  targetSystem : String := "local"
  targetEnvironment : String := "prod"
  agentMeta : AgentMeta := {}
  issuedAt : String
  receiptId : String

/-! ### Arguments -/

namespace Signature

/-- The parameters in order, each with what it is bound to. -/
def bindParameters : List Parameter → List Value → List (PyStr × Value) →
    Except Raised (List (Parameter × Option Value))
  | [], [], [] => .ok []
  | [], [], _ :: _ => .error (.typeError "got an unexpected keyword argument")
  | [], _ :: _, _ => .error (.typeError "too many positional arguments")
  | p :: params, args, kwargs =>
      match p.kind, args with
      | .positionalOnly, [] => do
          return (p, none) :: (← bindParameters params [] kwargs)
      | .positionalOnly, a :: args => do
          return (p, some a) :: (← bindParameters params args kwargs)
      | .positionalOrKeyword, [] | .keywordOnly, [] => do
          return (p, kwargs.lookup p.name) ::
            (← bindParameters params [] (kwargs.filter fun kv => kv.1 ≠ p.name))
      | .positionalOrKeyword, a :: args =>
          if (kwargs.lookup p.name).isSome then
            .error (.typeError "multiple values for argument")
          else do return (p, some a) :: (← bindParameters params args kwargs)
      | .varPositional, [] => do
          return (p, none) :: (← bindParameters params [] kwargs)
      | .varPositional, args => do
          return (p, some (.tuple args)) :: (← bindParameters params [] kwargs)
      | .varKeyword, [] => do
          return (p, if kwargs.isEmpty then none
            else some (.dict (kwargs.map fun (name, v) => (.str name, v)))) ::
              (← bindParameters params [] [])
      | _, _ :: _ => .error (.typeError "too many positional arguments")

def bindPartial (sig : Signature) (call : Call) : Except Raised (List (Parameter × Option Value)) :=
  bindParameters sig.parameters call.args call.kwargs

/-- What a parameter is without an argument. -/
def fallback (p : Parameter) : Option Value :=
  match p.default, p.kind with
  | some v, _ => some v
  | none, .varPositional => some (.tuple [])
  | none, .varKeyword => some (.dict [])
  | none, _ => none

/-- `apply_defaults`; a required parameter may be left out. -/
def arguments (bound : List (Parameter × Option Value)) : List (Parameter × Value) :=
  bound.filterMap fun (p, v) => (v.or (fallback p)).map fun v => (p, v)

/-- The call itself leaves out no required parameter. -/
def missing (bound : List (Parameter × Option Value)) : Option Parameter :=
  (bound.find? fun (p, v) => (v.or (fallback p)).isNone).map (·.1)

end Signature

/-- A member of a dict: a new value for an old key, or a new key at the end. -/
def setMember (members : List (Key × Value)) (k : Key) (v : Value) : List (Key × Value) :=
  if members.any (·.1 = k) then members.map fun kv => if kv.1 = k then (k, v) else kv
  else members ++ [(k, v)]

section Arguments

variable (py : Python)

def Key.toStr : Key → Except Raised PyStr
  | .str s => .ok s
  | .other o => py.str (.other o)

mutual

/-- Opaque objects become their `repr`, tuples become lists, keys become strings. -/
def jsonSafe : Value → Except Raised Value
  | .list items => (jsonSafeItems items).map .list
  | .tuple items => (jsonSafeItems items).map .list
  | .dict members => (jsonSafeMembers members []).map .dict
  | .other o => (py.repr (.other o)).map .str
  | v => .ok v

def jsonSafeItems : List Value → Except Raised (List Value)
  | [] => .ok []
  | v :: items => do
      let safe ← jsonSafe v
      return safe :: (← jsonSafeItems items)

def jsonSafeMembers : List (Key × Value) → List (Key × Value) →
    Except Raised (List (Key × Value))
  | [], out => .ok out
  | (k, v) :: members, out => do
      let name ← k.toStr py
      let safe ← jsonSafe v
      jsonSafeMembers members (setMember out (.str name) safe)

end

def bindArgs (sig : Signature) (call : Call) : Except Raised (List (PyStr × Value)) := do
  let bound ← sig.bindPartial call
  (Signature.arguments bound).mapM fun (p, v) => do return (p.name, ← jsonSafe py v)

end Arguments

/-! ### The gate -/

/-- `require-approval` and `escalate` go to the approval channel. -/
def PolicyDecision.asks : PolicyDecision → Bool
  | requireApproval | escalate => true
  | allow | deny => false

def isBlocked (outcome : PolicyOutcome) (approval : Option ApprovalDecision) : Bool :=
  if outcome.decision = .deny then true
  else if outcome.decision.asks then approval.any fun a => !a.approved
  else false

def blockMessage (outcome : PolicyOutcome) (approval : Option ApprovalDecision) : String :=
  if outcome.decision = .deny then
    "policy denied: " ++ if outcome.reason = "" then outcome.name else outcome.reason
  else
    match approval with
    | some a => "approval declined by " ++ a.approverId
    | none => "blocked: " ++ outcome.decision.text

def resultRef (py : Python) : Value → Except Raised PyStr
  | .none => .ok []
  | .str s => .ok s
  | .int n => py.str (.int n)
  | .float bits => py.str (.float bits)
  | .bool b => py.str (.bool b)
  | v => py.repr v

/-- A text that is there and not empty. -/
def given (s : Option String) : Option String := s.filter (· ≠ "")

def ApprovalDecision.block (a : ApprovalDecision) (issuedAt : String) : ApprovalBlock where
  approverId := a.approverId
  displayName := given a.approverDisplayName
  role := given a.approverRole
  approvedAt := issuedAt
  context := given a.context

/-- The text before the first `.`. -/
def toolName (actionId : String) : String :=
  let name := String.ofList (actionId.toList.takeWhile (· ≠ '.'))
  if name = "" then "jamjet.gate" else name

def buildReceipt (py : Python) (config : GateConfig) (outcome : PolicyOutcome)
    (approval : Option ApprovalDecision) (execution : String) (ref : Option PyStr)
    (argsHash : String) : Except Raised Receipt := do
  let body : ReceiptBody :=
    { receiptId := config.receiptId
      issuedAt := config.issuedAt
      actorType := config.actorType
      actorId := config.actorId
      actorDisplayName := given config.actorDisplayName
      agent := config.agentMeta
      toolName := toolName config.actionId
      capability := config.actionId
      targetSystem := config.targetSystem
      targetEnvironment := config.targetEnvironment
      argumentsHash := argsHash
      policyName := outcome.name
      policyVersion := outcome.version
      decision := outcome.decision.text
      status := execution
      resultRef := if execution = "success" then ref.filter (· ≠ []) else none
      approval := approval.map (·.block config.issuedAt) }
  return { body with receiptHash := ← py.computeReceiptHash body }

/-- What a gate calls: with a coroutine function the approval channel runs in a thread, and the
callable is awaited. -/
inductive GateOp : Type → Type
  | decide (arguments : List (PyStr × Value)) : GateOp PolicyOutcome
  | requestApproval (request : ApprovalRequest) : GateOp ApprovalDecision
  | toThread (request : ApprovalRequest) : GateOp ApprovalDecision
  | func (call : Call) : GateOp Value
  | awaitFunc (call : Call) : GateOp Value
  | emit (receipt : Receipt) : GateOp Unit

abbrev Gated := Prog GateOp Raised

def Gated.lift {α : Type} (r : Except Raised α) : Gated α := .done r

section Wrapper

variable (py : Python) (config : GateConfig) (sig : Signature)
  (approve : ApprovalRequest → GateOp ApprovalDecision) (start : Call → GateOp Value)

def consult (bound : List (PyStr × Value)) (argsHash : String) :
    Gated (PolicyOutcome × Option ApprovalDecision) := do
  let outcome ← Prog.perform (.decide bound)
  if outcome.decision.asks then
    let approval ← Prog.perform (approve
      { actionId := config.actionId, arguments := bound, argumentsHash := argsHash,
        reason := outcome.reason })
    return (outcome, some approval)
  else return (outcome, none)

def refuse (argsHash : String) (outcome : PolicyOutcome) (approval : Option ApprovalDecision) :
    Gated Value := do
  let receipt ← Gated.lift (buildReceipt py config outcome approval "blocked" none argsHash)
  Prog.perform (.emit receipt)
  Gated.lift (.error (.policyDenied (blockMessage outcome approval) receipt))

/-- Python matches the arguments once more before the callable starts. -/
def enter (call : Call) : Except Raised Unit := do
  match Signature.missing (← sig.bindPartial call) with
  | some _ => .error (.typeError "missing a required argument")
  | none => .ok ()

def proceed (call : Call) (argsHash : String) (outcome : PolicyOutcome)
    (approval : Option ApprovalDecision) : Gated Value := do
  let _ ← Gated.lift (enter sig call)
  let result ← Prog.perform (start call)
  let ref ← Gated.lift (resultRef py result)
  let receipt ← Gated.lift (buildReceipt py config outcome approval "success" (some ref) argsHash)
  Prog.perform (.emit receipt)
  return result

def wrapped (call : Call) : Gated Value := do
  let bound ← Gated.lift (bindArgs py sig call)
  let argsHash ← Gated.lift (py.computeArgumentsHash bound)
  let (outcome, approval) ← consult config approve bound argsHash
  if isBlocked outcome approval then refuse py config argsHash outcome approval
  else proceed py config sig start call argsHash outcome approval

def syncWrapper : Call → Gated Value := wrapped py config sig .requestApproval .func

def asyncWrapper : Call → Gated Value := wrapped py config sig .toThread .awaitFunc

/-- The wrapper a callable gets. -/
def wrap (isCoroutineFunction : Bool) : Call → Gated Value :=
  if isCoroutineFunction then asyncWrapper py config sig else syncWrapper py config sig

end Wrapper

/-! ### Canonical forms -/

/-- Values built from `None`, booleans, integers, strings, lists and dicts with strings for keys. -/
inductive Value.Plain : Value → Prop
  | none : Plain .none
  | bool (b : Bool) : Plain (.bool b)
  | int (n : ℤ) : Plain (.int n)
  | str (s : PyStr) : Plain (.str s)
  | list {items : List Value} (h : ∀ v ∈ items, Plain v) : Plain (.list items)
  | dict {members : List (PyStr × Value)} (hkeys : (members.map (·.1)).Nodup)
      (h : ∀ kv ∈ members, Plain kv.2) :
      Plain (.dict (members.map fun kv => (.str kv.1, kv.2)))

/-- The values of an argument: those of `*args` come in a tuple. -/
def Parameter.Admits (p : Parameter) (v : Value) : Prop :=
  if p.kind = .varPositional then ∃ items, v = .tuple items ∧ ∀ item ∈ items, item.Plain
  else v.Plain

section Canonical

variable {py : Python}

theorem jsonSafeItems_eq {items : List Value} (h : ∀ v ∈ items, jsonSafe py v = .ok v) :
    jsonSafeItems py items = .ok items := by
  induction items with
  | nil => rfl
  | cons v items ih =>
    have hv := h v List.mem_cons_self
    have hitems := ih fun w hw => h w (List.mem_cons_of_mem _ hw)
    simp only [jsonSafeItems, hv, hitems, bind, Except.bind, pure, Except.pure]

theorem setMember_of_not_mem {members : List (Key × Value)} {k : Key} {v : Value}
    (h : k ∉ members.map (·.1)) : setMember members k v = members ++ [(k, v)] := by
  have hany : members.any (·.1 = k) = false := by
    rw [List.any_eq_false]
    intro kv hkv heq
    exact h (of_decide_eq_true heq ▸ List.mem_map_of_mem hkv)
  simp [setMember, hany]

theorem jsonSafeMembers_eq {members : List (PyStr × Value)} {out : List (Key × Value)}
    (hkeys : (members.map (·.1)).Nodup) (hnew : ∀ kv ∈ members, .str kv.1 ∉ out.map (·.1))
    (h : ∀ kv ∈ members, jsonSafe py kv.2 = .ok kv.2) :
    jsonSafeMembers py (members.map fun kv => (.str kv.1, kv.2)) out =
      .ok (out ++ members.map fun kv => (.str kv.1, kv.2)) := by
  induction members generalizing out with
  | nil => simp [jsonSafeMembers]
  | cons kv members ih =>
    obtain ⟨hfresh, hkeys⟩ := List.nodup_cons.mp hkeys
    have hv := h kv List.mem_cons_self
    have hset := setMember_of_not_mem (v := kv.2) (hnew kv List.mem_cons_self)
    have hnext : ∀ kv' ∈ members, Key.str kv'.1 ∉
        (out ++ [(Key.str kv.1, kv.2)]).map (·.1) := by
      intro kv' hkv' hmem
      rw [List.map_append, List.mem_append] at hmem
      rcases hmem with hmem | hmem
      · exact hnew kv' (List.mem_cons_of_mem _ hkv') hmem
      · have hsame : kv'.1 = kv.1 := by simpa using hmem
        exact hfresh (List.mem_map.mpr ⟨kv', hkv', hsame⟩)
    have hrest := ih hkeys hnext fun kv' hkv' => h kv' (List.mem_cons_of_mem _ hkv')
    simp only [List.map_cons, jsonSafeMembers, Key.toStr, hv, bind, Except.bind, hset, hrest,
      List.append_assoc, List.singleton_append]

theorem jsonSafe_plain {v : Value} (h : v.Plain) : jsonSafe py v = .ok v := by
  induction h with
  | none => rfl
  | bool b => rfl
  | int n => rfl
  | str s => rfl
  | list _ ih =>
    rw [jsonSafe, jsonSafeItems_eq ih]
    rfl
  | dict hkeys _ ih =>
    rw [jsonSafe, jsonSafeMembers_eq hkeys (by simp) ih]
    rfl

/-- The form of an argument that a parameter admits. -/
def Value.form : Value → Value
  | .tuple items => .list items
  | v => v

theorem form_of_plain {v : Value} (h : v.Plain) : v.form = v := by cases h <;> rfl

theorem jsonSafe_admitted {p : Parameter} {v : Value} (h : p.Admits v) :
    jsonSafe py v = .ok v.form := by
  unfold Parameter.Admits at h
  split at h
  · obtain ⟨items, rfl, hitems⟩ := h
    rw [jsonSafe, jsonSafeItems_eq fun item hitem => jsonSafe_plain (hitems item hitem)]
    rfl
  · rw [jsonSafe_plain h, form_of_plain h]

theorem form_inj {p : Parameter} {v w : Value} (hv : p.Admits v) (hw : p.Admits w)
    (h : v.form = w.form) : v = w := by
  unfold Parameter.Admits at hv hw
  by_cases hkind : p.kind = .varPositional
  · rw [if_pos hkind] at hv hw
    obtain ⟨items, rfl, -⟩ := hv
    obtain ⟨items', rfl, -⟩ := hw
    cases h
    rfl
  · rw [if_neg hkind] at hv hw
    rw [form_of_plain hv, form_of_plain hw] at h
    exact h

theorem map_fst_cons {params : List Parameter} {p : Parameter} {v : Option Value}
    {x : Except Raised (List (Parameter × Option Value))} {bound : List (Parameter × Option Value)}
    (h : (do return (p, v) :: (← x)) = Except.ok bound)
    (hx : ∀ rest, x = .ok rest → rest.map (·.1) = params) : bound.map (·.1) = p :: params := by
  obtain ⟨rest, hrest, hpure⟩ := Fallible.bind_eq_ok.mp h
  cases hpure
  rw [List.map_cons, hx rest hrest]

theorem map_fst_bindParameters {params : List Parameter} {args : List Value}
    {kwargs : List (PyStr × Value)} {bound : List (Parameter × Option Value)}
    (h : Signature.bindParameters params args kwargs = .ok bound) : bound.map (·.1) = params := by
  induction params generalizing args kwargs bound with
  | nil =>
    cases args with
    | nil =>
      cases kwargs with
      | nil =>
        cases h
        rfl
      | cons kv kwargs => cases h
    | cons a args => cases h
  | cons p params ih =>
    simp only [Signature.bindParameters] at h
    split at h
    case h_5 =>
      split at h
      · cases h
      · exact map_fst_cons h fun rest hrest => ih hrest
    case h_9 => cases h
    all_goals exact map_fst_cons h fun rest hrest => ih hrest

/-- The arguments of a call, defaults included. -/
def argumentsOf (sig : Signature) (call : Call) : Except Raised (List (Parameter × Value)) :=
  (sig.bindPartial call).map Signature.arguments

theorem mem_of_argumentsOf {sig : Signature} {call : Call} {arguments : List (Parameter × Value)}
    (h : argumentsOf sig call = .ok arguments) {a : Parameter × Value} (ha : a ∈ arguments) :
    a.1 ∈ sig.parameters := by
  obtain ⟨bound, hbound, rfl⟩ := Fallible.map_eq_ok.mp h
  obtain ⟨b, hb, hmap⟩ := List.mem_filterMap.mp ha
  obtain ⟨v, -, rfl⟩ := Option.map_eq_some_iff.mp hmap
  rw [← map_fst_bindParameters hbound]
  exact List.mem_map_of_mem hb

theorem bindArgs_admitted {sig : Signature} {call : Call} {arguments : List (Parameter × Value)}
    (h : argumentsOf sig call = .ok arguments) (hadmits : ∀ a ∈ arguments, a.1.Admits a.2) :
    bindArgs py sig call = .ok (arguments.map fun a => (a.1.name, a.2.form)) := by
  obtain ⟨bound, hbound, rfl⟩ := Fallible.map_eq_ok.mp h
  unfold bindArgs
  rw [hbound]
  refine Fallible.mapM_of_forall₂ (List.forall₂_map_right_iff.mpr (List.forall₂_same.mpr ?_))
  intro a ha
  show (do return (a.1.name, ← jsonSafe py a.2)) = _
  rw [jsonSafe_admitted (hadmits a ha)]
  rfl

omit py in
theorem eq_of_map_eq {α β : Type} {f : α → β} {xs ys : List α}
    (hinj : ∀ x ∈ xs, ∀ y ∈ ys, f x = f y → x = y) (h : xs.map f = ys.map f) : xs = ys := by
  induction xs generalizing ys with
  | nil => exact (List.map_eq_nil_iff.mp h.symm).symm
  | cons x xs ih =>
    cases ys with
    | nil => cases h
    | cons y ys =>
      obtain ⟨hhead, htail⟩ := List.cons.inj h
      rw [hinj x List.mem_cons_self y List.mem_cons_self hhead,
        ih (fun x hx y hy => hinj x (List.mem_cons_of_mem _ hx) y (List.mem_cons_of_mem _ hy)) htail]

theorem arguments_of_bindArgs {sig : Signature} {call call' : Call}
    {arguments arguments' : List (Parameter × Value)} (h : argumentsOf sig call = .ok arguments)
    (h' : argumentsOf sig call' = .ok arguments') (hadmits : ∀ a ∈ arguments, a.1.Admits a.2)
    (hadmits' : ∀ a ∈ arguments', a.1.Admits a.2)
    (hsame : bindArgs py sig call = bindArgs py sig call') : arguments = arguments' := by
  rw [bindArgs_admitted h hadmits, bindArgs_admitted h' hadmits'] at hsame
  refine eq_of_map_eq ?_ (Except.ok.inj hsame)
  rintro ⟨p, v⟩ hv ⟨p', w⟩ hw heq
  obtain ⟨hname, hform⟩ := Prod.mk.inj heq
  obtain rfl : p = p' :=
    List.inj_on_of_nodup_map sig.nodup (mem_of_argumentsOf h hv) (mem_of_argumentsOf h' hw) hname
  exact Prod.ext rfl (form_inj (hadmits (p, v) hv) (hadmits' (p, w) hw) hform)

end Canonical

/-! ### What a call of it adds up to -/

/-- The call the callable is started with. -/
def GateOp.started {α : Type} : GateOp α → Option Call
  | .func call => some call
  | .awaitFunc call => some call
  | _ => none

def GateOp.emitted {α : Type} : GateOp α → Option Receipt
  | .emit receipt => some receipt
  | _ => none

abbrev Answer := Answered GateOp Raised

namespace Answer

def decision : Answer → Option PolicyOutcome
  | ⟨.decide _, .ok outcome⟩ => some outcome
  | _ => none

def approval : Answer → Option ApprovalDecision
  | ⟨.requestApproval _, .ok a⟩ => some a
  | ⟨.toThread _, .ok a⟩ => some a
  | _ => none

/-- How the callable ended. -/
def ended : Answer → Option (Except Raised Value)
  | ⟨.func _, reply⟩ => some reply
  | ⟨.awaitFunc _, reply⟩ => some reply
  | _ => none

/-- The policy allows the call, or it is approved. -/
def authorises (c : Answer) : Bool :=
  (decision c).any (·.decision = .allow) || (approval c).any (·.approved)

end Answer

def starts (calls : List Answer) : List Call := calls.filterMap fun c => c.op.started

def receipts (calls : List Answer) : List Receipt := calls.filterMap fun c => c.op.emitted

/-- The hash of the arguments of a call. -/
def hashOf (py : Python) (sig : Signature) (call : Call) : Except Raised String := do
  py.computeArgumentsHash (← bindArgs py sig call)

/-- The receipt of a callable that has ended. -/
def successReceipt (py : Python) (config : GateConfig) (argsHash : String) (outcome : PolicyOutcome)
    (approval : Option ApprovalDecision) (ending : Except Raised Value) : Except Raised Receipt := do
  let ref ← resultRef py (← ending)
  buildReceipt py config outcome approval "success" (some ref) argsHash

/-- Neither the callable nor the emitter is called. -/
def Quiet (calls : List Answer) : Prop :=
  ∀ c ∈ calls, c.op.started = none ∧ c.op.emitted = none

/-- The two calls the wrappers differ in. -/
structure Wires (approve : ApprovalRequest → GateOp ApprovalDecision)
    (start : Call → GateOp Value) : Prop where
  approve_started : ∀ request, (approve request).started = none
  approve_emitted : ∀ request, (approve request).emitted = none
  approve_decision : ∀ request reply, Answer.decision ⟨approve request, reply⟩ = none
  approve_approval : ∀ request a, Answer.approval ⟨approve request, .ok a⟩ = some a
  start_started : ∀ call, (start call).started = some call
  start_emitted : ∀ call, (start call).emitted = none
  start_decision : ∀ call reply, Answer.decision ⟨start call, reply⟩ = none
  start_approval : ∀ call reply, Answer.approval ⟨start call, reply⟩ = none
  start_ended : ∀ call reply, Answer.ended ⟨start call, reply⟩ = some reply

theorem wires_sync : Wires .requestApproval .func :=
  ⟨fun _ => rfl, fun _ => rfl, fun _ _ => rfl, fun _ _ => rfl, fun _ => rfl, fun _ => rfl,
    fun _ _ => rfl, fun _ _ => rfl, fun _ _ => rfl⟩

theorem wires_async : Wires .toThread .awaitFunc :=
  ⟨fun _ => rfl, fun _ => rfl, fun _ _ => rfl, fun _ _ => rfl, fun _ => rfl, fun _ => rfl,
    fun _ _ => rfl, fun _ _ => rfl, fun _ _ => rfl⟩

theorem ran_lift_bind {α β : Type} {x : Except Raised α} {f : α → Gated β} {calls : List Answer}
    {r : Except Raised β} : (Gated.lift x >>= f).Ran calls r ↔
      (∃ e, x = .error e ∧ calls = [] ∧ r = .error e) ∨ ∃ a, x = .ok a ∧ (f a).Ran calls r := by
  cases x with
  | error e =>
    constructor
    · rintro ⟨rfl, rfl⟩
      exact .inl ⟨e, rfl, rfl, rfl⟩
    · rintro (⟨e', he, rfl, rfl⟩ | ⟨a, ha, -⟩)
      · cases he
        exact ⟨rfl, rfl⟩
      · cases ha
  | ok a =>
    constructor
    · intro h
      exact .inr ⟨a, rfl, h⟩
    · rintro (⟨e, he, -⟩ | ⟨a', ha, h⟩)
      · cases he
      · cases ha
        exact h

theorem ran_perform_bind {α β : Type} {op : GateOp α} {f : α → Gated β} {calls : List Answer}
    {r : Except Raised β} : (Prog.perform op >>= f).Ran calls r ↔
      (∃ e, calls = [⟨op, .error e⟩] ∧ r = .error e) ∨
        ∃ a rest, calls = ⟨op, .ok a⟩ :: rest ∧ (f a).Ran rest r := by
  rw [Prog.ran_bind]
  constructor
  · rintro (⟨e, hop, rfl⟩ | ⟨a, first, rest, rfl, hop, h⟩)
    · exact .inl ⟨e, Prog.ran_perform.mp hop, rfl⟩
    · rw [Prog.ran_perform.mp hop]
      exact .inr ⟨a, rest, rfl, h⟩
  · rintro (⟨e, rfl, rfl⟩ | ⟨a, rest, rfl, h⟩)
    · exact .inl ⟨e, Prog.ran_perform.mpr rfl, rfl⟩
    · exact .inr ⟨a, [_], rest, rfl, Prog.ran_perform.mpr rfl, h⟩

section Traces

variable {py : Python} {config : GateConfig} {sig : Signature}
  {approve : ApprovalRequest → GateOp ApprovalDecision} {start : Call → GateOp Value}
  {bound : List (PyStr × Value)} {argsHash : String} {outcome : PolicyOutcome}
  {approval : Option ApprovalDecision} {call : Call} {calls : List Answer}

/-- Nothing is started or emitted while the policy and the approver are asked, and what is not
blocked has been authorised. -/
theorem ran_consult (wires : Wires approve start)
    {r : Except Raised (PolicyOutcome × Option ApprovalDecision)}
    (h : (consult config approve bound argsHash).Ran calls r) :
    Quiet calls ∧ ∀ outcome approval, r = .ok (outcome, approval) →
      calls.findSome? Answer.decision = some outcome ∧
      calls.findSome? Answer.approval = approval ∧
      (isBlocked outcome approval = false → ∃ c ∈ calls, Answer.authorises c = true) := by
  have hdecide : ∀ reply : Except Raised PolicyOutcome, Quiet [⟨.decide bound, reply⟩] := by
    intro reply c hc
    rw [List.mem_singleton.mp hc]
    exact ⟨rfl, rfl⟩
  rcases ran_perform_bind.mp h with ⟨e, rfl, rfl⟩ | ⟨decided, rest, rfl, hrest⟩
  · refine ⟨hdecide _, ?_⟩
    rintro outcome approval heq
    cases heq
  cases hasks : decided.decision.asks with
  | false =>
    simp only [hasks, Bool.false_eq_true, if_false] at hrest
    obtain ⟨rfl, rfl⟩ := Prog.ran_pure.mp hrest
    refine ⟨hdecide _, ?_⟩
    rintro outcome approval heq
    cases heq
    refine ⟨rfl, rfl, fun hblocked => ⟨_, List.mem_cons_self, ?_⟩⟩
    have hallow : decided.decision = .allow := by
      cases hdecision : decided.decision
      all_goals simp_all [isBlocked, PolicyDecision.asks]
    simp [Answer.authorises, Answer.decision, hallow]
  | true =>
    simp only [hasks, if_true] at hrest
    have hboth : ∀ request reply, Quiet [⟨.decide bound, .ok decided⟩, ⟨approve request, reply⟩] := by
      intro request reply c hc
      rcases List.mem_cons.mp hc with rfl | hc
      · exact ⟨rfl, rfl⟩
      · rw [List.mem_singleton.mp hc]
        exact ⟨wires.approve_started request, wires.approve_emitted request⟩
    rcases ran_perform_bind.mp hrest with ⟨e, rfl, rfl⟩ | ⟨a, rest, rfl, hpure⟩
    · refine ⟨hboth _ _, ?_⟩
      rintro outcome approval heq
      cases heq
    · obtain ⟨rfl, rfl⟩ := Prog.ran_pure.mp hpure
      refine ⟨hboth _ _, ?_⟩
      rintro outcome approval heq
      cases heq
      refine ⟨rfl, ?_, fun hblocked => ⟨_, List.mem_cons_of_mem _ List.mem_cons_self, ?_⟩⟩
      · have hdecided : Answer.approval ⟨.decide bound, .ok decided⟩ = none := rfl
        simp [List.findSome?, hdecided, wires.approve_approval]
      · have happroved : a.approved = true := by
          cases hdecision : decided.decision
          all_goals simp_all [isBlocked, PolicyDecision.asks]
        simp [Answer.authorises, wires.approve_approval, happroved]

theorem ran_refuse {r : Except Raised Value}
    (h : (refuse py config argsHash outcome approval).Ran calls r) :
    ∀ c ∈ calls, c.op.started = none := by
  rcases ran_lift_bind.mp h with ⟨e, -, rfl, -⟩ | ⟨receipt, -, hemit⟩
  · simp
  · rcases ran_perform_bind.mp hemit with ⟨e, rfl, -⟩ | ⟨_, rest, rfl, rfl, -⟩
    all_goals
      intro c hc
      rw [List.mem_singleton.mp hc]
      rfl

theorem ran_proceed {r : Except Raised Value}
    (h : (proceed py config sig start call argsHash outcome approval).Ran calls r) :
    calls = [] ∨ ∃ ending rest, calls = ⟨start call, ending⟩ :: rest ∧
      ((∃ e, successReceipt py config argsHash outcome approval ending = .error e ∧ rest = []) ∨
        ∃ receipt reply, successReceipt py config argsHash outcome approval ending = .ok receipt ∧
          rest = [⟨.emit receipt, reply⟩]) := by
  rcases ran_lift_bind.mp h with ⟨e, -, rfl, -⟩ | ⟨_, -, hstart⟩
  · exact .inl rfl
  rcases ran_perform_bind.mp hstart with ⟨e, rfl, rfl⟩ | ⟨result, rest, rfl, href⟩
  · exact .inr ⟨.error e, [], rfl, .inl ⟨e, rfl, rfl⟩⟩
  refine .inr ⟨.ok result, rest, rfl, ?_⟩
  rcases ran_lift_bind.mp href with ⟨e, he, rfl, -⟩ | ⟨ref, hok, hreceipt⟩
  · exact .inl ⟨e, by simp only [successReceipt, bind, Except.bind, he], rfl⟩
  have hsame : successReceipt py config argsHash outcome approval (.ok result) =
      buildReceipt py config outcome approval "success" (some ref) argsHash := by
    simp only [successReceipt, bind, Except.bind, hok]
  rw [hsame]
  rcases ran_lift_bind.mp hreceipt with ⟨e, he, rfl, -⟩ | ⟨receipt, hbuilt, hemit⟩
  · exact .inl ⟨e, he, rfl⟩
  · rcases ran_perform_bind.mp hemit with ⟨e, rfl, -⟩ | ⟨_, rest, rfl, rfl, -⟩
    · exact .inr ⟨receipt, _, hbuilt, rfl⟩
    · exact .inr ⟨receipt, _, hbuilt, rfl⟩

/-- Nothing is started, or the one start was authorised before, and its receipt follows if there
can be one. -/
theorem ran_wrapped (wires : Wires approve start) {r : Except Raised Value}
    (h : (wrapped py config sig approve start call).Ran calls r) :
    (∀ c ∈ calls, c.op.started = none) ∨
      ∃ first ending rest argsHash outcome, calls = first ++ ⟨start call, ending⟩ :: rest ∧
        Quiet first ∧ (∃ c ∈ first, Answer.authorises c = true) ∧
        hashOf py sig call = .ok argsHash ∧ first.findSome? Answer.decision = some outcome ∧
        ((∃ e, successReceipt py config argsHash outcome (first.findSome? Answer.approval) ending =
            .error e ∧ rest = []) ∨
          ∃ receipt reply, successReceipt py config argsHash outcome
            (first.findSome? Answer.approval) ending = .ok receipt ∧
            rest = [⟨.emit receipt, reply⟩]) := by
  rcases ran_lift_bind.mp h with ⟨e, -, rfl, -⟩ | ⟨bound, hbound, hhash⟩
  · exact .inl (by simp)
  rcases ran_lift_bind.mp hhash with ⟨e, -, rfl, -⟩ | ⟨argsHash, hargs, hconsult⟩
  · exact .inl (by simp)
  rcases Prog.ran_bind.mp hconsult with ⟨e, hfirst, rfl⟩ | ⟨⟨outcome, approval⟩, first, rest, rfl,
    hfirst, hrest⟩
  · exact .inl fun c hc => ((ran_consult wires hfirst).1 c hc).1
  obtain ⟨hquiet, hspec⟩ := ran_consult wires hfirst
  obtain ⟨hdecision, happroval, hauth⟩ := hspec outcome approval rfl
  have hstill : ∀ c ∈ first, c.op.started = none := fun c hc => (hquiet c hc).1
  cases hblocked : isBlocked outcome approval with
  | true =>
    simp only [hblocked, if_true] at hrest
    refine .inl fun c hc => ?_
    rcases List.mem_append.mp hc with hc | hc
    · exact hstill c hc
    · exact ran_refuse hrest c hc
  | false =>
    simp only [hblocked, Bool.false_eq_true, if_false] at hrest
    rcases ran_proceed hrest with rfl | ⟨ending, rest, rfl, hafter⟩
    · rw [List.append_nil]
      exact .inl hstill
    · rw [← happroval] at hafter
      have hhashOf : hashOf py sig call = .ok argsHash := by
        simp only [hashOf, hbound, bind, Except.bind, hargs]
      exact .inr ⟨first, ending, rest, argsHash, outcome, rfl, hquiet, hauth hblocked, hhashOf,
        hdecision, hafter⟩

/-- What is asked of the calls a gate makes. -/
structure Accounted (py : Python) (sig : Signature) (calls : List Answer) : Prop where
  once : (starts calls).length ≤ 1
  authorised : ∀ before c after, calls = before ++ c :: after → c.op.started ≠ none →
    ∃ a ∈ before, Answer.authorises a = true
  receipted : ∀ c ∈ calls, ∀ call, c.op.started = some call →
    ∃ receipt, receipts calls = [receipt] ∧ hashOf py sig call = .ok receipt.argumentsHash
  plain : ∀ v : Value, v.Plain → jsonSafe py v = .ok v
  distinct : ∀ call call' arguments arguments', argumentsOf sig call = .ok arguments →
    argumentsOf sig call' = .ok arguments' → (∀ a ∈ arguments, a.1.Admits a.2) →
    (∀ a ∈ arguments', a.1.Admits a.2) → arguments ≠ arguments' →
    bindArgs py sig call ≠ bindArgs py sig call'

/-- Wherever the callable is started it returns, and its receipt can be built. -/
def Recordable (py : Python) (config : GateConfig) (sig : Signature) (call : Call)
    (calls : List Answer) : Prop :=
  ∀ c ∈ calls, ∀ ending, Answer.ended c = some ending → ∀ argsHash, hashOf py sig call = .ok argsHash →
    ∀ outcome, calls.findSome? Answer.decision = some outcome →
      ∃ receipt, successReceipt py config argsHash outcome (calls.findSome? Answer.approval) ending =
        .ok receipt

theorem started_of_ended {c : Answer} {ending : Except Raised Value}
    (h : Answer.ended c = some ending) : c.op.started ≠ none := by
  obtain ⟨op, reply⟩ := c
  cases op
  case func call => exact Option.some_ne_none call
  case awaitFunc call => exact Option.some_ne_none call
  all_goals cases h

theorem distinct_forms {call' : Call} {arguments arguments' : List (Parameter × Value)}
    (h : argumentsOf sig call = .ok arguments) (h' : argumentsOf sig call' = .ok arguments')
    (hadmits : ∀ a ∈ arguments, a.1.Admits a.2) (hadmits' : ∀ a ∈ arguments', a.1.Admits a.2)
    (hne : arguments ≠ arguments') : bindArgs py sig call ≠ bindArgs py sig call' :=
  fun hsame => hne (arguments_of_bindArgs h h' hadmits hadmits' hsame)

theorem accounted_of_idle (h : ∀ c ∈ calls, c.op.started = none) : Accounted py sig calls where
  once := by
    rw [starts, List.filterMap_eq_nil_iff.mpr h]
    exact Nat.zero_le 1
  authorised before c after hcalls hstarted := by
    subst hcalls
    exact absurd (h c (List.mem_append_right _ List.mem_cons_self)) hstarted
  receipted c hc call hcall := by
    rw [h c hc] at hcall
    cases hcall
  plain v hv := jsonSafe_plain hv
  distinct _ _ _ _ h h' := distinct_forms h h'

section Started

variable {first rest : List Answer} {ending : Except Raised Value}

theorem starts_append (hquiet : Quiet first) : starts (first ++ rest) = starts rest := by
  have hfirst : starts first = [] := List.filterMap_eq_nil_iff.mpr fun c hc => (hquiet c hc).1
  rw [starts, List.filterMap_append]
  exact congrArg (· ++ starts rest) hfirst

theorem receipts_append (hquiet : Quiet first) : receipts (first ++ rest) = receipts rest := by
  have hfirst : receipts first = [] := List.filterMap_eq_nil_iff.mpr fun c hc => (hquiet c hc).2
  rw [receipts, List.filterMap_append]
  exact congrArg (· ++ receipts rest) hfirst

theorem starts_start (wires : Wires approve start) (rest : List Answer) :
    starts (⟨start call, ending⟩ :: rest) = call :: starts rest :=
  List.filterMap_cons_some (f := fun c : Answer => c.op.started) (wires.start_started call)

theorem receipts_start (wires : Wires approve start) (rest : List Answer) :
    receipts (⟨start call, ending⟩ :: rest) = receipts rest :=
  List.filterMap_cons_none (f := fun c : Answer => c.op.emitted) (wires.start_emitted call)

theorem authorised_of_quiet (hquiet : Quiet first)
    (hauth : ∃ c ∈ first, Answer.authorises c = true) {before after : List Answer} {c : Answer}
    (hcalls : first ++ rest = before ++ c :: after) (hstarted : c.op.started ≠ none) :
    ∃ a ∈ before, Answer.authorises a = true := by
  obtain ⟨a, ha, hauthorises⟩ := hauth
  rcases List.append_eq_append_iff.mp hcalls with ⟨more, rfl, -⟩ | ⟨more, rfl, hmore⟩
  · exact ⟨a, List.mem_append_left _ ha, hauthorises⟩
  · cases more with
    | nil => exact ⟨a, by simpa using ha, hauthorises⟩
    | cons d more =>
      obtain ⟨rfl, -⟩ := List.cons.inj hmore
      exact absurd (hquiet c (List.mem_append_right _ List.mem_cons_self)).1 hstarted

theorem accounted_of_receipt (wires : Wires approve start) {receipt : Receipt}
    {reply : Except Raised Unit} (hquiet : Quiet first)
    (hauth : ∃ c ∈ first, Answer.authorises c = true)
    (hhash : hashOf py sig call = .ok receipt.argumentsHash) :
    Accounted py sig (first ++ [⟨start call, ending⟩, ⟨.emit receipt, reply⟩]) := by
  have hstarts : starts (first ++ [⟨start call, ending⟩, ⟨.emit receipt, reply⟩]) = [call] := by
    rw [starts_append hquiet, starts_start wires]
    rfl
  constructor
  · rw [hstarts]
    exact le_refl 1
  · exact fun before c after hcalls => authorised_of_quiet hquiet hauth hcalls
  · intro c hc call' hcall'
    have hmem : call' ∈ starts (first ++ [⟨start call, ending⟩, ⟨.emit receipt, reply⟩]) :=
      List.mem_filterMap.mpr ⟨c, hc, hcall'⟩
    rw [hstarts, List.mem_singleton] at hmem
    subst hmem
    refine ⟨receipt, ?_, hhash⟩
    rw [receipts_append hquiet, receipts_start wires]
    rfl
  · exact fun v hv => jsonSafe_plain hv
  · exact fun _ _ _ _ h h' => distinct_forms h h'

theorem not_accounted (wires : Wires approve start) (hquiet : Quiet first) :
    ¬ Accounted py sig (first ++ [⟨start call, ending⟩]) := by
  intro h
  obtain ⟨receipt, hreceipts, -⟩ := h.receipted ⟨start call, ending⟩
    (List.mem_append_right _ List.mem_cons_self) call (wires.start_started call)
  rw [receipts_append hquiet, receipts_start wires] at hreceipts
  cases hreceipts

end Started

theorem argumentsHash_of_successReceipt {ending : Except Raised Value} {receipt : Receipt}
    (h : successReceipt py config argsHash outcome approval ending = .ok receipt) :
    receipt.argumentsHash = argsHash := by
  obtain ⟨result, -, h⟩ := Fallible.bind_eq_ok.mp h
  obtain ⟨ref, -, h⟩ := Fallible.bind_eq_ok.mp h
  obtain ⟨hash, -, h⟩ := Fallible.bind_eq_ok.mp h
  cases h
  rfl

theorem findSome?_started {β : Type} {f : Answer → Option β} {first rest : List Answer}
    (h : ∀ c ∈ rest, f c = none) : (first ++ rest).findSome? f = first.findSome? f := by
  rw [List.findSome?_append, List.findSome?_eq_none_iff.mpr h, Option.or_none]

theorem accounted_of_wrapped (wires : Wires approve start) {r : Except Raised Value}
    (h : (wrapped py config sig approve start call).Ran calls r) :
    Accounted py sig calls ↔ Recordable py config sig call calls := by
  rcases ran_wrapped wires h with hidle | ⟨first, ending, rest, argsHash, outcome, rfl, hquiet, hauth,
    hhash, hdecision, hafter⟩
  · refine iff_of_true (accounted_of_idle hidle) ?_
    intro c hc ending hended
    exact absurd (hidle c hc) (started_of_ended hended)
  · rcases hafter with ⟨e, he, rfl⟩ | ⟨receipt, reply, hreceipt, rfl⟩
    · refine iff_of_false (not_accounted wires hquiet) fun hrecordable => ?_
      have hlater : ∀ c ∈ [(⟨start call, ending⟩ : Answer)], Answer.decision c = none ∧
          Answer.approval c = none := by
        intro c hc
        rw [List.mem_singleton.mp hc]
        exact ⟨wires.start_decision call ending, wires.start_approval call ending⟩
      obtain ⟨receipt, hreceipt⟩ := hrecordable ⟨start call, ending⟩
        (List.mem_append_right _ List.mem_cons_self) ending (wires.start_ended call ending) argsHash
        hhash outcome (by rw [findSome?_started fun c hc => (hlater c hc).1, hdecision])
      rw [findSome?_started fun c hc => (hlater c hc).2, he] at hreceipt
      cases hreceipt
    · have hlater : ∀ c ∈ [(⟨start call, ending⟩ : Answer), ⟨.emit receipt, reply⟩],
          Answer.decision c = none ∧ Answer.approval c = none := by
        intro c hc
        rcases List.mem_cons.mp hc with rfl | hc
        · exact ⟨wires.start_decision call ending, wires.start_approval call ending⟩
        · rw [List.mem_singleton.mp hc]
          exact ⟨rfl, rfl⟩
      have hsame := argumentsHash_of_successReceipt hreceipt
      refine iff_of_true (accounted_of_receipt wires hquiet hauth (hsame ▸ hhash)) ?_
      intro c hc ending' hended argsHash' hhash' outcome' houtcome
      rw [findSome?_started fun c hc => (hlater c hc).1, hdecision] at houtcome
      rw [findSome?_started fun c hc => (hlater c hc).2]
      cases houtcome
      rw [hhash] at hhash'
      cases hhash'
      obtain rfl : ending' = ending := by
        rcases List.mem_append.mp hc with hc | hc
        · exact absurd (hquiet c hc).1 (started_of_ended hended)
        · rcases List.mem_cons.mp hc with rfl | hc
          · exact Option.some.inj (hended.symm.trans (wires.start_ended call ending))
          · rw [List.mem_singleton.mp hc] at hended
            cases hended
      exact ⟨receipt, hreceipt⟩

/-- A call of a gated callable, sync or async, is accounted for exactly when a callable that is
started returns a result its receipt can be built of. -/
theorem accounted_iff (py : Python) (config : GateConfig) (sig : Signature)
    (isCoroutineFunction : Bool) (call : Call) {calls : List Answer} {r : Except Raised Value}
    (h : (wrap py config sig isCoroutineFunction call).Ran calls r) :
    Accounted py sig calls ↔ Recordable py config sig call calls := by
  cases isCoroutineFunction with
  | true => exact accounted_of_wrapped wires_async h
  | false => exact accounted_of_wrapped wires_sync h

end Traces

/-! A refund -/

def plainPython : Python where
  str _ := .ok (PyDumps.pyStr "re_42")
  repr _ := .ok (PyDumps.pyStr "<object>")
  computeArgumentsHash _ := .ok "sha256:a1"
  computeReceiptHash _ := .ok "sha256:b2"

def refundConfig : GateConfig where
  actionId := "stripe.refund"
  actorId := "agent:jamjet:pid/1"
  issuedAt := "2026-01-01T00:00:00Z"
  receiptId := "r1"

def refundSignature : Signature where
  parameters := [⟨PyDumps.pyStr "charge_id", .positionalOrKeyword, none⟩]
  nodup := List.nodup_singleton _

def refund : Call := ⟨[.str (PyDumps.pyStr "ch_42")], []⟩

/-- What the gate sees of a refund that ends so. -/
def refundOpening (ending : Except Raised Value) : List Answer :=
  [⟨.decide [(PyDumps.pyStr "charge_id", .str (PyDumps.pyStr "ch_42"))], .ok { decision := .allow }⟩,
    ⟨.func refund, ending⟩]

/-- The refund is booked, and then the connection is lost. -/
theorem refund_without_receipt :
    (wrap plainPython refundConfig refundSignature false refund).Ran
      (refundOpening (.error (.other "connection lost"))) (.error (.other "connection lost")) ∧
    ¬ Accounted plainPython refundSignature
      (refundOpening (.error (.other "connection lost"))) := by
  refine ⟨⟨_, _, rfl, _, _, rfl, rfl, rfl⟩, fun h => ?_⟩
  obtain ⟨receipt, hreceipts, -⟩ :=
    h.receipted _ (List.mem_cons_of_mem _ List.mem_cons_self) refund rfl
  cases hreceipts

theorem lost_refund_accounted_iff :
    Accounted plainPython refundSignature (refundOpening (.error (.other "connection lost"))) ↔
      Recordable plainPython refundConfig refundSignature refund
        (refundOpening (.error (.other "connection lost"))) :=
  accounted_iff plainPython refundConfig refundSignature false refund
    ⟨_, _, rfl, _, _, rfl, rfl, rfl⟩

end JamJet.ActionGate
