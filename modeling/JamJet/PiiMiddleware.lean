import JamJet.Fallible
import JamJet.PiiDetector
import JamJet.PyJson
import JamJet.ToolPolicies

/-! The middleware that scans a call to a model for personal data and, on request, redacts it: two
walks over the same messages and tools. -/

namespace JamJet

namespace Pii

open Fallible (bind_eq_ok)
open PyJson (setItem lookup_setItem setItem_setItem)
open ToolPolicies.Python (fnmatch)

/-- What a request holds: texts, lists and dicts with string keys, and any other object. -/
inductive Part (Other : Type)
  | str (s : List Char)
  | list (items : List (Part Other))
  | dict (members : List (String × Part Other))
  | other (x : Other)

abbrev Fields (Other : Type) := List (String × Part Other)

/-- An attribute that an object has not: `.get` or `.values`. -/
inductive AttributeError
  | get
  | values
  deriving DecidableEq, Repr

inductive MiddlewareOutcome
  | passthrough
  | blocked
  | detectorError
  deriving DecidableEq, Repr

structure Evidence where
  types : List String
  count : ℕ
  action : String
  deriving DecidableEq, Repr

structure CallContext (Other : Type) where
  provider : String
  model : String
  messages : List (Part Other)
  tools : List (Part Other)
  system : Option (Part Other)
  extraKwargs : Fields Other
  middlewareFired : List String := []
  middlewareOutcome : Option MiddlewareOutcome := none
  middlewareEvidence : Option Evidence := none

/-- A detector that finds nothing in what it has redacted. -/
structure CleanDetector where
  scan : List Char → List PIIDetection
  redact : List Char → List Char
  scan_redact : ∀ text, scan (redact text) = []

structure RedactRule where
  pattern : String
  onDetect : Option String := none
  scope : Option (List String) := none

def RedactRule.scopes (rule : RedactRule) : List String := rule.scope.getD ["messages", "tools"]

section Walks

variable {Other : Type} (truthy : Other → Bool) (detector : CleanDetector)

/-! ### The scan -/

def scanText : Option (Part Other) → List PIIDetection
  | some (.str s) => detector.scan s
  | _ => []

/-- A text in a dict, if it is there. -/
def scanField (key : String) : Part Other → List PIIDetection
  | .dict members => scanText detector (members.lookup key)
  | _ => []

def scanMessage : Part Other → Except AttributeError (List PIIDetection)
  | .dict message =>
    match message.lookup "content" with
    | some (.list parts) => .ok (parts.flatMap (scanField detector "text"))
    | content => .ok (scanText detector content)
  | _ => .error .get

/-- `tool.get("function", tool)`, and what it has to `get` from. -/
def functionOf : Part Other → Except AttributeError (Fields Other)
  | .dict tool =>
    match tool.lookup "function" with
    | none => .ok tool
    | some (.dict fn) => .ok fn
    | some _ => .error .get
  | _ => .ok []

/-- `(params.get("properties") or {}).values()` -/
def propertiesOf (params : Fields Other) : Except AttributeError (List (Part Other)) :=
  match params.lookup "properties" with
  | none => .ok []
  | some (.dict properties) => .ok (properties.map Prod.snd)
  | some (.str s) => if s.isEmpty then .ok [] else .error .values
  | some (.list items) => if items.isEmpty then .ok [] else .error .values
  | some (.other x) => if truthy x then .error .values else .ok []

/-- The properties of a tool's parameters. -/
def parametersOf (fn : Fields Other) : Except AttributeError (List (Part Other)) :=
  match fn.lookup "parameters" with
  | some (.dict params) => propertiesOf truthy params
  | _ => .ok []

def scanTool (tool : Part Other) : Except AttributeError (List PIIDetection) := do
  let fn ← functionOf tool
  let properties ← parametersOf truthy fn
  return scanText detector (fn.lookup "description") ++
    properties.flatMap (scanField detector "description")

/-- One list of detections for each item, if the scope has the name. -/
def scanEach (scope : List String) (name : String) (items : List (Part Other))
    (scan : Part Other → Except AttributeError (List PIIDetection)) :
    Except AttributeError (List PIIDetection) :=
  if name ∈ scope then (items.mapM scan).map List.flatten else .ok []

def scanCtx (scope : List String) (ctx : CallContext Other) :
    Except AttributeError (List PIIDetection) := do
  let messages ← scanEach scope "messages" ctx.messages (scanMessage detector)
  let tools ← scanEach scope "tools" ctx.tools (scanTool truthy detector)
  return messages ++ tools

/-! ### The redaction -/

/-- A text in a dict replaced, if it is there. -/
def redactField (key : String) (members : Fields Other) : Fields Other :=
  match members.lookup key with
  | some (.str s) => setItem members key (.str (detector.redact s))
  | _ => members

def redactPart : Part Other → Part Other
  | .dict part => .dict (redactField detector "text" part)
  | part => part

def redactMessage : Part Other → Except AttributeError (Part Other)
  | .dict message =>
    match message.lookup "content" with
    | some (.list parts) =>
      .ok (.dict (setItem message "content" (.list (parts.map (redactPart detector)))))
    | _ => .ok (.dict (redactField detector "content" message))
  | _ => .error .get

def redactTool : Part Other → Except AttributeError (Part Other)
  | .dict tool =>
    match tool.lookup "function" with
    | none => .ok (.dict (redactField detector "description" tool))
    | some (.dict fn) =>
      .ok (.dict (setItem tool "function" (.dict (redactField detector "description" fn))))
    | some _ => .error .get
  | tool => .ok tool

def redactEach (scope : List String) (name : String) (items : List (Part Other))
    (redact : Part Other → Except AttributeError (Part Other)) :
    Except AttributeError (List (Part Other)) :=
  if name ∈ scope then items.mapM redact else .ok items

def redactCtx (scope : List String) (ctx : CallContext Other) :
    Except AttributeError (CallContext Other) := do
  let messages ← redactEach scope "messages" ctx.messages (redactMessage detector)
  let tools ← redactEach scope "tools" ctx.tools (redactTool detector)
  return { ctx with messages := messages, tools := tools }

end Walks

/-! ### The middleware -/

/-- What a call of the middleware comes to: it goes on with a context, or it raises. -/
inductive Called (Other : Type)
  | next (ctx : CallContext Other)
  | blocked (rulePattern : String) (typesDetected : List String)
  | raised (error : AttributeError)

variable {Other : Type} (truthy : Other → Bool)

def CallContext.identifier (ctx : CallContext Other) : String := ctx.provider ++ ":" ++ ctx.model

def CallContext.fired (ctx : CallContext Other) (outcome : MiddlewareOutcome)
    (evidence : Option Evidence) : CallContext Other where
  __ := ctx
  middlewareFired := ctx.middlewareFired ++ ["pii.redact"]
  middlewareOutcome := some outcome
  middlewareEvidence := evidence

/-- The first rule whose pattern matches, with the detector built for it. -/
def matchRule (compiled : List (RedactRule × CleanDetector)) (ctx : CallContext Other) :
    Option (RedactRule × CleanDetector) :=
  compiled.find? fun rd => fnmatch ctx.identifier rd.1.pattern

/-- `sorted({d.type for d in detections})` -/
def typesDetected (detections : List PIIDetection) : List String :=
  (detections.map (·.type)).dedup.insertionSort (· ≤ ·)

/-- `PIIMiddleware.__call__`. -/
def call (compiled : List (RedactRule × CleanDetector)) (ctx : CallContext Other) : Called Other :=
  match matchRule compiled ctx with
  | none => .next ctx
  | some (rule, detector) =>
    match scanCtx truthy detector rule.scopes ctx with
    | .error _ => .next (ctx.fired .detectorError ctx.middlewareEvidence)
    | .ok [] => .next ctx
    | .ok detections =>
      if rule.onDetect.getD "block" = "block" then .blocked rule.pattern (typesDetected detections)
      else if rule.onDetect.getD "block" = "replace" then
        match redactCtx detector rule.scopes ctx with
        | .error e => .raised e
        | .ok redacted => .next (redacted.fired .passthrough
            (some ⟨typesDetected detections, detections.length, "replaced"⟩))
      else .next ctx

/-! ### What is left after a replacement -/

/-- A detector that replaces every text by nothing: what two requests have in common under it is
all that is not redacted. -/
def blank : CleanDetector := ⟨fun _ => [], fun _ => [], fun _ => rfl⟩

/-- Two contexts are the same but for the texts that are redacted, and for what the middleware
writes about itself. -/
structure SameElsewhere (scope : List String) (ctx ctx' : CallContext Other) : Prop where
  provider : ctx'.provider = ctx.provider
  model : ctx'.model = ctx.model
  system : ctx'.system = ctx.system
  extraKwargs : ctx'.extraKwargs = ctx.extraKwargs
  messages : redactEach scope "messages" ctx'.messages (redactMessage blank) =
    redactEach scope "messages" ctx.messages (redactMessage blank)
  tools : redactEach scope "tools" ctx'.tools (redactTool blank) =
    redactEach scope "tools" ctx.tools (redactTool blank)

/-- The parameters of a tool can be read, and their descriptions hold nothing that is detected. -/
def ParametersClean (detector : CleanDetector) (tool : Part Other) : Prop :=
  ∃ fn properties, functionOf tool = .ok fn ∧ parametersOf truthy fn = .ok properties ∧
    ∀ property ∈ properties, scanField detector "description" property = []

variable {truthy : Other → Bool} {detector : CleanDetector} {members : Fields Other}
  {key key' : String} {value value' : Part Other} {scope : List String} {ctx : CallContext Other}

theorem lookup_redactField_of_ne (h : key' ≠ key) :
    (redactField detector key members).lookup key' = members.lookup key' := by
  unfold redactField
  split
  · rw [lookup_setItem, if_neg h]
  · rfl

theorem lookup_redactField (detector : CleanDetector) (key : String) (members : Fields Other) :
    (redactField detector key members).lookup key =
    match members.lookup key with
    | some (.str s) => some (.str (detector.redact s))
    | found => found := by
  unfold redactField
  cases h : members.lookup key with
  | none => exact h
  | some found => cases found <;> simp [lookup_setItem, h]

theorem scanText_redactField :
    scanText detector ((redactField detector key members).lookup key) = [] := by
  rw [lookup_redactField]
  split
  · exact detector.scan_redact _
  · next hnot =>
    unfold scanText
    split
    · next s hs => exact (hnot s hs).elim
    · rfl

theorem redactField_blank :
    redactField blank key (redactField detector key members) = redactField blank key members := by
  have hfound := lookup_redactField detector key members
  unfold redactField at hfound ⊢
  cases h : members.lookup key with
  | none => simp [h]
  | some found =>
    cases found with
    | str s =>
      rw [h] at hfound
      simp only [hfound, setItem_setItem]
      rfl
    | list items => simp [h]
    | dict fields => simp [h]
    | other x => simp [h]

theorem scanField_redactPart (part : Part Other) :
    scanField detector "text" (redactPart detector part) = [] := by
  cases part with
  | dict fields => exact scanText_redactField
  | _ => rfl

theorem redactPart_blank (part : Part Other) :
    redactPart blank (redactPart detector part) = redactPart blank part := by
  cases part with
  | dict fields => exact congrArg Part.dict redactField_blank
  | _ => rfl

theorem redactMessage_spec {message : Part Other} {found : List PIIDetection}
    (h : scanMessage detector message = .ok found) : ∃ redacted,
    redactMessage detector message = .ok redacted ∧
      redactMessage blank redacted = redactMessage blank message ∧
      scanMessage detector redacted = .ok [] := by
  cases message with
  | dict members =>
    by_cases hlist : ∃ parts, members.lookup "content" = some (.list parts)
    · obtain ⟨parts, hparts⟩ := hlist
      refine ⟨.dict (setItem members "content" (.list (parts.map (redactPart detector)))), ?_, ?_, ?_⟩
      · simp [redactMessage, hparts]
      · simp [redactMessage, hparts, lookup_setItem, setItem_setItem, Function.comp_def,
          redactPart_blank]
      · simp [scanMessage, lookup_setItem, List.flatMap_map, scanField_redactPart]
    · have hmessage (detector : CleanDetector) (members : Fields Other)
          (h : ¬ ∃ parts, members.lookup "content" = some (.list parts)) :
          redactMessage detector (.dict members) = .ok (.dict (redactField detector "content" members)) ∧
          scanMessage detector (.dict members) =
            .ok (scanText detector (members.lookup "content")) := by
        unfold redactMessage scanMessage
        constructor <;> (dsimp only; split) <;> simp_all
      have hredacted : ¬ ∃ parts, (redactField detector "content" members).lookup "content" =
          some (.list parts) := by
        rw [lookup_redactField]
        rintro ⟨parts, hparts⟩
        split at hparts
        · cases hparts
        · exact hlist ⟨parts, hparts⟩
      refine ⟨_, (hmessage detector members hlist).1, ?_, ?_⟩
      · rw [(hmessage blank _ hredacted).1, (hmessage blank _ hlist).1, redactField_blank]
      · rw [(hmessage detector _ hredacted).2, scanText_redactField]
  | _ => cases h

theorem parametersOf_redactField (fn : Fields Other) :
    parametersOf truthy (redactField detector "description" fn) = parametersOf truthy fn := by
  unfold parametersOf
  rw [lookup_redactField_of_ne (by decide)]

theorem functionOf_redactTool (detector : CleanDetector) {tool : Part Other} {fn : Fields Other}
    (h : functionOf tool = .ok fn) : ∃ redacted, redactTool detector tool = .ok redacted ∧
      functionOf redacted = .ok (redactField detector "description" fn) ∧
      redactTool blank redacted = redactTool blank tool := by
  cases tool with
  | dict members =>
    cases hfn : members.lookup "function" with
    | none =>
      simp only [functionOf, hfn] at h
      cases h
      have hlookup : (redactField detector "description" fn).lookup "function" = none := by
        rw [lookup_redactField_of_ne (by decide), hfn]
      refine ⟨.dict (redactField detector "description" fn), ?_, ?_, ?_⟩
      · simp [redactTool, hfn]
      · simp [functionOf, hlookup]
      · simp [redactTool, hfn, hlookup, redactField_blank]
    | some value =>
      simp only [functionOf, hfn] at h
      cases value with
      | dict fields =>
        cases h
        refine ⟨.dict (setItem members "function" (.dict (redactField detector "description" fn))),
          ?_, ?_, ?_⟩
        · simp [redactTool, hfn]
        · simp [functionOf, lookup_setItem]
        · simp [redactTool, hfn, lookup_setItem, setItem_setItem, redactField_blank]
      | _ => cases h
  | _ =>
    cases h
    exact ⟨_, rfl, rfl, rfl⟩

theorem scanTool_eq_ok {tool : Part Other} {found : List PIIDetection} :
    scanTool truthy detector tool = .ok found ↔ ∃ fn properties, functionOf tool = .ok fn ∧
      parametersOf truthy fn = .ok properties ∧
      scanText detector (fn.lookup "description") ++
        properties.flatMap (scanField detector "description") = found := by
  unfold scanTool
  constructor
  · intro h
    obtain ⟨fn, hfn, hrest⟩ := bind_eq_ok.mp h
    obtain ⟨properties, hproperties, hfound⟩ := bind_eq_ok.mp hrest
    exact ⟨fn, properties, hfn, hproperties, Except.ok.inj hfound⟩
  · rintro ⟨fn, properties, hfn, hproperties, rfl⟩
    exact bind_eq_ok.mpr ⟨fn, hfn, bind_eq_ok.mpr ⟨properties, hproperties, rfl⟩⟩

theorem redactTool_spec {tool : Part Other} {found : List PIIDetection}
    (h : scanTool truthy detector tool = .ok found) : ∃ redacted,
    redactTool detector tool = .ok redacted ∧ redactTool blank redacted = redactTool blank tool ∧
      (scanTool truthy detector redacted = .ok [] ↔ ParametersClean truthy detector tool) := by
  obtain ⟨fn, properties, hfn, hproperties, -⟩ := scanTool_eq_ok.mp h
  obtain ⟨redacted, hredacted, hfn', hblank⟩ := functionOf_redactTool detector hfn
  refine ⟨redacted, hredacted, hblank, ?_⟩
  rw [scanTool_eq_ok, ParametersClean]
  simp only [hfn, hfn', Except.ok.injEq, exists_and_left, exists_eq_left', hproperties,
    parametersOf_redactField, scanText_redactField, List.nil_append, List.flatMap_eq_nil_iff]

theorem scanEach_eq_nil {name : String} {items : List (Part Other)}
    {scan : Part Other → Except AttributeError (List PIIDetection)} :
    scanEach scope name items scan = .ok [] ↔ (name ∈ scope → ∀ item ∈ items, scan item = .ok []) := by
  unfold scanEach
  by_cases hname : name ∈ scope
  · rw [if_pos hname, Fallible.map_eq_ok]
    simp only [hname, forall_true_left]
    constructor
    · rintro ⟨found, hfound, hnil⟩
      have hscanned := Fallible.forall₂_of_mapM hfound
      clear hfound
      induction hscanned with
      | nil => simp
      | cons hscan _ ih =>
        rw [List.flatten_cons, List.append_eq_nil_iff] at hnil
        obtain ⟨rfl, hnil⟩ := hnil
        exact List.forall_mem_cons.mpr ⟨hscan, ih hnil⟩
    · intro hall
      refine ⟨items.map fun _ => [], Fallible.mapM_of_forall₂ ?_, by simp⟩
      rw [List.forall₂_map_right_iff, List.forall₂_same]
      exact hall
  · simp [hname]

/-- What holds of each item holds of the list: it is redacted, the same elsewhere, and scanned with
nothing found just if each item is as its scan needs it. -/
theorem each_spec {name : String} {items : List (Part Other)}
    {scan : Part Other → Except AttributeError (List PIIDetection)}
    (redact redactBlank : Part Other → Except AttributeError (Part Other)) (C : Part Other → Prop)
    (hitem : ∀ item found, scan item = .ok found → ∃ redacted, redact item = .ok redacted ∧
      redactBlank redacted = redactBlank item ∧ (scan redacted = .ok [] ↔ C item))
    {found : List PIIDetection} (h : scanEach scope name items scan = .ok found) :
    ∃ redacted, redactEach scope name items redact = .ok redacted ∧
      redactEach scope name redacted redactBlank = redactEach scope name items redactBlank ∧
      (scanEach scope name redacted scan = .ok [] ↔ (name ∈ scope → ∀ item ∈ items, C item)) := by
  simp only [scanEach_eq_nil]
  unfold scanEach at h
  unfold redactEach
  by_cases hname : name ∈ scope
  · simp only [hname, if_true, forall_true_left] at h ⊢
    obtain ⟨founds, hfounds, -⟩ := Fallible.map_eq_ok.mp h
    have hscanned := Fallible.forall₂_of_mapM hfounds
    clear h hfounds found
    induction hscanned with
    | nil => exact ⟨[], rfl, rfl, by simp⟩
    | @cons item found items founds hfound _ ih =>
      obtain ⟨redacted, hredact, hblank, hclean⟩ := hitem item found hfound
      obtain ⟨rest, hrest, hrestBlank, hrestClean⟩ := ih
      refine ⟨redacted :: rest, ?_, ?_, ?_⟩
      · rw [List.mapM_cons, hredact, hrest]
        rfl
      · rw [List.mapM_cons, List.mapM_cons, hblank, hrestBlank]
      · rw [List.forall_mem_cons, List.forall_mem_cons, hclean, hrestClean]
  · simp [hname]

theorem scanCtx_eq_ok {found : List PIIDetection} :
    scanCtx truthy detector scope ctx = .ok found ↔ ∃ messages tools,
      scanEach scope "messages" ctx.messages (scanMessage detector) = .ok messages ∧
      scanEach scope "tools" ctx.tools (scanTool truthy detector) = .ok tools ∧
      messages ++ tools = found := by
  unfold scanCtx
  constructor
  · intro h
    obtain ⟨messages, hmessages, hrest⟩ := bind_eq_ok.mp h
    obtain ⟨tools, htools, hfound⟩ := bind_eq_ok.mp hrest
    exact ⟨messages, tools, hmessages, htools, Except.ok.inj hfound⟩
  · rintro ⟨messages, tools, hmessages, htools, rfl⟩
    exact bind_eq_ok.mpr ⟨messages, hmessages, bind_eq_ok.mpr ⟨tools, htools, rfl⟩⟩

theorem scanCtx_eq_nil : scanCtx truthy detector scope ctx = .ok [] ↔
    scanEach scope "messages" ctx.messages (scanMessage detector) = .ok [] ∧
      scanEach scope "tools" ctx.tools (scanTool truthy detector) = .ok [] := by
  rw [scanCtx_eq_ok]
  constructor
  · rintro ⟨messages, tools, hmessages, htools, hnil⟩
    obtain ⟨rfl, rfl⟩ := List.append_eq_nil_iff.mp hnil
    exact ⟨hmessages, htools⟩
  · rintro ⟨hmessages, htools⟩
    exact ⟨[], [], hmessages, htools, rfl⟩

/-- A context that can be scanned is redacted, the same elsewhere, and has no detections left just
if the parameters of its tools hold none. -/
theorem redactCtx_spec {found : List PIIDetection}
    (h : scanCtx truthy detector scope ctx = .ok found) : ∃ redacted,
    redactCtx detector scope ctx = .ok redacted ∧ SameElsewhere scope ctx redacted ∧
      (scanCtx truthy detector scope redacted = .ok [] ↔
        ("tools" ∈ scope → ∀ tool ∈ ctx.tools, ParametersClean truthy detector tool)) := by
  obtain ⟨foundMessages, foundTools, hmessages, htools, -⟩ := scanCtx_eq_ok.mp h
  obtain ⟨messages, hredactMessages, hblankMessages, hcleanMessages⟩ :=
    each_spec (redactMessage detector) (redactMessage blank) (fun _ => True)
      (fun message found hfound => by
        obtain ⟨redacted, hredacted, hblank, hclean⟩ := redactMessage_spec hfound
        exact ⟨redacted, hredacted, hblank, iff_of_true hclean trivial⟩) hmessages
  obtain ⟨tools, hredactTools, hblankTools, hcleanTools⟩ :=
    each_spec (redactTool detector) (redactTool blank) (ParametersClean truthy detector)
      (fun tool found hfound => redactTool_spec hfound) htools
  refine ⟨{ ctx with messages := messages, tools := tools }, ?_, ?_, ?_⟩
  · exact bind_eq_ok.mpr ⟨messages, hredactMessages, bind_eq_ok.mpr ⟨tools, hredactTools, rfl⟩⟩
  · exact ⟨rfl, rfl, rfl, rfl, hblankMessages, hblankTools⟩
  · rw [scanCtx_eq_nil, hcleanMessages, hcleanTools]
    simp

theorem scanCtx_fired (outcome : MiddlewareOutcome) (evidence : Option Evidence) :
    scanCtx truthy detector scope (ctx.fired outcome evidence) =
      scanCtx truthy detector scope ctx := rfl

theorem SameElsewhere.fired {ctx' : CallContext Other} (h : SameElsewhere scope ctx ctx')
    (outcome : MiddlewareOutcome) (evidence : Option Evidence) :
    SameElsewhere scope ctx (ctx'.fired outcome evidence) :=
  ⟨h.provider, h.model, h.system, h.extraKwargs, h.messages, h.tools⟩

/-- The scan can read the messages and tools of a context that are in its scope. -/
structure Readable (truthy : Other → Bool) (scope : List String) (ctx : CallContext Other) : Prop where
  messages : "messages" ∈ scope → ∀ message ∈ ctx.messages, ∃ members, message = .dict members
  tools : "tools" ∈ scope → ∀ tool ∈ ctx.tools, ∃ fn properties, functionOf tool = .ok fn ∧
    parametersOf truthy fn = .ok properties

theorem scanEach_ok (scope : List String) (name : String) (items : List (Part Other))
    (scan : Part Other → Except AttributeError (List PIIDetection)) :
    (∃ found, scanEach scope name items scan = .ok found) ↔
      (name ∈ scope → ∀ item ∈ items, ∃ found, scan item = .ok found) := by
  unfold scanEach
  by_cases hname : name ∈ scope
  · simp only [hname, if_true, forall_true_left, Fallible.map_eq_ok]
    constructor
    · rintro ⟨_, founds, hfounds, -⟩
      exact Fallible.ok_of_mapM hfounds
    · intro hall
      choose! found hfound using hall
      refine ⟨_, items.map found, Fallible.mapM_of_forall₂ ?_, rfl⟩
      rw [List.forall₂_map_right_iff, List.forall₂_same]
      exact hfound
  · simp [hname]

theorem scanCtx_ok_iff (detector : CleanDetector) : (∃ found, scanCtx truthy detector scope ctx = .ok found) ↔
    Readable truthy scope ctx := by
  have hmessage (message : Part Other) : (∃ found, scanMessage detector message = .ok found) ↔
      ∃ members, message = .dict members := by
    cases message with
    | dict members =>
      refine iff_of_true ?_ ⟨members, rfl⟩
      unfold scanMessage
      dsimp only
      split
      · exact ⟨_, rfl⟩
      · exact ⟨_, rfl⟩
    | _ => simp [scanMessage]
  have htool (tool : Part Other) : (∃ found, scanTool truthy detector tool = .ok found) ↔
      ∃ fn properties, functionOf tool = .ok fn ∧ parametersOf truthy fn = .ok properties := by
    simp only [scanTool_eq_ok]
    constructor
    · rintro ⟨_, fn, properties, hfn, hproperties, -⟩
      exact ⟨fn, properties, hfn, hproperties⟩
    · rintro ⟨fn, properties, hfn, hproperties⟩
      exact ⟨_, fn, properties, hfn, hproperties, rfl⟩
  have hmessages := scanEach_ok scope "messages" ctx.messages (scanMessage detector)
  have htools := scanEach_ok scope "tools" ctx.tools (scanTool truthy detector)
  simp only [hmessage] at hmessages
  simp only [htool] at htools
  simp only [scanCtx_eq_ok]
  constructor
  · rintro ⟨_, foundMessages, foundTools, hm, ht, -⟩
    exact ⟨hmessages.mp ⟨_, hm⟩, htools.mp ⟨_, ht⟩⟩
  · intro h
    obtain ⟨foundMessages, hm⟩ := hmessages.mpr h.messages
    obtain ⟨foundTools, ht⟩ := htools.mpr h.tools
    exact ⟨_, foundMessages, foundTools, hm, ht, rfl⟩

theorem sameElsewhere_refl (scope : List String) (ctx : CallContext Other) :
    SameElsewhere scope ctx ctx :=
  ⟨rfl, rfl, rfl, rfl, rfl, rfl⟩

theorem parametersClean_of_scan (h : scanCtx truthy detector scope ctx = .ok []) :
    "tools" ∈ scope → ∀ tool ∈ ctx.tools, ParametersClean truthy detector tool := by
  intro htools tool htool
  have hscan := scanEach_eq_nil.mp (scanCtx_eq_nil.mp h).2 htools tool htool
  obtain ⟨fn, properties, hfn, hproperties, hnil⟩ := scanTool_eq_ok.mp hscan
  obtain ⟨-, hnil⟩ := List.append_eq_nil_iff.mp hnil
  exact ⟨fn, properties, hfn, hproperties, List.flatMap_eq_nil_iff.mp hnil⟩

/-- A rule that replaces goes on with a context in which its detector finds nothing more, and that
is the same elsewhere, just if the context can be read and no description of a parameter of a tool
holds a detection. -/
theorem replaced_clean_iff (compiled : List (RedactRule × CleanDetector)) (ctx : CallContext Other)
    {rule : RedactRule} {detector : CleanDetector}
    (hmatch : matchRule compiled ctx = some (rule, detector))
    (hreplace : rule.onDetect = some "replace") :
    (∃ ctx', call truthy compiled ctx = .next ctx' ∧
      scanCtx truthy detector rule.scopes ctx' = .ok [] ∧ SameElsewhere rule.scopes ctx ctx') ↔
    Readable truthy rule.scopes ctx ∧
      ("tools" ∈ rule.scopes → ∀ tool ∈ ctx.tools, ParametersClean truthy detector tool) := by
  rw [← scanCtx_ok_iff detector]
  cases hscan : scanCtx truthy detector rule.scopes ctx with
  | error e =>
    have hcall : call truthy compiled ctx =
        .next (ctx.fired .detectorError ctx.middlewareEvidence) := by
      simp only [call, hmatch, hscan]
    constructor
    · rintro ⟨ctx', hnext, hclean, -⟩
      obtain rfl := Called.next.inj (hcall.symm.trans hnext)
      rw [scanCtx_fired, hscan] at hclean
      cases hclean
    · rintro ⟨⟨found, hfound⟩, -⟩
      cases hfound
  | ok found =>
    cases found with
    | nil =>
      have hcall : call truthy compiled ctx = .next ctx := by simp only [call, hmatch, hscan]
      refine iff_of_true ⟨ctx, hcall, hscan, sameElsewhere_refl _ _⟩ ⟨⟨[], rfl⟩, ?_⟩
      exact parametersClean_of_scan hscan
    | cons d found =>
      obtain ⟨redacted, hredacted, hsame, hclean⟩ := redactCtx_spec hscan
      have hcall : call truthy compiled ctx = .next (redacted.fired .passthrough
          (some ⟨typesDetected (d :: found), (d :: found).length, "replaced"⟩)) := by
        simp [call, hmatch, hscan, hreplace, hredacted]
      constructor
      · rintro ⟨ctx', hnext, hnil, -⟩
        obtain rfl := Called.next.inj (hcall.symm.trans hnext)
        exact ⟨⟨_, rfl⟩, hclean.mp hnil⟩
      · rintro ⟨-, hparameters⟩
        exact ⟨_, hcall, hclean.mpr hparameters, hsame.fired _ _⟩

/-- A detector that takes a text with an `@` for an address. -/
def addressDetector : CleanDetector where
  scan text := if '@' ∈ text then [⟨"EMAIL", text, 0, text.length⟩] else []
  redact text := if '@' ∈ text then token "EMAIL" else text
  scan_redact text := by
    by_cases h : '@' ∈ text
    · rw [if_pos h]
      decide
    · rw [if_neg h, if_neg h]

def replaceRules : List (RedactRule × CleanDetector) :=
  [(⟨"openai:*", some "replace", none⟩, addressDetector)]

/-- A call with a message, and a tool with a parameter. -/
def callWith (content description : String) : CallContext Unit where
  provider := "openai"
  model := "gpt-4o"
  messages := [.dict [("role", .str "user".toList), ("content", .str content.toList)]]
  tools := [.dict [("type", .str "function".toList), ("function", .dict
    [("name", .str "mail".toList), ("parameters", .dict [("properties", .dict
      [("to", .dict [("description", .str description.toList)])])])])]]
  system := none
  extraKwargs := []

theorem replaced_clean_message : ∃ ctx',
    call (fun _ => false) replaceRules (callWith "ask bob@x.io" "whom") = .next ctx' ∧
      scanCtx (fun _ => false) addressDetector ["messages", "tools"] ctx' = .ok [] ∧
      SameElsewhere ["messages", "tools"] (callWith "ask bob@x.io" "whom") ctx' := by
  have hmatch : matchRule replaceRules (callWith "ask bob@x.io" "whom") =
      some (⟨"openai:*", some "replace", none⟩, addressDetector) := by rfl
  refine (replaced_clean_iff replaceRules (callWith "ask bob@x.io" "whom") hmatch rfl).mpr ?_
  refine ⟨⟨fun _ message h => ?_, fun _ tool h => ?_⟩, fun _ tool h => ?_⟩
  · obtain rfl := List.mem_singleton.mp h
    exact ⟨_, rfl⟩
  · obtain rfl := List.mem_singleton.mp h
    exact ⟨_, _, rfl, rfl⟩
  · obtain rfl := List.mem_singleton.mp h
    refine ⟨_, _, rfl, rfl, fun property hproperty => ?_⟩
    obtain rfl := List.mem_singleton.mp hproperty
    decide

/-- An address in the description of a parameter is reported as replaced, and goes on. -/
theorem parameter_goes_on : ∃ ctx',
    call (fun _ => false) replaceRules (callWith "hello" "like bob@x.io") = .next ctx' ∧
      ctx'.middlewareEvidence = some ⟨["EMAIL"], 1, "replaced"⟩ ∧
      scanCtx (fun _ => false) addressDetector ["messages", "tools"] ctx' =
        .ok [⟨"EMAIL", "like bob@x.io".toList, 0, 13⟩] :=
  ⟨_, rfl, rfl, rfl⟩

end Pii

end JamJet
