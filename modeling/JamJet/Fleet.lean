import JamJet.Fallible
import JamJet.GraphYaml

/-! Fleet documents: the units of one file are compiled each on its own, and a workflow among them
is compared with the same workflow in a file of its own. -/

namespace JamJet.Fleet

open Fallible GraphYaml

/-- Python's texts, with `str.split()`. -/
structure Texts extends Builtins where
  split : String → List String

section Schedules

structure CronSpec where
  name : String
  cronExpression : String
  workflowId : String
  workflowVersion : String
  input : Yaml
  enabled : Bool

variable (py : Texts)

/-- `_validate_cron`. -/
def validateCron (expr : Yaml) : Except YamlError String :=
  let err : YamlError := .valueError ("cron expression must have 5 fields " ++
    "(minute hour day-of-month month day-of-week), got: " ++ py.repr expr)
  match expr with
  | .str text => if (py.split text).length = 5 then .ok text else .error err
  | _ => .error err

/-- `_schedule_to_spec`. -/
def scheduleToSpec (unitId version : String) (schedule : Yaml) : Except YamlError CronSpec := do
  let schedule ← schedule.members
  let cron := get schedule "cron"
  if !cron.truthy then
    throw (.valueError ("unit '" ++ unitId ++ "' has a schedule with no 'cron' field"))
  let expr ← validateCron py cron
  let tz := getStr schedule "timezone" "UTC"
  if !tz.isStr "UTC" then
    throw (.valueError ("unit '" ++ unitId ++ "': only timezone 'UTC' is supported in this " ++
      "version (got " ++ py.repr tz ++ ")"))
  return {
    name := unitId
    cronExpression := expr
    workflowId := unitId
    workflowVersion := version
    input := (getD schedule "input" (.dict [])).orElse (.dict [])
    enabled := (getD schedule "enabled" (.bool true)).truthy }

/-- The cron job of a unit, where it has a schedule. -/
def cronOf (unitId version : String) (data : Members) : Except YamlError (Option CronSpec) :=
  match data.lookup "schedule" with
  | some schedule => (scheduleToSpec py unitId version schedule).map some
  | none => .ok none

end Schedules

section Uses

variable (py : Texts)

/-- The catalogs of a fleet, and the ids of its units. -/
structure Catalogs where
  tools : Yaml
  mcp : Yaml
  unitIds : List String

/-- `name in catalog` and `catalog[name]`. -/
def inCatalog (catalog : Yaml) (name : String) : Except YamlError Bool :=
  match catalog with
  | .dict members => .ok (members.lookup name).isSome
  | .list items => if items.any (·.isStr name) then .error .typeError else .ok false
  | _ => .error .typeError

/-- `_tool_name`: a mapping needs a name. -/
def checkToolName : Yaml → Except YamlError Unit
  | .dict tool =>
      if (get tool "name").truthy then .ok ()
      else .error (.valueError ("inline tool is missing a 'name': " ++ py.repr (.dict tool)))
  | _ => .ok ()

def checkKnown (catalog : Yaml) (name message : String) : Except YamlError Unit := do
  if ← inCatalog catalog name then return else throw (.valueError message)

/-- One entry of `uses`, and the sibling it names. -/
def resolveRef (unitId : String) (catalogs : Catalogs) (ref : Yaml) :
    Except YamlError (Option String) :=
  let unit := "unit '" ++ unitId ++ "': "
  let unknown : YamlError := .valueError (unit ++ "unknown ref " ++ py.repr ref ++
    " (expected tool:/mcp:/agent:/workflow: prefix)")
  match ref with
  | .str text =>
      match text.toList.span (· ≠ ':') with
      | (_, []) => .error unknown
      | (kind, _ :: name) =>
          let name := String.ofList name
          match String.ofList kind with
          | "tool" => do
              checkKnown catalogs.tools name
                (unit ++ "unknown tool '" ++ name ++ "' (not in top-level tools:)")
              return none
          | "mcp" => do
              checkKnown catalogs.mcp name
                (unit ++ "unknown mcp server '" ++ name ++ "' (not in top-level mcp.servers:)")
              return none
          | "agent" | "workflow" =>
              if name ∈ catalogs.unitIds then .ok (some name)
              else .error (.valueError
                (unit ++ "unknown unit '" ++ name ++ "' referenced via " ++ py.repr ref))
          | _ => .error unknown
  | _ => .error unknown

/-- `_resolve_uses`, as far as the siblings go. -/
def resolveUses (unitId : String) (uses inlineTools : Yaml) (catalogs : Catalogs) :
    Except YamlError (List String) := do
  let inline ← (inlineTools.orElse (.list [])).toList
  inline.forM (checkToolName py)
  let refs ← (uses.orElse (.list [])).toList
  let siblings ← refs.mapM (resolveRef py unitId catalogs)
  return siblings.filterMap id

end Uses

section Cycles

inductive Color
  | white
  | grey
  | black
deriving DecidableEq

/-- What the search knows: the colors, and the units it is in the middle of. -/
structure Search where
  color : String → Color
  stack : List String

/-- The siblings of a unit in turn, until one of them lies on a cycle. -/
def visitAll (color : String → Color → Color) (visit : String → Search → Option (List String) × Search) :
    List String → Search → Option (List String) × Search
  | [], search => (none, search)
  | m :: rest, search =>
      match color m (search.color m) with
      | .grey => (some (search.stack.drop (search.stack.idxOf m) ++ [m]), search)
      | .white =>
          match visit m search with
          | (none, search) => visitAll color visit rest search
          | found => found
      | .black => visitAll color visit rest search

/-- `visit`; each turn takes a white unit, so that as many as there are units suffice. -/
def visit (graph : List (String × List String)) :
    ℕ → String → Search → Option (List String) × Search
  | 0, _, search => (none, search)
  | fuel + 1, n, search =>
      let entered : Search :=
        { color := Function.update search.color n .grey, stack := search.stack ++ [n] }
      -- a unit outside the graph counts as black
      let known := fun m color => if (graph.lookup m).isSome then color else .black
      match visitAll known (visit graph fuel) ((graph.lookup n).getD []) entered with
      | (none, left) =>
          (none, { color := Function.update left.color n .black, stack := left.stack.dropLast })
      | found => found

/-- `_detect_cycle`, with the units in the order the graph is walked. -/
def detectCycle (ids : List String) (graph : List (String × List String)) :
    Option (List String) :=
  (visitAll (fun _ color => if color = .grey then .black else color) (visit graph ids.length) ids
    ⟨fun _ => .white, []⟩).1

end Cycles

section Bundles

/-- An agent unit as it is compiled: its version, and the rest of its IR. -/
structure AgentIr (α : Type) where
  version : String
  rest : α

inductive UnitIr (α : Type)
  | agent (ir : AgentIr α)
  | graph (ir : GraphIr)

structure CompiledBundle (α : Type) where
  workflows : List (UnitIr α)
  cronJobs : List CronSpec

variable {α : Type} (py : Texts)
  (compileAgentUnit : String → Members → Yaml → Catalogs → Except YamlError (AgentIr α))

/-- The ids are distinct across both maps. -/
def uniqueIds : List String → List String → Except YamlError Unit
  | _, [] => .ok ()
  | seen, uid :: rest =>
      if uid ∈ seen then
        .error (.valueError ("duplicate unit id '" ++ uid ++
          "' (ids must be unique across agents: and workflows:)"))
      else uniqueIds (uid :: seen) rest

/-- An agent unit, its cron job and the siblings it uses. -/
def agentUnit (defaults : Yaml) (catalogs : Catalogs) (entry : String × Yaml) :
    Except YamlError (AgentIr α × Option CronSpec × String × List String) := do
  let agent ← entry.2.members
  let siblings ← resolveUses py entry.1 (getD agent "uses" (.list [])) (getD agent "tools" (.list []))
    catalogs
  let ir ← compileAgentUnit entry.1 agent defaults catalogs
  let cron ← cronOf py entry.1 ir.version agent
  return (ir, cron, entry.1, siblings)

/-- The keys of a list that a mapping has, with their values. -/
def own (keys : List String) (data : Members) : Members :=
  keys.filterMap fun key => (data.lookup key).map (key, ·)

def headerKeys : List String :=
  ["name", "description", "start", "state_schema", "labels", "agent_ref"]

/-- The version of a workflow: its own, or that of the fleet. -/
def versionOf (defaults wf : Members) : Yaml := getD wf "version" (getStr defaults "version" "0.1.0")

def headerOf (defaults : Members) (uid : String) (wf : Members) : Yaml :=
  .dict ([("id", .str uid), ("version", versionOf defaults wf)] ++ own headerKeys wf)

/-- The document that a workflow of a fleet is compiled from. -/
def bundleDoc (defaults : Members) (catalogs : Catalogs) (uid : String) (wf : Members) : Members :=
  [("workflow", headerOf defaults uid wf),
    ("nodes", getD wf "nodes" (.dict [])),
    ("retry_policies", getD wf "retry_policies" (.dict [])),
    ("timeouts", getD wf "timeouts" (.dict [])),
    ("models", getD wf "models" (.dict [])),
    ("tools", catalogs.tools),
    ("mcp", .dict [("servers", catalogs.mcp)]),
    ("a2a", .dict [("remote_agents", getD wf "remote_agents" (.dict []))])]

/-- A workflow unit and its cron job. -/
def workflowUnit (defaults : Yaml) (catalogs : Catalogs) (entry : String × Yaml) :
    Except YamlError (GraphIr × Option CronSpec) := do
  let wf ← entry.2.members
  let defaults ← defaults.members
  let ir ← compileGraphYaml py.toBuiltins (bundleDoc defaults catalogs entry.1 wf)
  let version := py.str ir.version
  let cron ← cronOf py entry.1 version wf
  return ({ ir with workflowId := .str entry.1, version := .str version }, cron)

/-- The units of one of the two maps. -/
def unitsOf (data : Members) (key : String) : Except YamlError Members :=
  ((getD data key (.dict [])).orElse (.dict [])).members

def noCycle : Option (List String) → Except YamlError Unit
  | some cycle =>
      .error (.valueError ("cycle in agent references: " ++ " -> ".intercalate cycle))
  | none => .ok ()

/-- `compile_bundle`. -/
def compileBundle (walk : HashOrder String) (data : Members) :
    Except YamlError (CompiledBundle α) := do
  let defaults := getD data "defaults" (.dict [])
  let mcp ← (getD data "mcp" (.dict [])).members
  let agents ← unitsOf data "agents"
  let workflows ← unitsOf data "workflows"
  let ids := (agents ++ workflows).map Prod.fst
  uniqueIds [] ids
  let catalogs : Catalogs :=
    { tools := getD data "tools" (.dict []), mcp := getD mcp "servers" (.dict []), unitIds := ids }
  let agentUnits ← agents.mapM (agentUnit py compileAgentUnit defaults catalogs)
  let workflowUnits ← workflows.mapM (workflowUnit py defaults catalogs)
  noCycle (detectCycle (walk.walk ids.toFinset)
    (agentUnits.map (fun unit => unit.2.2) ++ workflows.map fun entry => (entry.1, [])))
  return {
    workflows := agentUnits.map (fun unit => .agent unit.1) ++
      workflowUnits.map (fun unit => .graph unit.1)
    cronJobs := (agentUnits.map (fun unit => unit.2.1) ++
      workflowUnits.map (fun unit => unit.2)).filterMap id }

end Bundles

section Alone

/-- The same workflow in a file of its own: its own keys, and the catalogs of the fleet. -/
def standAlone (data : Members) (uid : String) (wf : Members) : Members :=
  let defaults := match getD data "defaults" (.dict []) with
    | .dict members => members
    | _ => []
  ("workflow", headerOf defaults uid wf) :: ("a2a", .dict (own ["remote_agents"] wf)) ::
    (own ["nodes", "policy", "retry_policies", "timeouts", "models"] wf ++ own ["tools", "mcp"] data)

/-- No policy of its own, and a version written as a text. -/
structure Plain (data wf : Members) : Prop where
  policy : get wf "policy" = .null
  version : ∀ defaults, getD data "defaults" (.dict []) = .dict defaults →
    ∃ text, versionOf defaults wf = .str text

end Alone

section Lookups

variable {d e : Members} {key : String}

theorem lookup_own {keys : List String} :
    (own keys d).lookup key = if key ∈ keys then d.lookup key else none := by
  induction keys with
  | nil => rfl
  | cons k keys ih =>
    have hcons : own (k :: keys) d =
        match d.lookup k with
        | some value => (k, value) :: own keys d
        | none => own keys d := by
      cases hlookup : d.lookup k <;> simp [own, hlookup]
    rw [hcons]
    by_cases hkey : key = k
    · subst hkey
      cases hlookup : d.lookup key with
      | none => simp [ih, hlookup]
      | some value => simp
    · have hne : (key == k) = false := by simpa using hkey
      cases d.lookup k with
      | none => simp [ih, hkey]
      | some value => simp [List.lookup_cons, hne, ih, hkey]

theorem lookup_append : (d ++ e).lookup key = (d.lookup key).or (e.lookup key) := by
  induction d with
  | nil => simp
  | cons kv d ih =>
    rw [List.cons_append, List.lookup_cons, List.lookup_cons, ih]
    cases key == kv.1 <;> simp

end Lookups

section Policies

variable {py : Builtins}

theorem compilePolicy_eq_none {raw : Yaml} {location : String} :
    compilePolicy py raw location = .ok none ↔ raw = .null := by
  cases raw with
  | null => simp [compilePolicy]
  | dict members =>
    refine iff_of_false (fun h => ?_) (by simp)
    unfold compilePolicy at h
    obtain ⟨_, -, h⟩ := bind_eq_ok.mp h
    obtain ⟨blocked, -, h⟩ := bind_eq_ok.mp h
    obtain ⟨approvals, -, h⟩ := bind_eq_ok.mp h
    obtain ⟨models, -, h⟩ := bind_eq_ok.mp h
    obtain ⟨deadline, -, h⟩ := bind_eq_ok.mp h
    cases h
  | _ => simp [compilePolicy]

@[simp] theorem members_dict (members : Members) : (Yaml.dict members).members = .ok members := rfl

/-- Two documents that differ in the policy only. -/
structure SameButPolicy (d e : Members) : Prop where
  header : getD d "workflow" (.dict []) = getD e "workflow" (.dict [])
  maps : ∀ key ∈ ["nodes", "retry_policies", "timeouts", "models", "tools"],
    getD d key (.dict []) = getD e key (.dict [])
  servers : ∃ m m', getD d "mcp" (.dict []) = .dict m ∧ getD e "mcp" (.dict []) = .dict m' ∧
    getD m "servers" (.dict []) = getD m' "servers" (.dict [])
  agents : ∃ a a', getD d "a2a" (.dict []) = .dict a ∧ getD e "a2a" (.dict []) = .dict a' ∧
    getD a "remote_agents" (.dict []) = getD a' "remote_agents" (.dict [])

theorem compileGraphYaml_of_same {d e : Members} {ir : GraphIr} (hsame : SameButPolicy d e)
    (h : compileGraphYaml py d = .ok ir) :
    compileGraphYaml py e =
      (compilePolicy py (get e "policy") "workflow-level policy").map fun policy =>
        { ir with policy := policy } := by
  obtain ⟨m, m', hmcp, hmcp', hservers⟩ := hsame.servers
  obtain ⟨a, a', ha2a, ha2a', hagents⟩ := hsame.agents
  unfold compileGraphYaml at h ⊢
  obtain ⟨rawNodes, hraw, h⟩ := bind_eq_ok.mp h
  obtain ⟨⟨nodes, edges⟩, hnodes, h⟩ := bind_eq_ok.mp h
  obtain ⟨policy, -, h⟩ := bind_eq_ok.mp h
  obtain ⟨wf, hwf, h⟩ := bind_eq_ok.mp h
  obtain ⟨agent, hagent, h⟩ := bind_eq_ok.mp h
  obtain ⟨stateSchema, hschema, h⟩ := bind_eq_ok.mp h
  obtain ⟨mcp, hm, h⟩ := bind_eq_ok.mp h
  obtain ⟨a2a, ha, h⟩ := bind_eq_ok.mp h
  cases h
  rw [hmcp] at hm
  rw [ha2a] at ha
  cases hm
  cases ha
  have hmaps := hsame.maps
  simp only [List.forall_mem_cons, List.not_mem_nil, false_imp_iff, implies_true, and_true] at hmaps
  obtain ⟨hn, hr, ht, hmo, hto⟩ := hmaps
  rw [← hn, ← hsame.header, hraw, hmcp', ha2a', ← hr, ← ht, ← hmo, ← hto]
  simp only [bind, Except.bind, hnodes, hwf, hagent, hschema, members_dict, hservers, hagents]
  cases compilePolicy py (get e "policy") "workflow-level policy" <;> rfl

end Policies

section Units

variable {α : Type} {py : Texts}
  {compileAgentUnit : String → Members → Yaml → Catalogs → Except YamlError (AgentIr α)}
  {walk : HashOrder String} {data defaults wf mcp : Members} {catalogs : Catalogs} {uid : String}

theorem getD_cons_self {key : String} {value default : Yaml} {rest : Members} :
    getD ((key, value) :: rest) key default = value := by
  simp [getD]

theorem getD_cons_ne {key k : String} {value default : Yaml} {rest : Members} (h : key ≠ k) :
    getD ((k, value) :: rest) key default = getD rest key default := by
  have hne : (key == k) = false := by simpa using h
  simp [getD, List.lookup_cons, hne]

theorem getD_own {keys : List String} {key : String} {default : Yaml} (h : key ∈ keys) :
    getD (own keys wf) key default = getD wf key default := by
  rw [getD, lookup_own, if_pos h, getD]

theorem getD_standAlone {key : String} {default : Yaml} (hworkflow : key ≠ "workflow")
    (ha2a : key ≠ "a2a") :
    getD (standAlone data uid wf) key default =
      (((own ["nodes", "policy", "retry_policies", "timeouts", "models"] wf).lookup key).or
        ((own ["tools", "mcp"] data).lookup key)).getD default := by
  rw [standAlone, getD_cons_ne hworkflow, getD_cons_ne ha2a, getD, lookup_append]

theorem sameButPolicy (hdefaults : getD data "defaults" (.dict []) = .dict defaults)
    (hmcp : getD data "mcp" (.dict []) = .dict mcp)
    (htools : catalogs.tools = getD data "tools" (.dict []))
    (hservers : catalogs.mcp = getD mcp "servers" (.dict [])) :
    SameButPolicy (bundleDoc defaults catalogs uid wf) (standAlone data uid wf) where
  header := by simp [bundleDoc, standAlone, getD_cons_self, hdefaults]
  maps := by
    intro key hkey
    simp only [List.mem_cons, List.not_mem_nil, or_false] at hkey
    rcases hkey with rfl | rfl | rfl | rfl | rfl <;>
      rw [getD_standAlone (by decide) (by decide), lookup_own, lookup_own]
    case inr.inr.inr.inr =>
      rw [if_neg (by decide), if_pos (by decide), Option.none_or]
      exact htools
    all_goals
      rw [if_pos (by decide), if_neg (by decide), Option.or_none]
      rfl
  servers := by
    refine ⟨_, mcp, rfl, ?_, ?_⟩
    · rw [getD_standAlone (by decide) (by decide), lookup_own, lookup_own]
      simpa [getD] using hmcp
    · rw [getD_cons_self, hservers]
  agents := by
    refine ⟨_, _, rfl, rfl, ?_⟩
    rw [getD_cons_self, getD_own (by decide)]

theorem workflowUnit_eq_ok {value fleetDefaults : Yaml} {unit : GraphIr × Option CronSpec}
    (h : workflowUnit py fleetDefaults catalogs (uid, value) = .ok unit) :
    ∃ wf defaults ir, value = .dict wf ∧ fleetDefaults = .dict defaults ∧
      compileGraphYaml py.toBuiltins (bundleDoc defaults catalogs uid wf) = .ok ir ∧
      unit.1 = { ir with workflowId := .str uid, version := .str (py.str ir.version) } := by
  obtain ⟨wf, hwf, hmore⟩ := bind_eq_ok.mp h
  obtain ⟨defaults, hdefaults, hcompile⟩ := bind_eq_ok.mp hmore
  obtain ⟨ir, hir, hcron⟩ := bind_eq_ok.mp hcompile
  obtain ⟨cron, -, hunit⟩ := bind_eq_ok.mp hcron
  cases hunit
  refine ⟨wf, defaults, ir, ?_, ?_, hir, rfl⟩
  · cases value <;> cases hwf
    rfl
  · cases fleetDefaults <;> cases hdefaults
    rfl

theorem bundleDoc_eq_ok {ir : GraphIr}
    (h : compileGraphYaml py.toBuiltins (bundleDoc defaults catalogs uid wf) = .ok ir) :
    ir.workflowId = .str uid ∧ ir.version = versionOf defaults wf ∧ ir.policy = none := by
  unfold compileGraphYaml at h
  obtain ⟨rawNodes, -, h⟩ := bind_eq_ok.mp h
  obtain ⟨⟨nodes, edges⟩, -, h⟩ := bind_eq_ok.mp h
  obtain ⟨policy, hpolicy, h⟩ := bind_eq_ok.mp h
  obtain ⟨header, hheader, h⟩ := bind_eq_ok.mp h
  obtain ⟨agent, -, h⟩ := bind_eq_ok.mp h
  obtain ⟨stateSchema, -, h⟩ := bind_eq_ok.mp h
  obtain ⟨mcp, -, h⟩ := bind_eq_ok.mp h
  obtain ⟨a2a, -, h⟩ := bind_eq_ok.mp h
  cases h
  cases hheader
  have hnull : get (bundleDoc defaults catalogs uid wf) "policy" = .null := rfl
  rw [hnull, compilePolicy_eq_none.mpr rfl] at hpolicy
  cases hpolicy
  exact ⟨rfl, rfl, rfl⟩

theorem get_standAlone_policy (data wf : Members) (uid : String) :
    get (standAlone data uid wf) "policy" = get wf "policy" := by
  unfold GraphYaml.get
  rw [getD_standAlone (by decide) (by decide), lookup_own, lookup_own, if_pos (by decide),
    if_neg (by decide), Option.or_none]
  rfl

theorem unit_alone_iff (hstr : ∀ text, py.str (.str text) = text)
    (hdefaults : getD data "defaults" (.dict []) = .dict defaults) {ir alone : GraphIr}
    (h : compileGraphYaml py.toBuiltins (bundleDoc defaults catalogs uid wf) = .ok ir)
    (hsame : SameButPolicy (bundleDoc defaults catalogs uid wf) (standAlone data uid wf))
    (halone : alone = { ir with workflowId := .str uid, version := .str (py.str ir.version) }) :
    (compileGraphYaml py.toBuiltins (standAlone data uid wf) = .ok alone ↔ Plain data wf) ∧
      (compilePolicy py.toBuiltins (get wf "policy") "workflow-level policy" = .ok alone.policy ↔
        get wf "policy" = .null) := by
  obtain ⟨hid, hversion, hpolicy⟩ := bundleDoc_eq_ok h
  subst halone
  refine ⟨?_, by rw [hpolicy, compilePolicy_eq_none]⟩
  rw [compileGraphYaml_of_same hsame h, get_standAlone_policy, map_eq_ok]
  constructor
  · rintro ⟨policy, hcompiled, hir⟩
    have hnone : policy = none := (congrArg GraphIr.policy hir).trans hpolicy
    have htext : ir.version = .str (py.str ir.version) := congrArg GraphIr.version hir
    refine ⟨compilePolicy_eq_none.mp (hnone ▸ hcompiled), fun d hd => ⟨py.str ir.version, ?_⟩⟩
    obtain rfl : defaults = d := Yaml.dict.inj (hdefaults.symm.trans hd)
    exact hversion.symm.trans htext
  · rintro ⟨hnull, htext⟩
    obtain ⟨text, htext⟩ := htext defaults hdefaults
    refine ⟨none, compilePolicy_eq_none.mpr hnull, ?_⟩
    rw [← hpolicy, ← hid, hversion, htext, hstr, ← htext, ← hversion]

/-- Each workflow of a fleet has its IR in the bundle, which is that of the workflow alone when the
workflow has no policy and its version is a text; the policy is lost whenever there is one. -/
theorem bundle_alone_iff (hstr : ∀ text, py.str (.str text) = text) {bundle : CompiledBundle α}
    (h : compileBundle py compileAgentUnit walk data = .ok bundle) {agents workflows : Members}
    (hagents : unitsOf data "agents" = .ok agents)
    (hworkflows : unitsOf data "workflows" = .ok workflows) {i : ℕ} {value : Yaml}
    (hunit : workflows[i]? = some (uid, value)) :
    ∃ wf ir, value = .dict wf ∧ bundle.workflows[agents.length + i]? = some (.graph ir) ∧
      (compileGraphYaml py.toBuiltins (standAlone data uid wf) = .ok ir ↔ Plain data wf) ∧
      (compilePolicy py.toBuiltins (get wf "policy") "workflow-level policy" = .ok ir.policy ↔
        get wf "policy" = .null) := by
  unfold compileBundle at h
  obtain ⟨mcp, hmcp, h⟩ := bind_eq_ok.mp h
  obtain ⟨_, ha, h⟩ := bind_eq_ok.mp h
  obtain ⟨_, hw, h⟩ := bind_eq_ok.mp h
  cases hagents.symm.trans ha
  cases hworkflows.symm.trans hw
  obtain ⟨_, -, h⟩ := bind_eq_ok.mp h
  obtain ⟨agentUnits, hagentUnits, h⟩ := bind_eq_ok.mp h
  obtain ⟨workflowUnits, hworkflowUnits, h⟩ := bind_eq_ok.mp h
  obtain ⟨_, -, h⟩ := bind_eq_ok.mp h
  cases h
  have hlength : agentUnits.length = agents.length := (forall₂_of_mapM hagentUnits).length_eq.symm
  obtain ⟨hlengths, hget⟩ := List.forall₂_iff_get.mp (forall₂_of_mapM hworkflowUnits)
  obtain ⟨hi, hentry⟩ := List.getElem?_eq_some_iff.mp hunit
  have hcompiled := hget i hi (hlengths ▸ hi)
  rw [List.get_eq_getElem, List.get_eq_getElem, hentry] at hcompiled
  obtain ⟨wf, defaults, ir, rfl, hdefaults, hir, hfinal⟩ := workflowUnit_eq_ok hcompiled
  have hmcp : getD data "mcp" (.dict []) = .dict mcp := by
    cases hvalue : getD data "mcp" (.dict []) <;> simp_all [Yaml.members]
  refine ⟨wf, _, rfl, ?_,
    unit_alone_iff hstr hdefaults hir (sameButPolicy hdefaults hmcp rfl rfl) hfinal⟩
  rw [List.getElem?_append_right (by simp [hlength]), List.length_map, hlength,
    Nat.add_sub_cancel_left, List.getElem?_map, List.getElem?_eq_getElem (hlengths ▸ hi)]
  rfl

end Units

section Documents

/-- Only strings have a text. -/
def plainTexts : Texts where
  str value := match value with
    | .str s => s
    | _ => ""
  repr _ := ""
  typeName _ := ""
  strip s := s
  int _ := none
  dumps _ := none
  split _ := []

/-- A fleet without agents has no use for their compiler. -/
def noAgents (_ : String) (_ : Members) (_ : Yaml) (_ : Catalogs) :
    Except YamlError (AgentIr Unit) := .error .typeError

/-- A workflow of one step. -/
def stepWorkflow : Members :=
  [("version", .str "1.0.0"), ("nodes", .dict [("deploy", .dict [("type", .str "tool")])])]

/-- A fleet of one workflow. -/
def fleetOf (wf : Members) : Members := [("workflows", .dict [("release", .dict wf)])]

theorem bundle_alone_stepWorkflow : ∃ bundle,
    compileBundle plainTexts noAgents HashOrder.sorted (fleetOf stepWorkflow) = .ok bundle ∧
      ∃ wf ir, Yaml.dict stepWorkflow = .dict wf ∧ bundle.workflows[0 + 0]? = some (.graph ir) ∧
        (compileGraphYaml plainTexts.toBuiltins (standAlone (fleetOf stepWorkflow) "release" wf) =
          .ok ir ↔ Plain (fleetOf stepWorkflow) wf) ∧
        (compilePolicy plainTexts.toBuiltins (get wf "policy") "workflow-level policy" =
          .ok ir.policy ↔ get wf "policy" = .null) :=
  ⟨_, rfl, bundle_alone_iff (fun _ => rfl)
    (show compileBundle plainTexts noAgents HashOrder.sorted (fleetOf stepWorkflow) = _ from rfl)
    rfl rfl rfl⟩

/-- The same with a tool blocked. -/
def guardedWorkflow : Members :=
  ("policy", .dict [("blocked_tools", .list [.str "deploy"])]) :: stepWorkflow

/-- In the fleet the tool is not blocked. -/
theorem policy_lost : ∃ bundle ir alone,
    compileBundle plainTexts noAgents HashOrder.sorted (fleetOf guardedWorkflow) = .ok bundle ∧
      bundle.workflows = [.graph ir] ∧
      compileGraphYaml plainTexts.toBuiltins
        (standAlone (fleetOf guardedWorkflow) "release" guardedWorkflow) = .ok alone ∧
      alone.policy = some ⟨[.str "deploy"], [], [], none, none⟩ ∧ ir.policy = none ∧ ir ≠ alone := by
  refine ⟨_, _, _, rfl, rfl, rfl, rfl, rfl, fun h => ?_⟩
  cases congrArg GraphIr.policy h

end Documents

end JamJet.Fleet
