import JamJet.JavaText
import JamJet.LimitRuns
import JamJet.ValidateRules

/-! The validator of the Java SDK beside that of the runtime: the same five passes, over an IR of
maps. -/

namespace JamJet.JavaValidator

open Relation

/-! ### The validator -/

/-- The fields of the record `WorkflowIr` that are validated; `none` is null. -/
structure WorkflowIr where
  id : Option String
  version : Option String
  startNode : Option String
  nodes : Option JsonMap
  edges : Option (List JsonMap)
  models : Option JsonMap
  tools : Option JsonMap
  mcpServers : Option JsonMap
  remoteAgents : Option JsonMap

def isBlank (s : String) : Bool := JavaText.isBlank s.toList

def containsKey (m : JsonMap) (key : String) : Bool := (BTree.get m key).isSome

/-- A map, if the value is one. -/
def asMap : Json → Option JsonMap
  | .object fields => some fields
  | _ => none

section Passes

variable (toText : Json → String)

/-- A field as a text, unless it is missing or null. -/
def stringField (m : JsonMap) (field : String) : Option String :=
  match BTree.get m field with
  | none | some .null => none
  | some (.string s) => some s
  | some v => some (toText v)

variable (ir : WorkflowIr)

def partError (version part : String) : Option String :=
  match JavaText.parseUnsignedInt part.toList with
  | none => some ("Invalid version '" ++ version ++ "': '" ++ part ++ "' is not a valid integer")
  | some n =>
      if n < 0 then some ("Invalid version '" ++ version ++ "': parts must be non-negative integers")
      else none

def versionErrors (version : String) : List String :=
  let parts := (JavaText.split '.' version.toList).map String.ofList
  if parts.length ≠ 3 then ["Invalid version '" ++ version ++ "': must be semver (e.g. 0.1.0)"]
  else (parts.findSome? (partError version)).toList

def validateMetadata : List String :=
  (if ir.id.all isBlank then ["workflow_id is empty"] else []) ++
    if ir.version.all isBlank then ["version is empty"] else versionErrors (ir.version.getD "")

def validateStartNode : List String :=
  if ir.startNode.all isBlank then ["start_node is empty"]
  else
    let start := ir.startNode.getD ""
    if ir.nodes.any fun nodes => containsKey nodes start then []
    else ["start_node '" ++ start ++ "' does not exist in nodes"]

/-- A text in a message. -/
def shown (s : Option String) : String := s.getD "null"

def edgeError (nodes edge : JsonMap) : Option String :=
  let source := shown (stringField toText edge "from")
  match stringField toText edge "to" with
  | none => some ("Edge from '" ++ source ++ "' has null target")
  | some target =>
      if target ≠ "end" ∧ containsKey nodes target = false then
        some ("Edge target '" ++ target ++ "' (from '" ++ source ++ "') does not exist in nodes")
      else none

def validateEdges : List String :=
  match ir.edges, ir.nodes with
  | some edges, some nodes => edges.filterMap (edgeError toText nodes)
  | _, _ => []

/-- The kind of a node, if it is a map. -/
def kindOf (nodes : JsonMap) (id : String) : Option JsonMap :=
  (((BTree.get nodes id).bind asMap).bind fun node => BTree.get node "kind").bind asMap

def hasType (kind : JsonMap) (type : String) : Bool :=
  match BTree.get kind "type" with
  | some (.string s) => s = type
  | _ => false

/-- The targets of a condition's branches, as far as they are texts. -/
def branchTargets (nodes : JsonMap) (id : String) : List String :=
  match (kindOf nodes id).filter fun kind => hasType kind "condition" with
  | none => []
  | some kind =>
      match BTree.get kind "branches" with
      | some (.array branches) =>
          branches.filterMap fun branch => ((asMap branch).bind fun b => BTree.get b "target").bind
            Json.asStr
      | _ => []

/-- Where the search goes on from a node: along the edges, then along its branches. -/
def successors (nodes : JsonMap) (edges : List JsonMap) (current : String) : List String :=
  ((edges.filter fun edge => stringField toText edge "from" = some current).filterMap
    fun edge => stringField toText edge "to") ++ branchTargets nodes current

/-- The loop ends with the queue: every round takes a node off it that is put there once. -/
def visited (nodes : JsonMap) (edges : List JsonMap) (start : String) : Finset String :=
  GraphSearch.search (fun id => (successors toText nodes edges id).filter (· ≠ "end"))
    (edges.length + (nodes.map fun kv => (branchTargets nodes kv.1).length).sum + 1)
    ({start}, [start])

def unreachableError (nodes : JsonMap) (visited : Finset String) (start id : String) :
    Option String :=
  if id ∈ visited then none
  else if (kindOf nodes id).any fun kind => hasType kind "limit_exceeded" then none
  else some ("Node '" ++ id ++ "' is unreachable from start_node '" ++ start ++ "'")

def validateReachability : List String :=
  match ir.nodes, ir.edges, ir.startNode with
  | some nodes, some edges, some start =>
      if containsKey nodes start then
        (nodes.map (·.1)).filterMap
          (unreachableError nodes (visited toText nodes edges start) start)
      else []
  | _, _, _ => []

/-- A reference is looked up in a map that has something in it. -/
def refError (kind : JsonMap) (field : String) (names : Option JsonMap) (id what : String) :
    Option String :=
  match stringField toText kind field, names.filter fun m => !m.isEmpty with
  | some ref, some names =>
      if containsKey names ref then none
      else some ("Node '" ++ id ++ "' references unknown " ++ what ++ " '" ++ ref ++ "'")
  | _, _ => none

def nodeRefError (nodes : JsonMap) (id : String) : Option String :=
  match kindOf nodes id with
  | none => none
  | some kind =>
      match shown (stringField toText kind "type") with
      | "tool" => refError toText kind "tool_ref" ir.tools id "tool"
      | "model" => refError toText kind "model_ref" ir.models id "model"
      | "mcp_tool" => refError toText kind "server" ir.mcpServers id "MCP server"
      | "a2a_task" => refError toText kind "remote_agent" ir.remoteAgents id "remote agent"
      | _ => none

def validateRefs : List String :=
  match ir.nodes with
  | some nodes => (nodes.map (·.1)).filterMap (nodeRefError toText ir nodes)
  | none => []

/-- All errors there are. -/
def validate : List String :=
  validateMetadata ir ++ validateStartNode ir ++ validateEdges toText ir ++
    validateReachability toText ir ++ validateRefs toText ir

end Passes

/-! ### One IR on both sides -/

/-- The name of a kind. -/
def tag (k : Ir.NodeKind) : String := nodeKindTag k.scheduled

/-- A map that is read as this kind, as far as it is validated. -/
def ReadsAs (kind : JsonMap) (k : Ir.NodeKind) : Prop :=
  BTree.get kind "type" = some (.string (tag k)) ∧
    match k with
    | .tool ref => BTree.get kind "tool_ref" = some (.string ref)
    | .model ref _ _ => BTree.get kind "model_ref" = some (.string ref)
    | .mcpTool server => BTree.get kind "server" = some (.string server)
    | .a2aTask remoteAgent => BTree.get kind "remote_agent" = some (.string remoteAgent)
    | .condition branches => ∃ written, BTree.get kind "branches" = some (.array written) ∧
        List.Forall₂ (fun w (b : ConditionalBranch) => w.get "target" = some (.string b.target))
          written branches
    | _ => True

/-- The names of a map. -/
def Named (m : Option JsonMap) (names : String → Prop) : Prop :=
  ∃ fields, m = some fields ∧ ∀ name, (BTree.get fields name).isSome = true ↔ names name

/-- The runtime reads the IR of maps as this one. -/
structure SameIr (j : WorkflowIr) (r : Ir.WorkflowIr) : Prop where
  id : j.id = some r.workflowId
  version : j.version = some r.version
  startNode : j.startNode = some r.startNode
  nodes : Named j.nodes (· ∈ r.nodes)
  kinds : ∀ nodes id node, j.nodes = some nodes → r.nodes.lookup id = some node →
    ∃ kind, kindOf nodes id = some kind ∧ ReadsAs kind node.kind
  edges : ∃ edges, j.edges = some edges ∧ List.Forall₂ (fun e (edge : Ir.EdgeDef) =>
    BTree.get e "from" = some (.string edge.src) ∧ BTree.get e "to" = some (.string edge.dst))
      edges r.edges
  models : Named j.models (· ∈ r.models)
  tools : Named j.tools (· ∈ r.tools)
  mcpServers : Named j.mcpServers (· ∈ r.mcpServers)
  remoteAgents : Named j.remoteAgents (· ∈ r.remoteAgents)

/-! ### What the passes look for -/

section Rules

/-- Three parts, each a number below the bound in these digits, with or without a plus sign. -/
def Spells (digit : Char → Option ℕ) (bound : ℕ) (version : List Char) : Prop :=
  ∃ a b c, version = a ++ '.' :: (b ++ '.' :: c) ∧
    ∀ part ∈ [a, b, c], ∃ n, JavaText.unsigned digit part = some n ∧ n < bound

/-- ASCII digits, with room in 32 bits. -/
def ServerVersion (version : String) : Prop :=
  Spells JavaText.asciiDigit (2 ^ 32) version.toList

/-- Digits of any script, with room in 31 bits, and dots behind them. -/
def ClientVersion (version : String) : Prop :=
  ∃ v k, version.toList = v ++ List.replicate k '.' ∧ Spells JavaText.digit (2 ^ 31) v

variable (r : Ir.WorkflowIr)

/-- What both validators ask for. -/
structure Resolved : Prop where
  id : r.workflowId ≠ ""
  named : r.startNode ≠ ""
  start : r.startNode ∈ r.nodes
  edges : ∀ edge ∈ r.edges, edge.dst ∈ r.nodes ∨ edge.dst = "end"
  refs : ∀ id node, r.nodes.lookup id = some node → Ir.RefResolves r node.kind

/-- An edge that does not end the run. -/
def Follows (a b : NodeId) : Prop := b ≠ "end" ∧ r.Leads a b

/-- A branch of a condition names the other node. -/
def Branches (a b : NodeId) : Prop :=
  ∃ node branches, r.nodes.lookup a = some node ∧ node.kind = .condition branches ∧
    ∃ branch ∈ branches, branch.target = b

/-- An edge or a branch. -/
def FollowsBranch (a b : NodeId) : Prop := b ≠ "end" ∧ (r.Leads a b ∨ Branches r a b)

def Reached : Prop := ∀ id ∈ r.nodes, ReflTransGen (Follows r) r.startNode id

def ReachedThroughBranches : Prop := ∀ id ∈ r.nodes, ReflTransGen (FollowsBranch r) r.startNode id

def Spaced : Prop := isBlank r.workflowId = true ∨ isBlank r.startNode = true

/-- The five passes of the runtime. -/
structure RuntimeAccepts (walk : HashOrder NodeId) : Prop where
  metadata : Ir.validateMetadata r = .ok ()
  startNode : Ir.validateStartNode r = .ok ()
  edges : Ir.validateEdges r = .ok ()
  reachability : Ir.validateReachability walk r = .ok ()
  refs : Ir.validateRefs walk r = .ok ()

end Rules

/-! ### What the runtime accepts -/

section Runtime

variable {r : Ir.WorkflowIr} {walk : HashOrder NodeId}

theorem digits_ascii {s : List Char} {m : ℕ} :
    JavaText.digits JavaText.asciiDigit m s =
      if s.all Char.isDigit then some (Nat.ofDigitChars 10 s m) else none := by
  induction s generalizing m with
  | nil => rfl
  | cons c s ih =>
    rw [JavaText.digits, JavaText.asciiDigit]
    cases hc : c.isDigit with
    | false => simp [hc]
    | true =>
      simp only [if_true, Option.bind_some, ih, List.all_cons, hc, Bool.true_and]
      rfl

theorem magnitude_ascii (s : List Char) : JavaText.magnitude JavaText.asciiDigit s =
    if !s.isEmpty && s.all Char.isDigit then some (Nat.ofDigitChars 10 s 0) else none := by
  rw [JavaText.magnitude, digits_ascii]
  cases s.isEmpty <;> rfl

theorem parseU32_isSome {s : List Char} : (Condition.parseU32 s).isNone = false ↔
    ∃ n, JavaText.unsigned JavaText.asciiDigit s = some n ∧ n < 2 ^ 32 := by
  have hmagnitude : ∀ ds : List Char, ((if !ds.isEmpty && ds.all Char.isDigit &&
      Nat.ofDigitChars 10 ds 0 < 2 ^ 32 then some (Nat.ofDigitChars 10 ds 0) else none).isNone =
        false ↔ ∃ n, JavaText.magnitude JavaText.asciiDigit ds = some n ∧ n < 2 ^ 32) := by
    intro ds
    rw [magnitude_ascii]
    cases hds : !ds.isEmpty && ds.all Char.isDigit with
    | false => simp
    | true =>
      by_cases hroom : Nat.ofDigitChars 10 ds 0 < 2 ^ 32
      · simp only [hroom, decide_true, Bool.and_true, if_true, Option.isNone_some, true_iff]
        exact ⟨_, rfl, hroom⟩
      · simp only [hroom, decide_false, Bool.and_false, Bool.false_eq_true, if_false, if_true,
          Option.isNone_none, Bool.true_eq_false, false_iff]
        rintro ⟨n, hn, hlt⟩
        cases hn
        exact hroom hlt
  by_cases hplus : ∃ rest, s = '+' :: rest
  · obtain ⟨rest, rfl⟩ := hplus
    exact hmagnitude rest
  · have hjava : JavaText.unsigned JavaText.asciiDigit s =
        JavaText.magnitude JavaText.asciiDigit s := by
      unfold JavaText.unsigned
      split
      · exact absurd ⟨_, rfl⟩ hplus
      · rfl
    rw [hjava, ← hmagnitude]
    unfold Condition.parseU32
    split
    · exact absurd ⟨_, rfl⟩ hplus
    · rfl

theorem spells_splitOn {digit : Char → Option ℕ} {bound : ℕ} {v : List Char}
    (hdot : digit '.' = none) : Spells digit bound v ↔ (v.splitOn '.').length = 3 ∧
      ∀ part ∈ v.splitOn '.', ∃ n, JavaText.unsigned digit part = some n ∧ n < bound := by
  constructor
  · rintro ⟨a, b, c, rfl, hparts⟩
    have hfree : ∀ part ∈ [a, b, c], '.' ∉ part := by
      intro part hpart
      obtain ⟨n, hn, -⟩ := hparts part hpart
      exact JavaText.not_mem_of_unsigned hdot (by decide) hn
    have hsplit : (a ++ '.' :: (b ++ '.' :: c)).splitOn '.' = [a, b, c] := by
      rw [List.splitOn_append_cons_self_of_not_mem (hfree a (by simp)),
        List.splitOn_append_cons_self_of_not_mem (hfree b (by simp)),
        List.splitOn_eq_singleton (hfree c (by simp))]
    rw [hsplit]
    exact ⟨rfl, hparts⟩
  · rintro ⟨hlength, hparts⟩
    obtain ⟨a, b, c, hsplit, rfl⟩ := SemVer.exists_parts hlength
    rw [hsplit] at hparts
    exact ⟨a, b, c, rfl, hparts⟩

theorem validateMetadata_iff : Ir.validateMetadata r = .ok () ↔
    r.workflowId ≠ "" ∧ ServerVersion r.version := by
  unfold Ir.validateMetadata ServerVersion
  rw [spells_splitOn (by decide)]
  by_cases hid : r.workflowId = ""
  · simp [hid]
  · rw [if_neg (by simpa using hid), Ir.refuse_eq_ok, not_or, not_ne_iff]
    refine (and_congr_right fun _ => ?_).trans (and_iff_right hid).symm
    simp only [List.any_eq_true, not_exists, not_and, Bool.not_eq_true, ← parseU32_isSome]

theorem validateReachability_iff : Ir.validateReachability walk r = .ok () ↔ Reached r := by
  unfold Ir.validateReachability Reached
  rw [Ir.entries_forM_eq_ok]
  have hedge : GraphSearch.Edge (fun id => (r.successors id).filter (· ≠ "end")) = Follows r := by
    funext a b
    simp [GraphSearch.Edge, Follows, Ir.WorkflowIr.Leads, and_comm]
  have hone : ∀ id, (if id ∉ Ir.visited r then Except.error (Ir.IrError.unreachableNode id)
      else .ok () : Ir.IrResult) = .ok () ↔ ReflTransGen (Follows r) r.startNode id := by
    intro id
    rw [Ir.refuse_eq_ok, not_not, Ir.mem_visited_iff, hedge]
  simp only [hone]
  constructor
  · intro h id hid
    obtain ⟨node, hnode⟩ := Ir.WorkflowIr.mem_keys.mp (Finmap.mem_keys.mpr hid)
    exact h id node hnode
  · exact fun h id node hnode => h id (Finmap.mem_of_lookup_eq_some hnode)

theorem runtimeAccepts_iff : RuntimeAccepts r walk ↔
    Resolved r ∧ ServerVersion r.version ∧ Reached r := by
  constructor
  · intro h
    obtain ⟨hid, hversion⟩ := validateMetadata_iff.mp h.metadata
    obtain ⟨hnamed, hstart⟩ := Ir.validateStartNode_iff.mp h.startNode
    exact ⟨⟨hid, hnamed, hstart, Ir.validateEdges_iff.mp h.edges, Ir.validateRefs_iff.mp h.refs⟩, hversion,
      validateReachability_iff.mp h.reachability⟩
  · rintro ⟨h, hversion, hreached⟩
    exact ⟨validateMetadata_iff.mpr ⟨h.id, hversion⟩, Ir.validateStartNode_iff.mpr ⟨h.named, h.start⟩,
      Ir.validateEdges_iff.mpr h.edges, validateReachability_iff.mpr hreached,
      Ir.validateRefs_iff.mpr h.refs⟩

end Runtime

/-! ### What the SDK accepts -/

section Client

variable {toText : Json → String} {j : WorkflowIr} {r : Ir.WorkflowIr}

theorem partError_eq_none {version : String} {part : List Char} :
    partError version (String.ofList part) = none ↔
      ∃ n, JavaText.unsigned JavaText.digit part = some n ∧ n < 2 ^ 31 := by
  rw [← JavaText.parseUnsignedInt_nonneg, partError, String.toList_ofList]
  cases JavaText.parseUnsignedInt part with
  | none => simp
  | some n =>
    by_cases hn : n < 0
    · simp [hn, not_le.mpr hn]
    · simp [hn, not_lt.mp hn]

theorem split_spelled {v : List Char} {k : ℕ} (h : Spells JavaText.digit (2 ^ 31) v) :
    ∃ a b c, JavaText.split '.' (v ++ List.replicate k '.') = [a, b, c] ∧
      ∀ part ∈ [a, b, c], ∃ n, JavaText.unsigned JavaText.digit part = some n ∧ n < 2 ^ 31 := by
  obtain ⟨a, b, c, rfl, hparts⟩ := h
  have hfree : ∀ part ∈ [a, b, c], '.' ∉ part ∧ part ≠ [] := by
    intro part hpart
    obtain ⟨n, hn, -⟩ := hparts part hpart
    exact ⟨JavaText.not_mem_of_unsigned JavaText.digit_dot (by decide) hn,
      JavaText.ne_nil_of_unsigned hn⟩
  refine ⟨a, b, c, ?_, hparts⟩
  have hsplit := JavaText.split_eq_three (hfree a (by simp)).1 (hfree b (by simp)).1
    (hfree c (by simp)).1 (hfree c (by simp)).2 k
  rw [← hsplit]
  simp only [List.append_assoc, List.cons_append]

theorem versionErrors_eq_nil {version : String} :
    versionErrors version = [] ↔ ClientVersion version := by
  unfold versionErrors
  dsimp only
  constructor
  · intro h
    split at h
    · cases h
    · next hlength =>
      rw [List.length_map, not_not] at hlength
      obtain ⟨a, b, c, hsplit⟩ := List.length_eq_three.mp hlength
      obtain ⟨k, hversion⟩ := JavaText.exists_of_split hsplit
      refine ⟨a ++ '.' :: (b ++ '.' :: c), k, by simpa using hversion, a, b, c, rfl, ?_⟩
      intro part hpart
      have hnone := Option.toList_eq_nil_iff.mp h
      rw [hsplit, List.findSome?_eq_none_iff] at hnone
      exact partError_eq_none.mp (hnone _ (List.mem_map_of_mem hpart))
  · rintro ⟨v, k, hversion, hspells⟩
    obtain ⟨a, b, c, hsplit, hparts⟩ := split_spelled (k := k) hspells
    rw [hversion, hsplit, if_neg (by simp), Option.toList_eq_nil_iff, List.findSome?_eq_none_iff]
    intro part hpart
    obtain ⟨p, hp, rfl⟩ := List.mem_map.mp hpart
    exact partError_eq_none.mpr (hparts p hp)

theorem not_blank_of_clientVersion {version : String} (h : ClientVersion version) :
    isBlank version = false := by
  obtain ⟨v, k, hversion, a, b, c, rfl, -⟩ := h
  have hdot : '.' ∈ version.toList := by
    rw [hversion]
    simp
  rw [isBlank, JavaText.isBlank, List.all_eq_false]
  exact ⟨'.', hdot, by decide⟩

theorem validateMetadata_eq_nil (same : SameIr j r) : validateMetadata j = [] ↔
    isBlank r.workflowId = false ∧ ClientVersion r.version := by
  unfold validateMetadata
  rw [same.id, same.version, List.append_eq_nil_iff]
  refine and_congr ?_ ?_
  · cases hid : isBlank r.workflowId <;> simp [hid]
  · cases hblank : isBlank r.version with
    | true =>
      refine iff_of_false (by simp [hblank]) fun h => ?_
      rw [not_blank_of_clientVersion h] at hblank
      cases hblank
    | false => simp [hblank, versionErrors_eq_nil]

theorem mem_keys_of_isSome {m : JsonMap} {key : String} (h : (BTree.get m key).isSome = true) :
    key ∈ m.map (·.1) := by
  obtain ⟨v, hv⟩ := Option.isSome_iff_exists.mp h
  obtain ⟨kv, hkv, -⟩ := Option.map_eq_some_iff.mp hv
  have hkey : kv.1 = key := by simpa using List.find?_some hkv
  exact hkey ▸ List.mem_map_of_mem (List.mem_of_find?_eq_some hkv)

theorem isSome_of_mem_keys {m : JsonMap} {key : String} (h : key ∈ m.map (·.1)) :
    (BTree.get m key).isSome = true := by
  obtain ⟨kv, hkv, rfl⟩ := List.mem_map.mp h
  rw [BTree.get, Option.isSome_map, List.find?_isSome]
  exact ⟨kv, hkv, beq_self_eq_true kv.1⟩

theorem containsKey_nodes (same : SameIr j r) {nodes : JsonMap} (hnodes : j.nodes = some nodes)
    {id : String} : containsKey nodes id = true ↔ id ∈ r.nodes := by
  obtain ⟨nodes', hnodes', hkeys⟩ := same.nodes
  cases hnodes.symm.trans hnodes'
  exact hkeys id

theorem validateStartNode_eq_nil (same : SameIr j r) : validateStartNode j = [] ↔
    isBlank r.startNode = false ∧ r.startNode ∈ r.nodes := by
  obtain ⟨nodes, hnodes, -⟩ := same.nodes
  unfold validateStartNode
  rw [same.startNode, hnodes]
  cases hblank : isBlank r.startNode with
  | true => simp [hblank]
  | false =>
    rw [← containsKey_nodes same hnodes]
    simp [hblank]

theorem stringField_of_string {m : JsonMap} {field s : String}
    (h : BTree.get m field = some (.string s)) : stringField toText m field = some s := by
  rw [stringField, h]

theorem edgeError_eq_none (same : SameIr j r) {nodes : JsonMap} (hnodes : j.nodes = some nodes)
    {e : JsonMap} {edge : Ir.EdgeDef} (hto : BTree.get e "to" = some (.string edge.dst)) :
    edgeError toText nodes e = none ↔ edge.dst ∈ r.nodes ∨ edge.dst = "end" := by
  rw [← containsKey_nodes same hnodes, edgeError, stringField_of_string hto]
  dsimp only
  split
  · next h => simp [h]
  · next h =>
    rw [not_and_or, not_not] at h
    refine iff_of_true rfl (h.symm.imp ?_ id)
    simp

theorem validateEdges_eq_nil (same : SameIr j r) : validateEdges toText j = [] ↔
    ∀ edge ∈ r.edges, edge.dst ∈ r.nodes ∨ edge.dst = "end" := by
  obtain ⟨nodes, hnodes, -⟩ := same.nodes
  obtain ⟨edges, hedges, hread⟩ := same.edges
  unfold validateEdges
  rw [hnodes, hedges]
  dsimp only
  rw [List.filterMap_eq_nil_iff]
  clear hedges
  generalize r.edges = targets at hread ⊢
  induction hread with
  | nil => simp
  | cons hedge _ ih =>
    rw [List.forall_mem_cons, List.forall_mem_cons, ih, edgeError_eq_none same hnodes hedge.2]

theorem hasType_iff {kind : JsonMap} {k : Ir.NodeKind} (h : ReadsAs kind k) {type : String} :
    hasType kind type = true ↔ tag k = type := by
  rw [hasType, h.1]
  simp

theorem kindOf_eq_none (same : SameIr j r) {nodes : JsonMap} (hnodes : j.nodes = some nodes)
    {id : String} (h : r.nodes.lookup id = none) : kindOf nodes id = none := by
  have hget : BTree.get nodes id = none := by
    cases hget : BTree.get nodes id with
    | none => rfl
    | some v =>
      have hmem : id ∈ r.nodes :=
        (containsKey_nodes same hnodes).mp (by rw [containsKey, hget]; rfl)
      exact absurd hmem (Finmap.lookup_eq_none.mp h)
  rw [kindOf, hget]
  rfl

theorem mem_targets {written : List Json} {branches : List ConditionalBranch} {b : NodeId}
    (h : List.Forall₂ (fun w (b : ConditionalBranch) => w.get "target" = some (.string b.target))
      written branches) :
    b ∈ written.filterMap (fun branch => ((asMap branch).bind fun m => BTree.get m "target").bind
      Json.asStr) ↔ ∃ branch ∈ branches, branch.target = b := by
  induction h with
  | nil => simp
  | @cons w branch written branches hw _ ih =>
    have hread : (((asMap w).bind fun m => BTree.get m "target").bind Json.asStr) =
        some branch.target := by
      cases w with
      | object fields =>
        rw [Json.get] at hw
        simp only [asMap, Option.bind_some, hw]
        rfl
      | _ => cases hw
    simp only [List.filterMap_cons, hread, List.mem_cons, ih]
    simp [eq_comm]

theorem mem_branchTargets (same : SameIr j r) {nodes : JsonMap} (hnodes : j.nodes = some nodes)
    {a b : NodeId} : b ∈ branchTargets nodes a ↔ Branches r a b := by
  unfold branchTargets Branches
  cases hlookup : r.nodes.lookup a with
  | none =>
    rw [kindOf_eq_none same hnodes hlookup]
    simp
  | some node =>
    obtain ⟨kind, hkind, hreads⟩ := same.kinds nodes a node hnodes hlookup
    rw [hkind]
    by_cases hcondition : ∃ branches, node.kind = .condition branches
    · obtain ⟨branches, hbranches⟩ := hcondition
      rw [hbranches] at hreads
      have htype : hasType kind "condition" = true := (hasType_iff hreads).mpr rfl
      obtain ⟨written, hwritten, hall⟩ := hreads.2
      simp only [Option.filter_some, htype, if_true, hwritten, mem_targets hall]
      constructor
      · exact fun h => ⟨node, branches, rfl, hbranches, h⟩
      · rintro ⟨node', branches', hnode', hkind', h⟩
        cases hnode'
        rw [hbranches] at hkind'
        cases hkind'
        exact h
    · have htype : hasType kind "condition" = false := by
        rw [Bool.eq_false_iff, ne_eq, hasType_iff hreads]
        cases hk : node.kind
        case condition branches => exact absurd ⟨branches, hk⟩ hcondition
        all_goals simp [tag, nodeKindTag, Ir.NodeKind.scheduled]
      simp only [Option.filter_some, htype, Bool.false_eq_true, if_false, List.not_mem_nil,
        false_iff]
      rintro ⟨node', branches, hnode', hbranches, -⟩
      cases hnode'
      exact hcondition ⟨branches, hbranches⟩

theorem mem_edgeTargets {edges : List JsonMap} {targets : List Ir.EdgeDef}
    (h : List.Forall₂ (fun e (edge : Ir.EdgeDef) =>
      BTree.get e "from" = some (.string edge.src) ∧ BTree.get e "to" = some (.string edge.dst))
        edges targets) {a b : NodeId} :
    b ∈ (edges.filter fun edge => stringField toText edge "from" = some a).filterMap
        (fun edge => stringField toText edge "to") ↔
      ∃ edge ∈ targets, edge.src = a ∧ edge.dst = b := by
  induction h with
  | nil => simp
  | @cons e edge edges targets hedge _ ih =>
    have hfrom : stringField toText e "from" = some edge.src := stringField_of_string hedge.1
    have hto : stringField toText e "to" = some edge.dst := stringField_of_string hedge.2
    by_cases hsrc : edge.src = a
    · rw [List.filter_cons_of_pos (by simp [hfrom, hsrc])]
      simp only [List.filterMap_cons, hto, List.mem_cons, ih]
      simp [hsrc, eq_comm]
    · rw [List.filter_cons_of_neg (by simp [hfrom, hsrc]), ih]
      simp [hsrc]

theorem edge_iff (same : SameIr j r) {nodes : JsonMap} {edges : List JsonMap}
    (hnodes : j.nodes = some nodes) (hedges : j.edges = some edges) :
    GraphSearch.Edge (fun id => (successors toText nodes edges id).filter (· ≠ "end")) =
      FollowsBranch r := by
  obtain ⟨edges', hedges', hread⟩ := same.edges
  cases hedges.symm.trans hedges'
  funext a b
  have hleads : r.Leads a b ↔ ∃ edge ∈ r.edges, edge.src = a ∧ edge.dst = b :=
    Ir.WorkflowIr.mem_successors
  simp only [GraphSearch.Edge, FollowsBranch, successors, List.mem_filter, List.mem_append,
    mem_edgeTargets hread, mem_branchTargets same hnodes, hleads, decide_eq_true_eq]
  exact propext and_comm

theorem mem_visited (nodes : JsonMap) (edges : List JsonMap) (start id : String) :
    id ∈ visited toText nodes edges start ↔ ReflTransGen (GraphSearch.Edge
      fun id => (successors toText nodes edges id).filter (· ≠ "end")) start id := by
  have hmem : ∀ a b, b ∈ branchTargets nodes a →
      b ∈ nodes.flatMap fun kv => branchTargets nodes kv.1 := by
    intro a b hb
    cases hget : BTree.get nodes a with
    | none => simp [branchTargets, kindOf, hget] at hb
    | some v =>
      obtain ⟨kv, hkv, -⟩ := Option.map_eq_some_iff.mp hget
      have hkey : kv.1 = a := by simpa using List.find?_some hkv
      exact List.mem_flatMap.mpr ⟨kv, List.mem_of_find?_eq_some hkv, by rwa [hkey]⟩
  refine GraphSearch.mem_search_iff (insert start ((edges.filterMap fun edge =>
    stringField toText edge "to") ++ nodes.flatMap fun kv => branchTargets nodes kv.1).toFinset)
    (fun a _ b hb => ?_) (Finset.mem_insert_self _ _) ?_
  · refine Finset.mem_insert_of_mem (List.mem_toFinset.mpr (List.mem_append.mpr ?_))
    rcases List.mem_append.mp (List.mem_filter.mp hb).1 with hb | hb
    · obtain ⟨edge, hedge, hto⟩ := List.mem_filterMap.mp hb
      exact .inl (List.mem_filterMap.mpr ⟨edge, (List.mem_filter.mp hedge).1, hto⟩)
    · exact .inr (hmem a b hb)
  · have hinsert := Finset.card_insert_le start ((edges.filterMap fun edge =>
      stringField toText edge "to") ++ nodes.flatMap fun kv => branchTargets nodes kv.1).toFinset
    have hlist := List.toFinset_card_le ((edges.filterMap fun edge =>
      stringField toText edge "to") ++ nodes.flatMap fun kv => branchTargets nodes kv.1)
    have hedges := List.length_filterMap_le (fun edge => stringField toText edge "to") edges
    rw [List.length_append, List.length_flatMap] at hlist
    omega

theorem validateReachability_eq_nil (same : SameIr j r) (hstart : r.startNode ∈ r.nodes)
    (hlimit : ∀ id node, r.nodes.lookup id = some node → node.kind ≠ .limitExceeded) :
    validateReachability toText j = [] ↔ ReachedThroughBranches r := by
  obtain ⟨nodes, hnodes, hkeys⟩ := same.nodes
  obtain ⟨edges, hedges, -⟩ := same.edges
  have herror : ∀ id ∈ r.nodes, (unreachableError nodes (visited toText nodes edges r.startNode)
      r.startNode id = none ↔ ReflTransGen (FollowsBranch r) r.startNode id) := by
    intro id hid
    obtain ⟨node, hnode⟩ := Ir.WorkflowIr.mem_keys.mp (Finmap.mem_keys.mpr hid)
    obtain ⟨kind, hkind, hreads⟩ := same.kinds nodes id node hnodes hnode
    have htype : hasType kind "limit_exceeded" = false := by
      rw [Bool.eq_false_iff, ne_eq, hasType_iff hreads]
      cases hk : node.kind
      case limitExceeded => exact absurd hk (hlimit id node hnode)
      all_goals simp [tag, nodeKindTag, Ir.NodeKind.scheduled]
    have hedge : GraphSearch.Edge (fun id => (successors toText nodes edges id).filter (· ≠ "end")) =
        FollowsBranch r := edge_iff same hnodes hedges
    rw [← hedge, ← mem_visited, unreachableError, hkind]
    simp [htype]
  unfold validateReachability
  rw [hnodes, hedges, same.startNode]
  dsimp only
  rw [if_pos ((containsKey_nodes same hnodes).mpr hstart), List.filterMap_eq_nil_iff]
  unfold ReachedThroughBranches
  constructor
  · intro h id hid
    exact (herror id hid).mp (h id (mem_keys_of_isSome ((hkeys id).mpr hid)))
  · intro h id hmem
    have hid : id ∈ r.nodes := (hkeys id).mp (isSome_of_mem_keys hmem)
    exact (herror id hid).mpr (h id hid)

theorem refError_eq_none {kind : JsonMap} {field ref id what : String} {m : Option JsonMap}
    {names : String → Prop} (hfield : BTree.get kind field = some (.string ref))
    (hnamed : Named m names) (hsome : ∃ name, names name) :
    refError toText kind field m id what = none ↔ names ref := by
  obtain ⟨fields, rfl, hkeys⟩ := hnamed
  obtain ⟨name, hname⟩ := hsome
  have hfilled : fields.isEmpty = false := by
    cases fields with
    | nil => exact absurd ((hkeys name).mpr hname) (by simp [BTree.get])
    | cons kv fields => rfl
  rw [← hkeys ref, refError, stringField_of_string hfield]
  simp only [Option.filter_some, hfilled, Bool.not_false, if_true]
  by_cases hfound : containsKey fields ref = true
  · rw [if_pos hfound]
    exact iff_of_true rfl hfound
  · rw [if_neg hfound]
    exact iff_of_false (Option.some_ne_none _) hfound

/-- The maps the references are looked up in are not empty. -/
structure Filled (r : Ir.WorkflowIr) : Prop where
  tools : ∃ name, name ∈ r.tools
  models : ∃ name, name ∈ r.models
  mcpServers : ∃ name, name ∈ r.mcpServers
  remoteAgents : ∃ name, name ∈ r.remoteAgents

theorem nodeRefError_eq_none (same : SameIr j r) (filled : Filled r) {nodes : JsonMap}
    (hnodes : j.nodes = some nodes) {id : String} {node : Ir.NodeDef}
    (hnode : r.nodes.lookup id = some node) :
    nodeRefError toText j nodes id = none ↔ Ir.RefResolves r node.kind := by
  obtain ⟨kind, hkind, hreads⟩ := same.kinds nodes id node hnodes hnode
  have htype : shown (stringField toText kind "type") = tag node.kind := by
    rw [stringField_of_string hreads.1]
    rfl
  unfold nodeRefError
  rw [hkind]
  dsimp only
  rw [htype]
  cases hk : node.kind
  case tool ref =>
    rw [hk] at hreads
    exact refError_eq_none hreads.2 same.tools filled.tools
  case model ref systemPrompt tools =>
    rw [hk] at hreads
    exact refError_eq_none hreads.2 same.models filled.models
  case mcpTool server =>
    rw [hk] at hreads
    exact refError_eq_none hreads.2 same.mcpServers filled.mcpServers
  case a2aTask remoteAgent =>
    rw [hk] at hreads
    exact refError_eq_none hreads.2 same.remoteAgents filled.remoteAgents
  all_goals exact iff_of_true rfl trivial

theorem validateRefs_eq_nil (same : SameIr j r) (filled : Filled r) : validateRefs toText j = [] ↔
    ∀ id node, r.nodes.lookup id = some node → Ir.RefResolves r node.kind := by
  obtain ⟨nodes, hnodes, hkeys⟩ := same.nodes
  unfold validateRefs
  rw [hnodes]
  dsimp only
  rw [List.filterMap_eq_nil_iff]
  constructor
  · intro h id node hnode
    have hid : id ∈ r.nodes := Finmap.mem_of_lookup_eq_some hnode
    exact (nodeRefError_eq_none same filled hnodes hnode).mp (h id (mem_keys_of_isSome ((hkeys id).mpr hid)))
  · intro h id hmem
    have hid : id ∈ r.nodes := (hkeys id).mp (isSome_of_mem_keys hmem)
    obtain ⟨node, hnode⟩ := Ir.WorkflowIr.mem_keys.mp (Finmap.mem_keys.mpr hid)
    exact (nodeRefError_eq_none same filled hnodes hnode).mpr (h id node hnode)

theorem validate_eq_nil (same : SameIr j r) (filled : Filled r)
    (hlimit : ∀ id node, r.nodes.lookup id = some node → node.kind ≠ .limitExceeded) :
    validate toText j = [] ↔ Resolved r ∧ ¬ Spaced r ∧ ClientVersion r.version ∧
      ReachedThroughBranches r := by
  have hempty : ∀ {s : String}, isBlank s = false → s ≠ "" := by
    rintro s hs rfl
    cases hs
  simp only [validate, List.append_eq_nil_iff, validateMetadata_eq_nil same,
    validateStartNode_eq_nil same, validateEdges_eq_nil same, validateRefs_eq_nil same filled]
  constructor
  · rintro ⟨⟨⟨⟨⟨hid, hversion⟩, hblank, hstart⟩, hedges⟩, hreached⟩, hrefs⟩
    refine ⟨⟨hempty hid, hempty hblank, hstart, hedges, hrefs⟩, ?_, hversion,
      (validateReachability_eq_nil same hstart hlimit).mp hreached⟩
    rintro (hspaced | hspaced)
    · rw [hid] at hspaced
      cases hspaced
    · rw [hblank] at hspaced
      cases hspaced
  · rintro ⟨h, hspaced, hversion, hreached⟩
    obtain ⟨hid, hblank⟩ := not_or.mp hspaced
    exact ⟨⟨⟨⟨⟨Bool.eq_false_iff.mpr hid, hversion⟩, Bool.eq_false_iff.mpr hblank, h.start⟩, h.edges⟩,
      (validateReachability_eq_nil same h.start hlimit).mpr hreached⟩, h.refs⟩

end Client

/-! ### Where the two agree -/

section Agreement

variable {version : String}

theorem spells_mono {digit digit' : Char → Option ℕ} {bound bound' : ℕ} {v : List Char}
    (hdigit : ∀ {s n}, JavaText.unsigned digit s = some n → JavaText.unsigned digit' s = some n)
    (hbound : bound ≤ bound') (h : Spells digit bound v) : Spells digit' bound' v := by
  obtain ⟨a, b, c, rfl, hparts⟩ := h
  refine ⟨a, b, c, rfl, fun part hpart => ?_⟩
  obtain ⟨n, hn, hlt⟩ := hparts part hpart
  exact ⟨n, hdigit hn, hlt.trans_le hbound⟩

theorem clientVersion_of_small (h : Spells JavaText.asciiDigit (2 ^ 31) version.toList) :
    ClientVersion version :=
  ⟨version.toList, 0, by simp, spells_mono JavaText.unsigned_of_ascii le_rfl h⟩

theorem serverVersion_of_small (h : Spells JavaText.asciiDigit (2 ^ 31) version.toList) :
    ServerVersion version :=
  spells_mono id (by norm_num) h

theorem small_of_both (hserver : ServerVersion version) (hclient : ClientVersion version) :
    Spells JavaText.asciiDigit (2 ^ 31) version.toList := by
  obtain ⟨hlength, hserver⟩ := (spells_splitOn (by decide)).mp hserver
  obtain ⟨v, k, hversion, a, b, c, rfl, hclient⟩ := hclient
  have hfree : ∀ part ∈ [a, b, c], '.' ∉ part := by
    intro part hpart
    obtain ⟨n, hn, -⟩ := hclient part hpart
    exact JavaText.not_mem_of_unsigned JavaText.digit_dot (by decide) hn
  have hsplit : version.toList.splitOn '.' = [a, b] ++ c :: List.replicate k [] := by
    rw [hversion, List.append_assoc, List.cons_append, List.append_assoc, List.cons_append,
      List.splitOn_append_cons_self_of_not_mem (hfree a (by simp)),
      List.splitOn_append_cons_self_of_not_mem (hfree b (by simp)),
      JavaText.splitOn_trailing (hfree c (by simp))]
    rfl
  -- a dot behind the last part is a fourth part to the server
  have hk : k = 0 := by
    rw [hsplit] at hlength
    simpa using hlength
  subst hk
  rw [hsplit] at hserver
  refine ⟨a, b, c, by simpa using hversion, fun part hpart => ?_⟩
  obtain ⟨n, hn, -⟩ := hserver part hpart
  obtain ⟨m, hm, hlt⟩ := hclient part hpart
  have hsame : n = m := Option.some.inj ((JavaText.unsigned_of_ascii hn).symm.trans hm)
  exact ⟨n, hn, hsame ▸ hlt⟩

/-- An IR the two validators agree on: if the rest of it is accepted, its id and start node are not
blank, its version has three small parts in ASCII digits with nothing behind them, and every node is
reached along the edges. -/
structure Mirrored (r : Ir.WorkflowIr) : Prop where
  spaced : Resolved r → ServerVersion r.version → Reached r → ¬ Spaced r
  small : Resolved r → ServerVersion r.version → Reached r →
    Spells JavaText.asciiDigit (2 ^ 31) r.version.toList
  plain : Resolved r → ClientVersion r.version → ReachedThroughBranches r → ¬ Spaced r →
    Spells JavaText.asciiDigit (2 ^ 31) r.version.toList
  wired : Resolved r → ClientVersion r.version → ReachedThroughBranches r → ¬ Spaced r → Reached r

theorem reachedThroughBranches_of_reached {r : Ir.WorkflowIr} (h : Reached r) :
    ReachedThroughBranches r :=
  fun id hid => ReflTransGen.mono (fun _ _ hab => ⟨hab.1, .inl hab.2⟩) _ _ (h id hid)

/-- The two validators agree on such an IR and on no other. -/
theorem validate_mirrors_iff (toText : Json → String) (walk : HashOrder NodeId) (j : WorkflowIr)
    (r : Ir.WorkflowIr) (same : SameIr j r) (filled : Filled r)
    (hlimit : ∀ id node, r.nodes.lookup id = some node → node.kind ≠ .limitExceeded) :
    (validate toText j = [] ↔ RuntimeAccepts r walk) ↔ Mirrored r := by
  rw [validate_eq_nil same filled hlimit, runtimeAccepts_iff]
  constructor
  · intro h
    constructor
    · exact fun hres hserver hreached => (h.mpr ⟨hres, hserver, hreached⟩).2.1
    · exact fun hres hserver hreached =>
        small_of_both hserver (h.mpr ⟨hres, hserver, hreached⟩).2.2.1
    · exact fun hres hclient hreached hspaced =>
        small_of_both (h.mp ⟨hres, hspaced, hclient, hreached⟩).2.1 hclient
    · exact fun hres hclient hreached hspaced => (h.mp ⟨hres, hspaced, hclient, hreached⟩).2.2
  · intro h
    constructor
    · rintro ⟨hres, hspaced, hclient, hreached⟩
      exact ⟨hres, serverVersion_of_small (h.plain hres hclient hreached hspaced),
        h.wired hres hclient hreached hspaced⟩
    · rintro ⟨hres, hserver, hreached⟩
      exact ⟨hres, h.spaced hres hserver hreached,
        clientVersion_of_small (h.small hres hserver hreached),
        reachedThroughBranches_of_reached hreached⟩

/-! One node, with something in every map. -/

def sdkIr (version : String) : WorkflowIr where
  id := some "checkout"
  version := some version
  startNode := some "lookup"
  nodes := some [("lookup", .object
    [("kind", .object [("tool_ref", .string "search"), ("type", .string "tool")])])]
  edges := some [[("from", .string "lookup"), ("to", .string "end")]]
  models := some [("default", .object [])]
  tools := some [("search", .object [])]
  mcpServers := some [("github", .object [])]
  remoteAgents := some [("partner", .object [])]

def serverIr (version : String) : Ir.WorkflowIr where
  workflowId := "checkout"
  version := version
  startNode := "lookup"
  nodes := Finmap.singleton "lookup" { id := "lookup", kind := .tool "search" }
  edges := [{ src := "lookup", dst := "end" }]
  models := Finmap.singleton "default"
    { provider := "anthropic", model := "haiku", temperature := none, maxTokens := none }
  tools := {"search"}
  mcpServers := {"github"}
  remoteAgents := {"partner"}

theorem named_single {name : String} {v : Json} {names : String → Prop}
    (h : ∀ key, names key ↔ key = name) : Named (some [(name, v)]) names := by
  refine ⟨_, rfl, fun key => ?_⟩
  rw [h key]
  by_cases hkey : name = key
  · simp [BTree.get, hkey]
  · simp [BTree.get, hkey, Ne.symm hkey]

theorem lookup_serverIr {id : String} {node : Ir.NodeDef}
    (h : (serverIr version).nodes.lookup id = some node) :
    id = "lookup" ∧ node.kind = .tool "search" := by
  have hid : id = "lookup" := by
    have hmem : id ∈ (serverIr version).nodes := Finmap.mem_of_lookup_eq_some h
    exact (Finmap.mem_singleton _ _ _).mp hmem
  subst hid
  have hlookup : (serverIr version).nodes.lookup "lookup" = some _ := Finmap.lookup_singleton_eq
  cases hlookup.symm.trans h
  exact ⟨rfl, rfl⟩

theorem sameIr (version : String) : SameIr (sdkIr version) (serverIr version) where
  id := rfl
  version := rfl
  startNode := rfl
  nodes := named_single fun _ => Finmap.mem_singleton _ _ _
  kinds := by
    rintro nodes id node hnodes hnode
    obtain ⟨rfl, hkind⟩ := lookup_serverIr hnode
    cases hnodes
    exact ⟨_, rfl, by rw [hkind]; exact ⟨rfl, rfl⟩⟩
  edges := ⟨_, rfl, .cons ⟨rfl, rfl⟩ .nil⟩
  models := named_single fun _ => Finmap.mem_singleton _ _ _
  tools := named_single fun _ => Finset.mem_singleton
  mcpServers := named_single fun _ => Finset.mem_singleton
  remoteAgents := named_single fun _ => Finset.mem_singleton

theorem filled_serverIr (version : String) : Filled (serverIr version) where
  tools := ⟨"search", Finset.mem_singleton_self _⟩
  models := ⟨"default", (Finmap.mem_singleton _ _ _).mpr rfl⟩
  mcpServers := ⟨"github", Finset.mem_singleton_self _⟩
  remoteAgents := ⟨"partner", Finset.mem_singleton_self _⟩

theorem unlimited_serverIr (version : String) (id : String) (node : Ir.NodeDef)
    (h : (serverIr version).nodes.lookup id = some node) : node.kind ≠ .limitExceeded := by
  rw [(lookup_serverIr h).2]
  exact Ir.NodeKind.noConfusion

theorem resolved_serverIr (version : String) : Resolved (serverIr version) where
  id := by simp [serverIr]
  named := by simp [serverIr]
  start := (Finmap.mem_singleton _ _ _).mpr rfl
  edges := by
    intro edge hedge
    obtain rfl := List.mem_singleton.mp hedge
    exact .inr rfl
  refs := by
    intro id node hnode
    rw [(lookup_serverIr hnode).2]
    exact Finset.mem_singleton_self _

theorem reached_serverIr (version : String) : Reached (serverIr version) := by
  intro id hid
  obtain rfl : id = "lookup" := (Finmap.mem_singleton _ _ _).mp hid
  exact .refl

theorem validate_mirrors_release :
    (validate (fun _ => "") (sdkIr "1.2.3") = [] ↔
      RuntimeAccepts (serverIr "1.2.3") HashOrder.sorted) ↔ Mirrored (serverIr "1.2.3") :=
  validate_mirrors_iff _ _ _ _ (sameIr _) (filled_serverIr _) (unlimited_serverIr _)

/-- A dot behind the version: the SDK drops the empty part, the runtime counts it. -/
theorem trailing_dot_passes_sdk_only :
    SameIr (sdkIr "1.2.3.") (serverIr "1.2.3.") ∧ Filled (serverIr "1.2.3.") ∧
      validate (fun _ => "") (sdkIr "1.2.3.") = [] ∧
      ¬ RuntimeAccepts (serverIr "1.2.3.") HashOrder.sorted := by
  refine ⟨sameIr _, filled_serverIr _, ?_, ?_⟩
  · refine (validate_eq_nil (sameIr _) (filled_serverIr _) (unlimited_serverIr _)).mpr
      ⟨resolved_serverIr _, not_or.mpr ⟨by decide, by decide⟩, ?_,
        reachedThroughBranches_of_reached (reached_serverIr _)⟩
    refine ⟨"1.2.3".toList, 1, by decide, ['1'], ['2'], ['3'], by decide, ?_⟩
    intro part hpart
    have hdigits : ∀ part ∈ [['1'], ['2'], ['3']], JavaText.unsigned JavaText.digit part =
        some (Nat.ofDigitChars 10 part 0) ∧ Nat.ofDigitChars 10 part 0 < 2 ^ 31 := by decide
    exact ⟨_, hdigits part hpart⟩
  · intro h
    obtain ⟨-, hversion⟩ := validateMetadata_iff.mp h.metadata
    have hlength := ((spells_splitOn (by decide)).mp hversion).1
    revert hlength
    decide

end Agreement

end JamJet.JavaValidator
