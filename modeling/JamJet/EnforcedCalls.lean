import JamJet.ToolCompaction

/-! The enforced model call of the TypeScript SDK: the tools of the request are filtered by the tool
policies, the request is compacted and gets its cache marks, and the tool calls of the response are
checked before it is returned. -/

namespace JamJet.Enforcement

open Compaction (CompactionResolver applyCompaction nameText)
open Glob (accepts)
open Js (TypeError Value units)
open ToolPolicies (Rule)
open ToolPolicies.TypeScript (globToRegExp)

inductive Vendor
  | openai
  | anthropic

inductive Thrown
  | typeError (e : TypeError)
  | budgetExceeded
  | policyBlocked (tool : List ℕ) (pattern : String)
  /-- The SDK call itself. -/
  | vendor (error : Value)

/-- The first rule that matches a name. -/
def evaluate (rules : List Rule) (toolName : List ℕ) : Option Rule :=
  rules.find? fun rule => accepts (globToRegExp rule.2.toList) toolName

def blocked (rules : List Rule) (toolName : List ℕ) : Bool :=
  (evaluate rules toolName).any fun rule => rule.1 = "block"

structure Client where
  policy : List Rule
  compaction : CompactionResolver
  /-- The hashes that prompts are cached for. -/
  cacheInject : List String
  /-- Whether the budget check lets the estimate for a request through. -/
  withinBudget : Value → Bool

section CacheInject

def EPHEMERAL : Value := .object [("type", .string (units "ephemeral"))]

def alreadyCached (content : Value) : Bool :=
  content.items.any fun b => !(b.prop "cache_control").isNullish

def isInjectable : Value → Bool
  | .string _ | .array _ => true
  | _ => false

def toCachedBlocks : Value → Value
  | .string s => .array [.object [("type", .string (units "text")), ("text", .string s),
      ("cache_control", EPHEMERAL)]]
  | .array blocks => .array (blocks.dropLast ++
      blocks.getLast?.toList.map fun last => last.set "cache_control" EPHEMERAL)
  | content => content

/-- The messages with the first one of the user marked, if it is to be. -/
def injectFirstUser : List Value → Except TypeError (Option (List Value))
  | [] => .ok none
  | m :: messages => do
    let role ← m.access "role"
    if role.is "user" then
      let content := m.prop "content"
      return if isInjectable content && !alreadyCached content then
        some (m.set "content" (toCachedBlocks content) :: messages) else none
    else
      let rest ← injectFirstUser messages
      return rest.map (m :: ·)

/-- `none` is for a request that gets no marks. -/
def applyCacheInject (args0 : Value) : Except TypeError (Option Value) := do
  let sys := args0.prop "system"
  if isInjectable sys then
    return if alreadyCached sys then none else some (args0.set "system" (toCachedBlocks sys))
  else
    let newMessages ← injectFirstUser (args0.prop "messages").items
    return newMessages.map fun messages => args0.set "messages" (.array messages)

end CacheInject

section Calls

variable (toText : Value → List ℕ)

/-- The name a tool is filtered by, when the tool is there. -/
def filterName (tool : Value) : List ℕ :=
  nameText toText (((tool.prop "function").prop "name").orElse (.string []))

/-- The tools that are allowed and those that are blocked. -/
def filterTools (rules : List Rule) (tools : List Value) :
    Except TypeError (List Value × List Value) := do
  let _ ← tools.mapM fun tool => tool.access "function"
  return tools.partition fun tool => !blocked rules (filterName toText tool)

/-- `args[0] ?? {}`. -/
def firstArg (args : List Value) : Value := (args.headD .undefined).orElse (.object [])

def filterArgs (rules : List Rule) (args : List Value) : Except TypeError (List Value) := do
  let arg0 := firstArg args
  let (allowed, blocked) ← filterTools toText rules (arg0.prop "tools").items
  return if blocked.isEmpty then args else arg0.set "tools" (.array allowed) :: args.drop 1

def compactArgs (compaction : CompactionResolver) (args : List Value) :
    Except TypeError (List Value) := do
  if compaction.hasRules then
    let (mutated, tokensSaved) ← applyCompaction toText compaction (args.headD .undefined)
    return if 0 < tokensSaved then mutated :: args.drop 1 else args
  else return args

def injectArgs (vendor : Vendor) (hashes : List String) (prefixHash : Option String)
    (args : List Value) : Except TypeError (List Value) := do
  match vendor, prefixHash.any (· ∈ hashes) with
  | .anthropic, true =>
    let mutated ← applyCacheInject (args.headD .undefined)
    return mutated.elim args (· :: args.drop 1)
  | _, _ => return args

def checkBudget (client : Client) (arg0 : Value) : Except Thrown Unit :=
  if client.withinBudget arg0 then .ok () else .error .budgetExceeded

/-- What is passed on to the SDK, when nothing has been thrown before.  The hash of the messages is
`none` where it is not computed or fails. -/
def prepareArgs (client : Client) (vendor : Vendor) (prefixHash : List Value → Option String)
    (args : List Value) : Except Thrown (List Value) := do
  let mutated ← (filterArgs toText client.policy args).mapError .typeError
  let _ ← checkBudget client (firstArg args)
  let mutated ← (compactArgs toText client.compaction mutated).mapError .typeError
  (injectArgs vendor client.cacheInject (prefixHash ((firstArg args).prop "messages").items)
    mutated).mapError .typeError

structure ToolCall where
  id : Option (List ℕ)
  name : List ℕ

/-- An entry whose name is held by some value. -/
def toolCall (tc holder : Value) : ToolCall := ⟨(tc.prop "id").text?, (holder.prop "name").text?.getD []⟩

def getToolCalls (vendor : Vendor) (response : Value) : Except TypeError (List ToolCall) :=
  match vendor with
  | .openai => do
    let choices ← response.access "choices"
    let message := (choices.items.headD .undefined).prop "message"
    (message.prop "tool_calls").items.mapM fun tc => do
      let fn ← tc.access "function"
      return toolCall tc fn
  | .anthropic => do
    let content ← response.access "content"
    let _ ← content.items.mapM fun b => b.access "type"
    return (content.items.filter fun b => (b.prop "type").is "tool_use").map fun b => toolCall b b

def isStreaming (args : List Value) : Bool :=
  match (firstArg args).prop "stream" with
  | .bool stream => stream
  | _ => false

/-- The check of a response's tool calls. -/
def checkResponse (rules : List Rule) (vendor : Vendor) (result : Value) : Except Thrown Value := do
  let toolCalls ← (getToolCalls vendor result).mapError .typeError
  match toolCalls.find? fun tc => blocked rules tc.name with
  | some tc => .error (.policyBlocked tc.name (((evaluate rules tc.name).map (·.2)).getD "*"))
  | none => .ok result

def runEnforcedCall (client : Client) (vendor : Vendor) (prefixHash : List Value → Option String)
    (original : List Value → Except Value Value) (args : List Value) : Except Thrown Value := do
  let mutatedArgs ← prepareArgs toText client vendor prefixHash args
  let result ← (original mutatedArgs).mapError .vendor
  if isStreaming args then return result else checkResponse client.policy vendor result

end Calls

/-! ### What is offered and what is returned -/

/-- The tools among the arguments of a call. -/
def offered (args : List Value) : List Value := ((args.headD .undefined).prop "tools").items

/-- What holds the name of a tool or of a call. -/
def named (vendor : Vendor) (entry : Value) : Value :=
  match vendor with
  | .openai => entry.prop "function"
  | .anthropic => entry

def ownName (vendor : Vendor) (entry : Value) : Option (List ℕ) :=
  ((named vendor entry).prop "name").text?

/-- Whether an entry is a call: every one that OpenAI lists, and the `tool_use` blocks. -/
def isCall (vendor : Vendor) (entry : Value) : Bool :=
  match vendor with
  | .openai => true
  | .anthropic => (entry.prop "type").is "tool_use"

/-- The entries in every part of a response. -/
def allEntries (vendor : Vendor) (response : Value) : List Value :=
  match vendor with
  | .openai => (response.prop "choices").items.flatMap fun choice =>
      ((choice.prop "message").prop "tool_calls").items
  | .anthropic => (response.prop "content").items

/-- The entries that are gone through: those of the first choice, or all. -/
def readEntries (vendor : Vendor) (response : Value) : List Value :=
  match vendor with
  | .openai => ((((response.prop "choices").items.headD .undefined).prop "message").prop
      "tool_calls").items
  | .anthropic => (response.prop "content").items

/-- A tool call somewhere in a response names a blocked tool. -/
def NamesBlocked (rules : List Rule) (vendor : Vendor) (response : Value) : Prop :=
  ∃ entry ∈ allEntries vendor response, isCall vendor entry = true ∧
    ∃ name, ownName vendor entry = some name ∧ blocked rules name = true

/-- A blocked call is found where the response is gone through: a call without a name counts as one
with the empty name. -/
def ReadsBlocked (rules : List Rule) (vendor : Vendor) (response : Value) : Prop :=
  (∀ entry ∈ readEntries vendor response, entry.isNullish = false) ∧
    ∃ entry ∈ readEntries vendor response, isCall vendor entry = true ∧
      blocked rules ((ownName vendor entry).getD []) = true

/-- Tools with a blocked name are blocked by the name that they are filtered by. -/
def FiltersBlocked (toText : Value → List ℕ) (rules : List Rule) (vendor : Vendor)
    (args : List Value) : Prop :=
  ∀ tool ∈ offered args, ∀ name, ownName vendor tool = some name → blocked rules name = true →
    blocked rules (filterName toText tool) = true

structure Enforced (toText : Value → List ℕ) (client : Client) (vendor : Vendor)
    (prefixHash : List Value → Option String) (original : List Value → Except Value Value)
    (args sent : List Value) : Prop where
  offers : ∀ tool ∈ offered sent, ∀ name, ownName vendor tool = some name →
    blocked client.policy name = false
  returns : ∀ response, runEnforcedCall toText client vendor prefixHash original args = .ok response →
    ¬ NamesBlocked client.policy vendor response
  refuses : ∀ response, original sent = .ok response → NamesBlocked client.policy vendor response →
    ∃ tool pattern, runEnforcedCall toText client vendor prefixHash original args =
      .error (.policyBlocked tool pattern)

variable {toText : Value → List ℕ} {client : Client} {vendor : Vendor} {rules : List Rule}
  {prefixHash : List Value → Option String} {original : List Value → Except Value Value}
  {args sent mutated : List Value} {response result : Value} {calls : List ToolCall}

theorem mapError_eq_ok {ε ε' α : Type} {x : Except ε α} {f : ε → ε'} {a : α} :
    x.mapError f = .ok a ↔ x = .ok a := by
  cases x <;> simp [Except.mapError]

/-! ### The tools that are offered -/

theorem prop_firstArg (key : String) : (firstArg args).prop key = (args.headD .undefined).prop key := by
  unfold firstArg Value.orElse
  cases args.headD .undefined <;> rfl

theorem offered_filterArgs (h : filterArgs toText rules args = .ok mutated) :
    offered mutated = (offered args).filter fun tool => !blocked rules (filterName toText tool) := by
  unfold filterArgs filterTools at h
  obtain ⟨⟨allowed, refused⟩, hfilter, hmutated⟩ := Fallible.bind_eq_ok.mp h
  obtain ⟨_, -, hparts⟩ := Fallible.bind_eq_ok.mp hfilter
  rw [prop_firstArg, List.partition_eq_filter_filter] at hparts
  obtain ⟨rfl, rfl⟩ := Prod.mk.inj (Except.ok.inj hparts)
  dsimp only at hmutated
  split at hmutated
  · next hnone =>
    obtain rfl := Except.ok.inj hmutated
    refine (List.filter_eq_self.mpr fun tool htool => ?_).symm
    have hall := List.filter_eq_nil_iff.mp (List.isEmpty_iff.mp hnone) tool htool
    simpa using hall
  · obtain rfl := Except.ok.inj hmutated
    rw [offered, List.headD_cons, Value.prop_set]
    rfl

theorem offered_compactArgs {compaction : CompactionResolver}
    (h : compactArgs toText compaction args = .ok mutated) : offered mutated = offered args := by
  unfold compactArgs at h
  split at h
  · obtain ⟨⟨compacted, tokensSaved⟩, hcompact, hmutated⟩ := Fallible.bind_eq_ok.mp h
    dsimp only at hmutated
    split at hmutated
    · obtain rfl := Except.ok.inj hmutated
      unfold offered
      rw [List.headD_cons, Compaction.prop_applyCompaction hcompact (by decide)]
    · obtain rfl := Except.ok.inj hmutated
      rfl
  · obtain rfl := Except.ok.inj h
    rfl

theorem items_of_injectFirstUser {messages marked : List Value}
    (h : injectFirstUser messages = .ok (some marked)) : messages ≠ [] := by
  rintro rfl
  cases h

theorem prop_applyCacheInject {args0 marked : Value}
    (h : applyCacheInject args0 = .ok (some marked)) : marked.prop "tools" = args0.prop "tools" := by
  unfold applyCacheInject at h
  dsimp only at h
  split at h
  · next hsys =>
    have hfound : args0.prop "system" ≠ .undefined := fun hnone => by
      rw [hnone] at hsys
      cases hsys
    split at h
    · cases h
    · obtain rfl := Option.some.inj (Except.ok.inj h)
      exact Value.prop_set_of_ne rfl hfound (by decide)
  · obtain ⟨found, hinject, hmarked⟩ := Fallible.bind_eq_ok.mp h
    obtain ⟨messages, rfl, rfl⟩ := Option.map_eq_some_iff.mp (Except.ok.inj hmarked)
    have hfound : args0.prop "messages" ≠ .undefined := fun hnone => by
      rw [hnone] at hinject
      exact items_of_injectFirstUser hinject rfl
    exact Value.prop_set_of_ne rfl hfound (by decide)

theorem offered_injectArgs {hashes : List String} {hash : Option String}
    (h : injectArgs vendor hashes hash args = .ok mutated) : offered mutated = offered args := by
  unfold injectArgs at h
  split at h
  · obtain ⟨found, hinject, hmutated⟩ := Fallible.bind_eq_ok.mp h
    obtain rfl := Except.ok.inj hmutated
    cases found with
    | none => rfl
    | some marked =>
      rw [Option.elim, offered, List.headD_cons, prop_applyCacheInject hinject]
      rfl
  · obtain rfl := Except.ok.inj h
    rfl

/-- Of the tools of a request just those are offered that are not blocked by the name that they are
filtered by. -/
theorem offered_prepareArgs (h : prepareArgs toText client vendor prefixHash args = .ok sent) :
    offered sent =
      (offered args).filter fun tool => !blocked client.policy (filterName toText tool) := by
  unfold prepareArgs at h
  obtain ⟨filtered, hfilter, h⟩ := Fallible.bind_eq_ok.mp h
  obtain ⟨_, -, h⟩ := Fallible.bind_eq_ok.mp h
  obtain ⟨compacted, hcompact, hinject⟩ := Fallible.bind_eq_ok.mp h
  rw [offered_injectArgs (mapError_eq_ok.mp hinject), offered_compactArgs (mapError_eq_ok.mp hcompact),
    offered_filterArgs (mapError_eq_ok.mp hfilter)]

theorem filtersBlocked_openai : FiltersBlocked toText rules .openai args := by
  intro tool _ name hname hblocked
  unfold ownName named at hname
  unfold filterName
  cases hfound : (tool.prop "function").prop "name" with
  | string s =>
    rw [hfound] at hname
    obtain rfl := Option.some.inj hname
    exact hblocked
  | _ => rw [hfound] at hname; cases hname

/-! ### The response -/

theorem mapM_toolCall {tcs : List Value} : (tcs.mapM fun tc => do
      let fn ← tc.access "function"
      return toolCall tc fn) = .ok calls ↔
    (∀ tc ∈ tcs, tc.isNullish = false) ∧
      calls = tcs.map fun tc => toolCall tc (tc.prop "function") := by
  induction tcs generalizing calls with
  | nil =>
    rw [List.mapM_nil]
    constructor
    · exact fun h => ⟨by simp, (Except.ok.inj h).symm⟩
    · rintro ⟨-, rfl⟩
      rfl
  | cons tc tcs ih =>
    rw [List.mapM_cons, Fallible.bind_eq_ok, List.forall_mem_cons, List.map_cons]
    constructor
    · rintro ⟨call, hcall, h⟩
      obtain ⟨fn, hfn, hmade⟩ := Fallible.bind_eq_ok.mp hcall
      obtain ⟨rest, hrest, hcalls⟩ := Fallible.bind_eq_ok.mp h
      obtain ⟨hread, rfl⟩ := Value.access_eq_ok.mp hfn
      obtain rfl := Except.ok.inj hmade
      obtain rfl := Except.ok.inj hcalls
      obtain ⟨hall, rfl⟩ := ih.mp hrest
      exact ⟨⟨hread, hall⟩, rfl⟩
    · rintro ⟨⟨hread, hall⟩, rfl⟩
      refine ⟨_, Fallible.bind_eq_ok.mpr ⟨_, Value.access_eq_ok.mpr ⟨hread, rfl⟩, rfl⟩, ?_⟩
      exact Fallible.bind_eq_ok.mpr ⟨_, ih.mpr ⟨hall, rfl⟩, rfl⟩

theorem getToolCalls_eq_ok : getToolCalls vendor response = .ok calls ↔
    response.isNullish = false ∧
      (∀ entry ∈ readEntries vendor response, entry.isNullish = false) ∧
      calls = ((readEntries vendor response).filter (isCall vendor)).map fun entry =>
        toolCall entry (named vendor entry) := by
  cases vendor with
  | openai =>
    unfold getToolCalls
    rw [Fallible.bind_eq_ok]
    simp only [Value.access_eq_ok, and_assoc, exists_and_left, exists_eq_left', mapM_toolCall]
    have hcalls : (isCall .openai) = fun _ => true := rfl
    rw [hcalls, List.filter_true]
    rfl
  | anthropic =>
    unfold getToolCalls
    rw [Fallible.bind_eq_ok]
    simp only [Value.access_eq_ok, and_assoc, exists_and_left, exists_eq_left', Fallible.bind_eq_ok,
      exists_and_right, Value.mapM_access]
    simp only [pure, Except.pure, Except.ok.injEq, eq_comm]
    rfl

theorem checkResponse_of_ok (h : getToolCalls vendor response = .ok calls) :
    checkResponse rules vendor response =
      match calls.find? fun tc => blocked rules tc.name with
      | some tc => .error (.policyBlocked tc.name (((evaluate rules tc.name).map (·.2)).getD "*"))
      | none => .ok response := by
  unfold checkResponse
  rw [h]
  rfl

theorem checkResponse_of_error {e : TypeError} (h : getToolCalls vendor response = .error e) :
    checkResponse rules vendor response = .error (.typeError e) := by
  unfold checkResponse
  rw [h]
  rfl

theorem refuses_iff : (∃ tool pattern, checkResponse rules vendor response =
      .error (.policyBlocked tool pattern)) ↔
    response.isNullish = false ∧ ReadsBlocked rules vendor response := by
  cases hcalls : getToolCalls vendor response with
  | error e =>
    rw [checkResponse_of_error hcalls]
    constructor
    · rintro ⟨_, _, h⟩
      cases h
    · rintro ⟨hread, hall, -⟩
      rw [getToolCalls_eq_ok.mpr ⟨hread, hall, rfl⟩] at hcalls
      cases hcalls
  | ok calls =>
    obtain ⟨hread, hall, rfl⟩ := getToolCalls_eq_ok.mp hcalls
    rw [checkResponse_of_ok hcalls]
    constructor
    · rintro ⟨tool, pattern, h⟩
      split at h
      · next tc hfound =>
        obtain ⟨entry, hentry, rfl⟩ := List.mem_map.mp (List.mem_of_find?_eq_some hfound)
        obtain ⟨hmem, hcall⟩ := List.mem_filter.mp hentry
        have hblocked := List.find?_some hfound
        exact ⟨hread, hall, entry, hmem, hcall, hblocked⟩
      · cases h
    · rintro ⟨-, -, entry, hmem, hcall, hblocked⟩
      split
      · exact ⟨_, _, rfl⟩
      · next hnone =>
        have hnot := List.find?_eq_none.mp hnone _
          (List.mem_map_of_mem (List.mem_filter.mpr ⟨hmem, hcall⟩))
        exact absurd hblocked hnot

theorem eq_of_checkResponse (h : checkResponse rules vendor response = .ok result) :
    result = response := by
  cases hcalls : getToolCalls vendor response with
  | error e =>
    rw [checkResponse_of_error hcalls] at h
    cases h
  | ok calls =>
    rw [checkResponse_of_ok hcalls] at h
    split at h
    · cases h
    · exact (Except.ok.inj h).symm

theorem isNullish_of_namesBlocked (h : NamesBlocked rules vendor response) :
    response.isNullish = false := by
  obtain ⟨entry, hentry, -⟩ := h
  cases response with
  | undefined => cases vendor <;> cases hentry
  | null => cases vendor <;> cases hentry
  | _ => rfl

theorem runEnforcedCall_of_ok (hsent : prepareArgs toText client vendor prefixHash args = .ok sent)
    (hstream : isStreaming args = false) (h : original sent = .ok response) :
    runEnforcedCall toText client vendor prefixHash original args =
      checkResponse client.policy vendor response := by
  unfold runEnforcedCall
  rw [hsent]
  change ((original sent).mapError Thrown.vendor >>= fun result => _) = _
  rw [h]
  change (if isStreaming args then _ else _) = _
  rw [if_neg (by simp [hstream])]

theorem original_of_returned (hsent : prepareArgs toText client vendor prefixHash args = .ok sent)
    (hstream : isStreaming args = false)
    (h : runEnforcedCall toText client vendor prefixHash original args = .ok result) :
    original sent = .ok result ∧ checkResponse client.policy vendor result = .ok result := by
  cases horiginal : original sent with
  | error e =>
    unfold runEnforcedCall at h
    rw [hsent] at h
    change ((original sent).mapError Thrown.vendor >>= fun result => _) = _ at h
    rw [horiginal] at h
    cases h
  | ok response =>
    rw [runEnforcedCall_of_ok hsent hstream horiginal] at h
    obtain rfl := eq_of_checkResponse h
    exact ⟨rfl, h⟩

theorem enforced_iff (hsent : prepareArgs toText client vendor prefixHash args = .ok sent)
    (hstream : isStreaming args = false) :
    Enforced toText client vendor prefixHash original args sent ↔
      FiltersBlocked toText client.policy vendor args ∧
        ∀ response, original sent = .ok response →
          NamesBlocked client.policy vendor response → ReadsBlocked client.policy vendor response := by
  constructor
  · intro henforced
    constructor
    · intro tool htool name hname hblocked
      by_contra hnot
      have hoffered : tool ∈ offered sent := by
        rw [offered_prepareArgs hsent]
        exact List.mem_filter.mpr ⟨htool, by simpa using hnot⟩
      have hfree := henforced.offers tool hoffered name hname
      rw [hblocked] at hfree
      cases hfree
    · intro response horiginal hnames
      have hrefused := henforced.refuses response horiginal hnames
      rw [runEnforcedCall_of_ok hsent hstream horiginal] at hrefused
      exact (refuses_iff.mp hrefused).2
  · rintro ⟨hfilters, hreads⟩
    have hrefuses : ∀ response, original sent = .ok response →
        NamesBlocked client.policy vendor response → ∃ tool pattern,
          checkResponse client.policy vendor response = .error (.policyBlocked tool pattern) :=
      fun response horiginal hnames => refuses_iff.mpr
        ⟨isNullish_of_namesBlocked hnames, hreads response horiginal hnames⟩
    constructor
    · intro tool htool name hname
      rw [offered_prepareArgs hsent, List.mem_filter] at htool
      by_contra hblocked
      have hfiltered := hfilters tool htool.1 name hname (by simpa using hblocked)
      simp [hfiltered] at htool
    · intro result hresult hnames
      obtain ⟨horiginal, hchecked⟩ := original_of_returned hsent hstream hresult
      obtain ⟨_, _, hrefused⟩ := hrefuses result horiginal hnames
      rw [hchecked] at hrefused
      cases hrefused
    · intro response horiginal hnames
      rw [runEnforcedCall_of_ok hsent hstream horiginal]
      exact hrefuses response horiginal hnames

/-- Deletions are blocked. -/
def guardedClient : Client := ⟨[("block", "delete_*")], ⟨[], by simp⟩, [], fun _ => true⟩

/-- A request with one tool, as OpenAI has it or as Anthropic has it. -/
def deleteArgs (vendor : Vendor) : List Value :=
  let tool := match vendor with
    | .openai => .object [("function", .object [("name", .string (units "delete_db"))])]
    | .anthropic => .object [("name", .string (units "delete_db"))]
  [.object [("tools", .array [tool])]]

/-- A response with a choice for each of the tools, which calls it. -/
def choicesOf (names : List String) : Value :=
  .object [("choices", .array (names.map fun name =>
    .object [("message", .object [("tool_calls", .array [
      .object [("function", .object [("name", .string (units name))])]])])]))]

theorem enforced_openai : Enforced (fun _ => []) guardedClient .openai (fun _ => none)
    (fun _ => .ok (choicesOf ["search"])) (deleteArgs .openai) [.object [("tools", .array [])]] := by
  refine (enforced_iff rfl rfl).mpr ⟨filtersBlocked_openai, fun response horiginal hnames => ?_⟩
  obtain rfl := Except.ok.inj horiginal
  obtain ⟨entry, hentry, -, name, hname, hblocked⟩ := hnames
  obtain rfl := List.mem_singleton.mp hentry
  obtain rfl := Option.some.inj hname
  exact absurd hblocked (by decide +kernel)

/-- A blocked tool is offered to Anthropic, and a call of it in the second choice comes back. -/
theorem blocked_tool_passes :
    prepareArgs (fun _ => []) guardedClient .anthropic (fun _ => none) (deleteArgs .anthropic) =
        .ok (deleteArgs .anthropic) ∧
      (∀ original, ¬ Enforced (fun _ => []) guardedClient .anthropic (fun _ => none) original
        (deleteArgs .anthropic) (deleteArgs .anthropic)) ∧
    runEnforcedCall (fun _ => []) guardedClient .openai (fun _ => none)
        (fun _ => .ok (choicesOf ["search", "delete_db"])) [] =
        .ok (choicesOf ["search", "delete_db"]) ∧
      NamesBlocked guardedClient.policy .openai (choicesOf ["search", "delete_db"]) := by
  refine ⟨rfl, fun original henforced => ?_, rfl, ?_⟩
  · have hfree := henforced.offers _ List.mem_cons_self (units "delete_db") rfl
    exact absurd hfree (by decide +kernel)
  · exact ⟨_, List.mem_cons_of_mem _ List.mem_cons_self, rfl, units "delete_db", rfl, by decide +kernel⟩

end JamJet.Enforcement
