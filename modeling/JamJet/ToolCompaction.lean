import JamJet.JsValue
import JamJet.Regex
import Mathlib.Algebra.GroupWithZero.Nat
import Mathlib.Data.List.Infix

/-! The compaction of tool results before a model call, by rules that cap the results of the tools
they match, and what it does to a request. -/

namespace JamJet.Compaction

open Js (Number TypeError Value units)
open Regex (Body)
open ToolPolicies.TypeScript (dot)

def MARKER : List ℕ := units "truncated by JamJet"

structure CompactionRule where
  toolPattern : List ℕ
  maxResultTokens : Number
  deriving DecidableEq

/-- An expression as far as it has been read: its atoms, the last one first, and how many `?` may
still follow. -/
structure Draft where
  atoms : List (Body ℕ)
  marks : ℕ

/-- A `?` is not escaped.  Behind a letter it makes the letter optional, and a second one says to
try without it first; behind `.*` there may be only this second one. -/
def Draft.read (draft : Draft) (unit : ℕ) : Option Draft :=
  if unit = '*'.toNat then some ⟨.many dot 0 :: draft.atoms, 1⟩
  else if unit = '?'.toNat then
    match draft.marks, draft.atoms with
    | 2, atom :: atoms => some ⟨.opt atom :: atoms, 1⟩
    | 1, atoms => some ⟨atoms, 0⟩
    | _, _ => none
  else some ⟨.one (· = unit) :: draft.atoms, 2⟩

/-- `none` is a `SyntaxError`. -/
def globToRegExp (glob : List ℕ) : Option (Body ℕ) :=
  (glob.foldlM Draft.read ⟨[], 0⟩).map fun draft => Body.all draft.atoms.reverse

/-- The rules, when the constructor has thrown nothing. -/
structure CompactionResolver where
  rules : List CompactionRule
  compiled : ∀ rule ∈ rules, (globToRegExp rule.toolPattern).isSome

namespace CompactionResolver

def hasRules (resolver : CompactionResolver) : Bool := !resolver.rules.isEmpty

/-- `re.test(toolName)`, the expression being anchored at both ends. -/
def ruleFor (resolver : CompactionResolver) (toolName : List ℕ) : Option CompactionRule :=
  resolver.rules.find? fun rule =>
    (globToRegExp rule.toolPattern).any fun re => [] ∈ re.rests toolName

end CompactionResolver

/-- `none` is `NaN` or infinity, which no length is over. -/
def capChars (maxTokens : Number) : Option ℕ :=
  match maxTokens with
  | .finite q => some (q * 4).floor.toNat
  | .infinity true => some 0
  | _ => none

/-- What is put behind a text that was cut. -/
def markerLine (tokens : ℕ) (tool : List ℕ) : List ℕ :=
  units "\n…[+~" ++ units (toString tokens) ++ units " tokens " ++ MARKER ++ units " — call " ++
    tool ++ units " for the full result]"

def truncateText (text : List ℕ) (keep : Option ℕ) (tool : List ℕ) : List ℕ × ℕ :=
  if MARKER <:+: text then (text, 0)
  else
    match keep with
    | none => (text, 0)
    | some keep =>
      if text.length ≤ keep then (text, 0)
      else
        let removed := text.length - keep
        (text.take keep ++ markerLine (removed / 4) tool, removed / 4)

section Names

/-- A `tool_use` block. -/
def nameOfBlock (block : Value) : List (List ℕ × Value) :=
  match block.prop "id", block.prop "name" with
  | .string id, .string name =>
    if (block.prop "type").is "tool_use" then [(id, .string name)] else []
  | _, _ => []

/-- An entry of `tool_calls`.  One with an id that is no string is never asked for. -/
def nameOfCall (tc : Value) : List (List ℕ × Value) :=
  let name := (tc.prop "function").prop "name"
  match tc.prop "id" with
  | .string id => if !id.isEmpty && name.truthy then [(id, name)] else []
  | _ => []

/-- What a message sets in `idToName`, in this order. -/
def namesOf (m : Value) : List (List ℕ × Value) :=
  (m.prop "content").items.flatMap nameOfBlock ++ (m.prop "tool_calls").items.flatMap nameOfCall

end Names

/-- The result text of a tool that has a rule. -/
structure Result where
  tool : List ℕ
  rule : CompactionRule
  text : List ℕ
  deriving DecidableEq

section Results

variable (toText : Value → List ℕ) (resolver : CompactionResolver)
  (idToName : List (List ℕ × Value)) {β : Type} (edit : Result → List ℕ × List β)

/-- A name as a text.  Whatever is no string is turned into one. -/
def nameText : Value → List ℕ
  | .string s => s
  | v => toText v

/-- The tool that a result is of, and its rule. -/
def ruleOf (id : List ℕ) : Option (List ℕ × CompactionRule) :=
  (idToName.reverse.lookup id).bind fun name =>
    if name.truthy then
      (resolver.ruleFor (nameText toText name)).map (nameText toText name, ·)
    else none

/-- A text under a key is edited. -/
def visitText (key : String) (v : Value) (result : Result) : Value × List β :=
  (v.set key (.string (edit result).1), (edit result).2)

/-- A list is gone through item by item. -/
def visitAll (visit : Value → Value × List β) (items : List Value) : Value × List β :=
  (.array (items.map fun item => (visit item).1), items.flatMap fun item => (visit item).2)

/-- A list under a key is gone through. -/
def visitList (key : String) (visit : Value → Value × List β) (v : Value) (items : List Value) :
    Value × List β :=
  (v.set key (visitAll visit items).1, (visitAll visit items).2)

/-- An item of the content of a `tool_result`. -/
def visitItem (tool : List ℕ) (rule : CompactionRule) (cb : Value) : Value × List β :=
  match (cb.prop "type").is "text", cb.prop "text" with
  | true, .string text => visitText edit "text" cb ⟨tool, rule, text⟩
  | _, _ => (cb, [])

def visitBlock (block : Value) : Value × List β :=
  match (block.prop "type").is "tool_result", block.prop "tool_use_id" with
  | true, .string id =>
    match ruleOf toText resolver idToName id, block.prop "content" with
    | some (tool, rule), .string text => visitText edit "content" block ⟨tool, rule, text⟩
    | some (tool, rule), .array items => visitList "content" (visitItem edit tool rule) block items
    | _, _ => (block, [])
  | _, _ => (block, [])

/-- A message, with what becomes of the result texts that have a rule left open: an edit makes
another text of each one, and notes something. -/
def visitMessage (m : Value) : Value × List β :=
  match m.prop "content", (m.prop "role").is "tool", m.prop "tool_call_id" with
  | .string text, true, .string id =>
    match ruleOf toText resolver idToName id with
    | some (tool, rule) => visitText edit "content" m ⟨tool, rule, text⟩
    | none => (m, [])
  | .array blocks, _, _ => visitList "content" (visitBlock toText resolver idToName edit) m blocks
  | _, _, _ => (m, [])

end Results

/-- What compaction makes of a result text.  It notes what is saved, if this is anything; else the
text is set to what it is. -/
def compactText (result : Result) : List ℕ × List ℕ :=
  let (txt, saved) :=
    truncateText result.text (capChars result.rule.maxResultTokens) result.tool
  if 0 < saved then (txt, [saved]) else (result.text, [])

section Requests

variable (toText : Value → List ℕ) (resolver : CompactionResolver) {β : Type}

/-- The two passes over the messages, of which the first one reads the content of every one. -/
def compactMessages (arg0 : Value) (messages : List Value) : Except TypeError (Value × ℕ) := do
  let _ ← messages.mapM fun m => m.access "content"
  let (newMessages, saved) :=
    visitAll (visitMessage toText resolver (messages.flatMap namesOf) compactText) messages
  return if saved.isEmpty then (arg0, 0) else (arg0.set "messages" newMessages, saved.sum)

def applyCompaction (arg0 : Value) : Except TypeError (Value × ℕ) := do
  let messages ← arg0.access "messages"
  match messages with
  | .array messages =>
    if resolver.hasRules then compactMessages toText resolver arg0 messages else .ok (arg0, 0)
  | _ => .ok (arg0, 0)

/-- The result texts of a request, edited. -/
def editRequest (edit : Result → List ℕ × List β) (arg0 : Value) : Value × List β :=
  match arg0.prop "messages" with
  | .array messages =>
    visitList "messages" (visitMessage toText resolver (messages.flatMap namesOf) edit) arg0 messages
  | _ => (arg0, [])

end Requests

/-- An edit that leaves every text as it is and notes it. -/
def listed (result : Result) : List ℕ × List Result := (result.text, [result])

/-- One edit after the other. -/
def after {β γ : Type} (edit' : Result → List ℕ × List γ) (edit : Result → List ℕ × List β)
    (result : Result) : List ℕ × List γ :=
  edit' { result with text := (edit result).1 }

/-! ### Going through the result texts -/

/-- What going through a value's result texts does, whatever the edit is: two edits one after the
other are one edit, an edit notes what it notes of the texts there are, and a value with the texts
that it had is as it was. -/
structure Visits (visit : ∀ {β : Type}, (Result → List ℕ × List β) → Value → Value × List β) :
    Prop where
  fuse : ∀ {β γ : Type} (edit : Result → List ℕ × List β) (edit' : Result → List ℕ × List γ) v,
    visit edit' (visit edit v).1 = visit (after edit' edit) v
  noted : ∀ {β : Type} (edit : Result → List ℕ × List β) v,
    (visit edit v).2 = (visit listed v).2.flatMap fun result => (edit result).2
  kept : ∀ {β : Type} (edit : Result → List ℕ × List β) v,
    (∀ result ∈ (visit listed v).2, (edit result).1 = result.text) → (visit edit v).1 = v

section Laws

variable {visit : ∀ {β : Type}, (Result → List ℕ × List β) → Value → Value × List β}
  {toText : Value → List ℕ} {resolver : CompactionResolver} {idToName : List (List ℕ × Value)}
  {β γ : Type} {edit : Result → List ℕ × List β} {edit' : Result → List ℕ × List γ}
  {v : Value} {key key' : String} {result : Result} {items : List Value}

theorem visitText_prop (h : v.prop key = .string result.text) (hne : key' ≠ key) :
    (visitText edit key v result).1.prop key' = v.prop key' :=
  Value.prop_set_of_ne h (by simp) hne

theorem visitText_fuse : visitText edit' key (visitText edit key v result).1
    { result with text := (edit result).1 } = visitText (after edit' edit) key v result :=
  Prod.ext Value.set_set rfl

theorem visitText_noted : (visitText edit key v result).2 =
    (visitText listed key v result).2.flatMap fun result => (edit result).2 := by
  simp [visitText, listed]

theorem visitText_kept (h : v.prop key = .string result.text)
    (hkept : ∀ r ∈ (visitText listed key v result).2, (edit r).1 = r.text) :
    (visitText edit key v result).1 = v := by
  have htext : (edit result).1 = result.text := hkept result List.mem_cons_self
  unfold visitText
  rw [htext]
  exact Value.set_prop h (by simp)

theorem visitList_prop {visit : Value → Value × List β} (h : v.prop key = .array items)
    (hne : key' ≠ key) : (visitList key visit v items).1.prop key' = v.prop key' :=
  Value.prop_set_of_ne h (by simp) hne

theorem visitList_fuse (hvisit : Visits visit) :
    visitList key (visit edit') (visitList key (visit edit) v items).1
      (items.map fun item => (visit edit item).1) =
      visitList key (visit (after edit' edit)) v items := by
  have hitems : visitAll (visit edit') (items.map fun item => (visit edit item).1) =
      visitAll (visit (after edit' edit)) items := by
    simp only [visitAll, List.map_map, List.flatMap_map, Function.comp_def, hvisit.fuse]
  unfold visitList
  rw [hitems, Value.set_set]

theorem visitList_noted (hvisit : Visits visit) : (visitList key (visit edit) v items).2 =
    (visitList key (visit listed) v items).2.flatMap fun result => (edit result).2 := by
  simp only [visitList, visitAll, List.flatMap_assoc, ← hvisit.noted]

theorem visitList_kept (hvisit : Visits visit) (h : v.prop key = .array items)
    (hkept : ∀ r ∈ (visitList key (visit listed) v items).2, (edit r).1 = r.text) :
    (visitList key (visit edit) v items).1 = v := by
  have hitems : (items.map fun item => (visit edit item).1) = items := by
    refine (List.map_congr_left fun item hitem => ?_).trans (List.map_id _)
    exact hvisit.kept edit item fun r hr => hkept r (List.mem_flatMap.mpr ⟨item, hitem, hr⟩)
  unfold visitList visitAll
  rw [hitems]
  exact Value.set_prop h (by simp)

/-- What there is to do at a value, and still is when the text or the list found there has become
another one. -/
inductive Reads (visit : ∀ {β : Type}, (Result → List ℕ × List β) → Value → Value × List β)
    (v : Value) : Prop
  | nothing (h : ∀ {β : Type} (edit : Result → List ℕ × List β), visit edit v = (v, []))
  | text (key : String) (result : Result) (hfound : v.prop key = .string result.text)
      (h : ∀ {β : Type} (edit : Result → List ℕ × List β) v' text,
        (∀ key', key' ≠ key → v'.prop key' = v.prop key') → v'.prop key = .string text →
          visit edit v' = visitText edit key v' { result with text := text })
  | content (items : List Value)
      (inner : ∀ {β : Type}, (Result → List ℕ × List β) → Value → Value × List β)
      (hinner : Visits inner) (hfound : v.prop "content" = .array items)
      (h : ∀ {β : Type} (edit : Result → List ℕ × List β) v' items',
        (∀ key', key' ≠ "content" → v'.prop key' = v.prop key') →
          v'.prop "content" = .array items' →
            visit edit v' = visitList "content" (inner edit) v' items')

theorem visits_of_reads (h : ∀ v, Reads visit v) : Visits visit where
  fuse edit edit' v := by
    cases h v with
    | nothing h => rw [h, h, h]
    | text key result hfound h =>
      have hvisit := h edit v result.text (fun _ _ => rfl) hfound
      rw [h (after edit' edit) v result.text (fun _ _ => rfl) hfound, hvisit,
        h edit' _ (edit result).1 (fun _ hne => visitText_prop hfound hne) Value.prop_set]
      exact visitText_fuse
    | content items inner hinner hfound h =>
      have hvisit := h edit v items (fun _ _ => rfl) hfound
      rw [h (after edit' edit) v items (fun _ _ => rfl) hfound, hvisit,
        h edit' _ (items.map fun item => (inner edit item).1)
          (fun _ hne => visitList_prop hfound hne) Value.prop_set]
      exact visitList_fuse hinner
  noted edit v := by
    cases h v with
    | nothing h => rw [h, h]; rfl
    | text key result hfound h =>
      rw [h _ v result.text (fun _ _ => rfl) hfound, h _ v result.text (fun _ _ => rfl) hfound]
      exact visitText_noted
    | content items inner hinner hfound h =>
      rw [h _ v items (fun _ _ => rfl) hfound, h _ v items (fun _ _ => rfl) hfound]
      exact visitList_noted hinner
  kept edit v hkept := by
    cases h v with
    | nothing h => rw [h]
    | text key result hfound h =>
      rw [h _ v result.text (fun _ _ => rfl) hfound] at hkept ⊢
      exact visitText_kept hfound hkept
    | content items inner hinner hfound h =>
      rw [h _ v items (fun _ _ => rfl) hfound] at hkept ⊢
      exact visitList_kept hinner hfound hkept

theorem visits_visitItem (tool : List ℕ) (rule : CompactionRule) :
    Visits fun edit => visitItem edit tool rule := by
  refine visits_of_reads fun cb => ?_
  cases htype : (cb.prop "type").is "text" with
  | false => exact .nothing fun edit => by unfold visitItem; rw [htype]
  | true =>
    cases htext : cb.prop "text" with
    | string text =>
      refine .text "text" ⟨tool, rule, text⟩ htext fun edit cb' text' hsame htext' => ?_
      unfold visitItem
      rw [hsame "type" (by decide), htype, htext']
    | _ => exact .nothing fun edit => by unfold visitItem; rw [htype, htext]

theorem visits_visitBlock : Visits (visitBlock toText resolver idToName) := by
  refine visits_of_reads fun block => ?_
  cases htype : (block.prop "type").is "tool_result" with
  | false => exact .nothing fun edit => by unfold visitBlock; rw [htype]
  | true =>
    cases hid : block.prop "tool_use_id" with
    | string id =>
      cases hrule : ruleOf toText resolver idToName id with
      | none =>
        refine .nothing fun edit => ?_
        unfold visitBlock
        simp only [htype, hid, hrule]
      | some found =>
        obtain ⟨tool, rule⟩ := found
        cases hcontent : block.prop "content" with
        | string text =>
          refine .text "content" ⟨tool, rule, text⟩ hcontent fun edit block' text' hsame htext => ?_
          unfold visitBlock
          simp only [hsame "type" (by decide), hsame "tool_use_id" (by decide), htype, hid, hrule,
            htext]
        | array items =>
          refine .content items (fun edit => visitItem edit tool rule)
            (visits_visitItem tool rule) hcontent fun edit block' items' hsame hitems => ?_
          unfold visitBlock
          simp only [hsame "type" (by decide), hsame "tool_use_id" (by decide), htype, hid, hrule,
            hitems]
        | _ =>
          refine .nothing fun edit => ?_
          unfold visitBlock
          simp only [htype, hid, hrule, hcontent]
    | _ => exact .nothing fun edit => by unfold visitBlock; rw [htype, hid]

theorem visits_visitMessage : Visits (visitMessage toText resolver idToName) := by
  refine visits_of_reads fun m => ?_
  cases hcontent : m.prop "content" with
  | array blocks =>
    refine .content blocks (visitBlock toText resolver idToName) visits_visitBlock hcontent
      fun edit m' blocks' _ hblocks => ?_
    unfold visitMessage
    simp only [hblocks]
  | string text =>
    cases hrole : (m.prop "role").is "tool" with
    | false => exact .nothing fun edit => by unfold visitMessage; simp only [hrole, hcontent]
    | true =>
      cases hid : m.prop "tool_call_id" with
      | string id =>
        cases hrule : ruleOf toText resolver idToName id with
        | none =>
          refine .nothing fun edit => ?_
          unfold visitMessage
          simp only [hrole, hid, hcontent, hrule]
        | some found =>
          obtain ⟨tool, rule⟩ := found
          refine .text "content" ⟨tool, rule, text⟩ hcontent fun edit m' text' hsame htext => ?_
          unfold visitMessage
          simp only [hsame "role" (by decide), hsame "tool_call_id" (by decide), hrole, hid, hrule,
            htext]
      | _ => exact .nothing fun edit => by unfold visitMessage; simp only [hrole, hid, hcontent]
  | _ => exact .nothing fun edit => by unfold visitMessage; simp only [hcontent]

theorem visitBlock_prop {block : Value} (hne : key ≠ "content") :
    (visitBlock toText resolver idToName edit block).1.prop key = block.prop key := by
  unfold visitBlock
  split
  · split
    · next htext => exact visitText_prop htext hne
    · next hitems => exact visitList_prop hitems hne
    · rfl
  · rfl

theorem namesOf_visitMessage {m : Value} :
    namesOf (visitMessage toText resolver idToName edit m).1 = namesOf m := by
  unfold visitMessage
  split
  · next text id htext _ _ =>
    split
    · next tool rule _ =>
      have hcalls : (visitText edit "content" m ⟨tool, rule, text⟩).1.prop "tool_calls" =
          m.prop "tool_calls" := visitText_prop htext (by decide)
      rw [namesOf, hcalls, visitText, Value.prop_set, namesOf, htext]
      rfl
    · rfl
  · next blocks hblocks =>
    have hcalls : (visitList "content" (visitBlock toText resolver idToName edit) m blocks).1.prop
        "tool_calls" = m.prop "tool_calls" := visitList_prop hblocks (by decide)
    have hblock : ∀ block, nameOfBlock (visitBlock toText resolver idToName edit block).1 =
        nameOfBlock block := fun block => by
      rw [nameOfBlock, visitBlock_prop (by decide), visitBlock_prop (by decide),
        visitBlock_prop (by decide), nameOfBlock]
    rw [namesOf, hcalls, visitList, Value.prop_set, namesOf, hblocks]
    simp only [visitAll, Value.items, List.flatMap_map, hblock]
  · rfl

theorem visits_editRequest : Visits (editRequest toText resolver) where
  fuse edit edit' arg0 := by
    cases hmessages : arg0.prop "messages" with
    | array messages =>
      have hnames : (messages.map fun m =>
          (visitMessage toText resolver (messages.flatMap namesOf) edit m).1).flatMap namesOf =
          messages.flatMap namesOf := by
        simp only [List.flatMap_map, namesOf_visitMessage]
      have hedited : (editRequest toText resolver edit arg0).1.prop "messages" = .array
          (messages.map fun m =>
            (visitMessage toText resolver (messages.flatMap namesOf) edit m).1) := by
        simp only [editRequest, hmessages, visitList, Value.prop_set, visitAll]
      rw [editRequest, hedited]
      simp only [hnames]
      rw [editRequest, hmessages, editRequest, hmessages]
      exact visitList_fuse visits_visitMessage
    | _ => simp only [editRequest, hmessages]
  noted edit arg0 := by
    cases hmessages : arg0.prop "messages" with
    | array messages =>
      simp only [editRequest, hmessages]
      exact visitList_noted visits_visitMessage
    | _ => simp [editRequest, hmessages]
  kept edit arg0 hkept := by
    cases hmessages : arg0.prop "messages" with
    | array messages =>
      simp only [editRequest, hmessages] at hkept ⊢
      exact visitList_kept visits_visitMessage hmessages hkept
    | _ => simp only [editRequest, hmessages]

end Laws

/-! ### What compaction does to a result text -/

/-- A text is cut when it has no marker and is over the cap by what counts as a token. -/
def Cut (result : Result) : Prop :=
  ∃ cap, capChars result.rule.maxResultTokens = some cap ∧ ¬ MARKER <:+: result.text ∧
    cap + 4 ≤ result.text.length

/-- At most the cap and the marker line: the one at the end of the text, or else one that counts no
tokens. -/
def WithinCap (cap : ℕ) (tool text : List ℕ) : Prop :=
  ∃ tokens, (tokens = 0 ∨ markerLine tokens tool <:+ text) ∧
    text.length ≤ cap + (markerLine tokens tool).length

/-- A result text is at most so long if its rule has a cap. -/
def Capped (result : Result) : Prop :=
  ∀ cap, capChars result.rule.maxResultTokens = some cap → WithinCap cap result.tool result.text

section Texts

variable {result : Result} {cap tokens : ℕ} {tool text : List ℕ}

theorem marker_markerLine : MARKER <:+: markerLine tokens tool :=
  ⟨units "\n…[+~" ++ units (toString tokens) ++ units " tokens ",
    units " — call " ++ tool ++ units " for the full result]", by simp [markerLine]⟩

theorem length_markerLine : 4 ≤ (markerLine tokens tool).length := by
  have hmarker : MARKER.length ≤ (markerLine tokens tool).length := marker_markerLine.length_le
  exact Nat.le_trans (by decide) hmarker

theorem compactText_of_cut (hcap : capChars result.rule.maxResultTokens = some cap)
    (hmarker : ¬ MARKER <:+: result.text) (hlen : cap + 4 ≤ result.text.length) :
    compactText result =
      (result.text.take cap ++ markerLine ((result.text.length - cap) / 4) result.tool,
        [(result.text.length - cap) / 4]) := by
  unfold compactText truncateText
  have hover : ¬ result.text.length ≤ cap := by omega
  have hsaved : 0 < (result.text.length - cap) / 4 := by omega
  simp only [hcap, hmarker, hover, hsaved, if_true, if_false]

theorem compactText_of_not_cut (h : ¬ Cut result) : compactText result = (result.text, []) := by
  unfold compactText truncateText
  by_cases hmarker : MARKER <:+: result.text
  · simp [hmarker]
  · rw [if_neg hmarker]
    cases hcap : capChars result.rule.maxResultTokens with
    | none => simp
    | some cap =>
      have hlen : result.text.length < cap + 4 := by
        by_contra hlong
        exact h ⟨cap, hcap, hmarker, by omega⟩
      dsimp only
      by_cases hle : result.text.length ≤ cap
      · simp [hle]
      · rw [if_neg hle]
        dsimp only
        rw [if_neg (by omega)]

theorem not_cut_compactText : ¬ Cut { result with text := (compactText result).1 } := by
  by_cases h : Cut result
  · obtain ⟨cap, hcap, hmarker, hlen⟩ := h
    rw [compactText_of_cut hcap hmarker hlen]
    rintro ⟨-, -, hnot, -⟩
    exact hnot (marker_markerLine.trans (List.suffix_append _ _).isInfix)
  · rw [compactText_of_not_cut h]
    exact h

theorem length_le_compactText (result : Result) :
    result.text.length ≤ 4 * (compactText result).2.sum + (compactText result).1.length := by
  by_cases h : Cut result
  · obtain ⟨cap, hcap, hmarker, hlen⟩ := h
    have hline : 4 ≤ (markerLine ((result.text.length - cap) / 4) result.tool).length :=
      length_markerLine
    rw [compactText_of_cut hcap hmarker hlen, List.length_append, List.length_take,
      List.sum_singleton]
    omega
  · rw [compactText_of_not_cut h]
    exact Nat.le_add_left _ _

theorem length_lt_compactText (h : Cut result) :
    result.text.length < 4 * (compactText result).2.sum + (compactText result).1.length := by
  obtain ⟨cap, hcap, hmarker, hlen⟩ := h
  have hline : 4 ≤ (markerLine ((result.text.length - cap) / 4) result.tool).length :=
    length_markerLine
  rw [compactText_of_cut hcap hmarker hlen, List.length_append, List.length_take,
    List.sum_singleton]
  omega

theorem capped_compactText (h : MARKER <:+: result.text → Capped result) :
    Capped { result with text := (compactText result).1 } := by
  by_cases hcut : Cut result
  · obtain ⟨cap, hcap, hmarker, hlen⟩ := hcut
    intro cap' hcap'
    obtain rfl := Option.some.inj (hcap.symm.trans hcap')
    rw [compactText_of_cut hcap hmarker hlen]
    refine ⟨(result.text.length - cap) / 4, .inr (List.suffix_append _ _), ?_⟩
    dsimp only
    rw [List.length_append, List.length_take]
    omega
  · rw [compactText_of_not_cut hcut]
    by_cases hmarker : MARKER <:+: result.text
    · exact h hmarker
    · intro cap hcap
      have hlen : result.text.length < cap + 4 := by
        by_contra hlong
        exact hcut ⟨cap, hcap, hmarker, by omega⟩
      have hline : 4 ≤ (markerLine 0 result.tool).length := length_markerLine
      refine ⟨0, .inl rfl, ?_⟩
      dsimp only
      omega

end Texts

/-! ### What compaction does to a request -/

section Claims

variable (toText : Value → List ℕ) (resolver : CompactionResolver)

/-- The texts of the results whose tool matches a rule. -/
def resultTexts (arg0 : Value) : List Result := (editRequest toText resolver listed arg0).2

/-- A request but for these texts. -/
def withoutTexts (arg0 : Value) : Value :=
  (editRequest toText resolver (fun _ => ([], ([] : List Unit))) arg0).1

def characters (results : List Result) : ℕ := (results.map (·.text.length)).sum

/-- A text that was not changed, or is shorter now. -/
def Shorter (before now : Result) : Prop :=
  now.tool = before.tool ∧ now.rule = before.rule ∧
    (now.text = before.text ∨ now.text.length < before.text.length)

structure OnlyShrinks (arg0 mutated : Value) (tokensSaved : ℕ) : Prop where
  idempotent : applyCompaction toText resolver mutated = .ok (mutated, 0)
  elsewhere : withoutTexts toText resolver mutated = withoutTexts toText resolver arg0
  shorter : List.Forall₂ Shorter (resultTexts toText resolver arg0)
    (resultTexts toText resolver mutated)
  saved : 4 * tokensSaved + characters (resultTexts toText resolver mutated) ≤
    characters (resultTexts toText resolver arg0)
  capped : ∀ result ∈ resultTexts toText resolver mutated, Capped result

variable {toText resolver} {arg0 mutated : Value} {tokensSaved : ℕ} {results : List Result}

/-- No property of `undefined` or `null` is read. -/
def Readable (resolver : CompactionResolver) (arg0 : Value) : Prop :=
  arg0.isNullish = false ∧ (resolver.hasRules = true →
    ∀ m ∈ (arg0.prop "messages").items, m.isNullish = false)

theorem resultTexts_of_no_rules (h : resolver.hasRules = false) :
    resultTexts toText resolver arg0 = [] := by
  have hrules : resolver.rules = [] := by simpa [CompactionResolver.hasRules] using h
  have hrule : ∀ names id, ruleOf toText resolver names id = none := fun names id => by
    unfold ruleOf CompactionResolver.ruleFor
    rw [hrules]
    cases names.reverse.lookup id <;> simp
  have hblock : ∀ names block, (visitBlock toText resolver names listed block).2 = [] :=
    fun names block => by
      unfold visitBlock
      split
      · rw [hrule]
      · rfl
  have hmessage : ∀ names m, (visitMessage toText resolver names listed m).2 = [] :=
    fun names m => by
      unfold visitMessage
      split
      · rw [hrule]
      · simp [visitList, visitAll, hblock]
      · rfl
  unfold resultTexts editRequest
  split
  · simp [visitList, visitAll, hmessage]
  · rfl

theorem noted_eq {β : Type} (edit : Result → List ℕ × List β) :
    (editRequest toText resolver edit arg0).2 =
      (resultTexts toText resolver arg0).flatMap fun result => (edit result).2 :=
  visits_editRequest.noted edit arg0

theorem editRequest_of_nothing (h : (editRequest toText resolver compactText arg0).2 = []) :
    (editRequest toText resolver compactText arg0).1 = arg0 := by
  refine visits_editRequest.kept compactText arg0 fun result hresult => ?_
  rw [noted_eq, List.flatMap_eq_nil_iff] at h
  by_cases hcut : Cut result
  · obtain ⟨cap, hcap, hmarker, hlen⟩ := hcut
    have hnothing := h result hresult
    rw [compactText_of_cut hcap hmarker hlen] at hnothing
    simp at hnothing
  · rw [compactText_of_not_cut hcut]

theorem compactMessages_eq_ok {messages : List Value}
    (hmessages : arg0.prop "messages" = .array messages) :
    compactMessages toText resolver arg0 messages = .ok (mutated, tokensSaved) ↔
      (∀ m ∈ messages, m.isNullish = false) ∧
        mutated = (editRequest toText resolver compactText arg0).1 ∧
        tokensSaved = (editRequest toText resolver compactText arg0).2.sum := by
  have hedit : editRequest toText resolver compactText arg0 =
      visitList "messages" (visitMessage toText resolver (messages.flatMap namesOf) compactText) arg0
        messages := by
    simp only [editRequest, hmessages]
  have hout : (if (visitAll (visitMessage toText resolver (messages.flatMap namesOf) compactText)
        messages).2.isEmpty then (arg0, 0)
      else (arg0.set "messages" (visitAll (visitMessage toText resolver (messages.flatMap namesOf)
        compactText) messages).1, (visitAll (visitMessage toText resolver
          (messages.flatMap namesOf) compactText) messages).2.sum)) =
      ((editRequest toText resolver compactText arg0).1,
        (editRequest toText resolver compactText arg0).2.sum) := by
    split
    · next hempty =>
      have hnothing : (editRequest toText resolver compactText arg0).2 = [] := by
        rw [hedit]
        exact List.isEmpty_iff.mp hempty
      rw [editRequest_of_nothing hnothing, hnothing]
      rfl
    · rw [hedit]
      rfl
  rw [← Value.mapM_access "content"]
  unfold compactMessages
  rw [Fallible.bind_eq_ok]
  dsimp only
  rw [exists_and_right, hout]
  simp only [pure, Except.pure, Except.ok.injEq, Prod.mk.injEq, eq_comm]

theorem applyCompaction_eq_ok : applyCompaction toText resolver arg0 = .ok (mutated, tokensSaved) ↔
    Readable resolver arg0 ∧ mutated = (editRequest toText resolver compactText arg0).1 ∧
      tokensSaved = (editRequest toText resolver compactText arg0).2.sum := by
  have hidle : (editRequest toText resolver compactText arg0).2 = [] →
      ((.ok (arg0, 0) : Except TypeError (Value × ℕ)) = .ok (mutated, tokensSaved) ↔
        mutated = (editRequest toText resolver compactText arg0).1 ∧
          tokensSaved = (editRequest toText resolver compactText arg0).2.sum) := by
    intro hnothing
    rw [editRequest_of_nothing hnothing, hnothing]
    simp only [Except.ok.injEq, Prod.mk.injEq, List.sum_nil, eq_comm]
  unfold applyCompaction Readable
  rw [Fallible.bind_eq_ok]
  simp only [Value.access_eq_ok, and_assoc, exists_and_left, exists_eq_left']
  cases hmessages : arg0.prop "messages" with
  | array messages =>
    cases hrules : resolver.hasRules with
    | true => simp [compactMessages_eq_ok hmessages, Value.items]
    | false =>
      have hnothing : (editRequest toText resolver compactText arg0).2 = [] := by
        rw [noted_eq, resultTexts_of_no_rules hrules, List.flatMap_nil]
      simp [hidle hnothing]
  | _ =>
    have hnothing : (editRequest toText resolver compactText arg0).2 = [] := by
      simp only [editRequest, hmessages]
    simp [hidle hnothing, Value.items]

theorem prop_applyCompaction {key : String}
    (h : applyCompaction toText resolver arg0 = .ok (mutated, tokensSaved)) (hne : key ≠ "messages") :
    mutated.prop key = arg0.prop key := by
  obtain ⟨-, rfl, -⟩ := (applyCompaction_eq_ok).mp h
  unfold editRequest
  split
  · next messages hmessages => exact visitList_prop hmessages hne
  · rfl

theorem readable_editRequest {β : Type} {edit : Result → List ℕ × List β}
    (h : Readable resolver arg0) : Readable resolver (editRequest toText resolver edit arg0).1 := by
  unfold editRequest
  split
  · next messages hmessages =>
    refine ⟨rfl, fun hrules m hm => ?_⟩
    rw [visitList, Value.prop_set] at hm
    obtain ⟨m, hmem, rfl⟩ := List.mem_map.mp hm
    have hread : m.isNullish = false := h.2 hrules m (by rw [hmessages]; exact hmem)
    unfold visitMessage
    split
    · split
      · rfl
      · exact hread
    · rfl
    · exact hread
  · exact h

theorem resultTexts_editRequest {β : Type} (edit : Result → List ℕ × List β) :
    resultTexts toText resolver (editRequest toText resolver edit arg0).1 =
      (resultTexts toText resolver arg0).map fun result =>
        { result with text := (edit result).1 } := by
  rw [resultTexts, visits_editRequest.fuse, noted_eq, ← List.flatMap_pure_eq_map]
  rfl

theorem characters_le (results : List Result) : characters results ≤
    4 * (results.flatMap fun result => (compactText result).2).sum +
      characters (results.map fun result => { result with text := (compactText result).1 }) := by
  induction results with
  | nil => exact Nat.zero_le _
  | cons result results ih =>
    have hresult := length_le_compactText result
    simp only [characters, List.map_cons, List.sum_cons, List.flatMap_cons, List.sum_append] at ih ⊢
    omega

theorem not_cut_of_saved (h : 4 * (results.flatMap fun result => (compactText result).2).sum +
      characters (results.map fun result => { result with text := (compactText result).1 }) ≤
        characters results) : ∀ result ∈ results, ¬ Cut result := by
  induction results with
  | nil => simp
  | cons result results ih =>
    have hresult := length_le_compactText result
    have hrest := characters_le results
    simp only [characters, List.map_cons, List.sum_cons, List.flatMap_cons,
      List.sum_append] at h hrest ih
    intro r hr hcut
    rcases List.mem_cons.mp hr with rfl | hr
    · have hlt := length_lt_compactText hcut
      omega
    · exact ih (by omega) r hr hcut

theorem applyCompaction_idempotent
    (h : applyCompaction toText resolver arg0 = .ok (mutated, tokensSaved)) :
    applyCompaction toText resolver mutated = .ok (mutated, 0) := by
  obtain ⟨hread, rfl, -⟩ := (applyCompaction_eq_ok).mp h
  have hnothing : (editRequest toText resolver compactText
      (editRequest toText resolver compactText arg0).1).2 = [] := by
    rw [noted_eq, resultTexts_editRequest, List.flatMap_eq_nil_iff]
    intro result hresult
    obtain ⟨result, -, rfl⟩ := List.mem_map.mp hresult
    rw [compactText_of_not_cut not_cut_compactText]
  refine (applyCompaction_eq_ok).mpr ⟨readable_editRequest hread, ?_, ?_⟩
  · exact (editRequest_of_nothing hnothing).symm
  · rw [hnothing]
    rfl

theorem withoutTexts_applyCompaction
    (h : applyCompaction toText resolver arg0 = .ok (mutated, tokensSaved)) :
    withoutTexts toText resolver mutated = withoutTexts toText resolver arg0 := by
  obtain ⟨-, rfl, -⟩ := (applyCompaction_eq_ok).mp h
  rw [withoutTexts, visits_editRequest.fuse]
  rfl

theorem shorter_iff (h : applyCompaction toText resolver arg0 = .ok (mutated, tokensSaved)) :
    List.Forall₂ Shorter (resultTexts toText resolver arg0) (resultTexts toText resolver mutated) ↔
      ∀ result ∈ resultTexts toText resolver arg0, Cut result →
        (compactText result).1.length < result.text.length := by
  obtain ⟨-, rfl, -⟩ := (applyCompaction_eq_ok).mp h
  rw [resultTexts_editRequest, List.forall₂_map_right_iff, List.forall₂_same]
  refine forall₂_congr fun result _ => ?_
  constructor
  · rintro ⟨-, -, hsame | hlt⟩ hcut
    · obtain ⟨cap, hcap, hmarker, hlen⟩ := hcut
      rw [compactText_of_cut hcap hmarker hlen] at hsame
      exact absurd (hsame ▸ marker_markerLine.trans (List.suffix_append _ _).isInfix) hmarker
    · exact hlt
  · intro hlt
    refine ⟨rfl, rfl, ?_⟩
    by_cases hcut : Cut result
    · exact .inr (hlt hcut)
    · exact .inl (congrArg Prod.fst (compactText_of_not_cut hcut))

theorem capped_applyCompaction
    (h : applyCompaction toText resolver arg0 = .ok (mutated, tokensSaved)) :
    (∀ result ∈ resultTexts toText resolver mutated, Capped result) ↔
      ∀ result ∈ resultTexts toText resolver arg0, MARKER <:+: result.text → Capped result := by
  obtain ⟨-, rfl, -⟩ := (applyCompaction_eq_ok).mp h
  rw [resultTexts_editRequest, List.forall_mem_map]
  refine forall₂_congr fun result _ => ?_
  constructor
  · intro hcapped hmarker
    have hcut : ¬ Cut result := fun ⟨_, _, hnot, _⟩ => hnot hmarker
    rwa [compactText_of_not_cut hcut] at hcapped
  · exact capped_compactText

theorem saved_iff (h : applyCompaction toText resolver arg0 = .ok (mutated, tokensSaved)) :
    4 * tokensSaved + characters (resultTexts toText resolver mutated) ≤
        characters (resultTexts toText resolver arg0) ↔
      ∀ result ∈ resultTexts toText resolver arg0, ¬ Cut result := by
  obtain ⟨-, rfl, rfl⟩ := (applyCompaction_eq_ok).mp h
  rw [resultTexts_editRequest, noted_eq]
  constructor
  · exact not_cut_of_saved
  · intro hcut
    have hnothing : (editRequest toText resolver compactText arg0).2 = [] := by
      rw [noted_eq, List.flatMap_eq_nil_iff]
      exact fun result hresult => by rw [compactText_of_not_cut (hcut result hresult)]
    rw [← noted_eq, ← resultTexts_editRequest, hnothing, editRequest_of_nothing hnothing]
    simp

theorem onlyShrinks_iff (h : applyCompaction toText resolver arg0 = .ok (mutated, tokensSaved)) :
    OnlyShrinks toText resolver arg0 mutated tokensSaved ↔
      ∀ result ∈ resultTexts toText resolver arg0,
        ¬ Cut result ∧ (MARKER <:+: result.text → Capped result) := by
  rw [forall₂_and, ← saved_iff h, ← capped_applyCompaction h]
  constructor
  · exact fun hshrinks => ⟨hshrinks.saved, hshrinks.capped⟩
  · rintro ⟨hsaved, hcapped⟩
    have hcut := (saved_iff h).mp hsaved
    exact {
      idempotent := applyCompaction_idempotent h
      elsewhere := withoutTexts_applyCompaction h
      shorter := (shorter_iff h).mpr fun result hresult hthis => absurd hthis (hcut result hresult)
      saved := hsaved
      capped := hcapped }

end Claims

/-- Results of `search` are cut to five tokens. -/
def searchRule : CompactionRule := ⟨units "search*", .finite 5⟩

def searchResolver : CompactionResolver := ⟨[searchRule], by decide +kernel⟩

/-- A call of `search.kb` with its result. -/
def searchRequest (text : String) : Value :=
  .object [("messages", .array [
    .object [("role", .string (units "assistant")), ("tool_calls", .array [
      .object [("id", .string (units "c1")), ("function", .object [
        ("name", .string (units "search.kb"))])]])],
    .object [("role", .string (units "tool")), ("tool_call_id", .string (units "c1")),
      ("content", .string (units text))]])]

def searchResult (text : String) : Result := ⟨units "search.kb", searchRule, units text⟩

theorem capChars_searchRule : capChars searchRule.maxResultTokens = some 20 := by decide +kernel

theorem readable_searchRequest (text : String) : Readable searchResolver (searchRequest text) := by
  refine ⟨rfl, fun _ m hm => ?_⟩
  simp only [searchRequest, Value.prop, List.lookup_cons_self, Option.getD_some, Value.items,
    List.mem_cons, List.not_mem_nil, or_false] at hm
  rcases hm with rfl | rfl <;> rfl

/-- A result of twenty-three characters is kept. -/
theorem onlyShrinks_search :
    OnlyShrinks (fun _ => []) searchResolver (searchRequest "twenty-three characters")
      (searchRequest "twenty-three characters") 0 := by
  have hlist : resultTexts (fun _ => []) searchResolver (searchRequest "twenty-three characters") =
      [searchResult "twenty-three characters"] := by decide +kernel
  have hcut : ¬ Cut (searchResult "twenty-three characters") := by
    rintro ⟨cap, hcap, -, hlen⟩
    obtain rfl := Option.some.inj (capChars_searchRule.symm.trans hcap)
    exact absurd hlen (by decide +kernel)
  have hnothing : (editRequest (fun _ => []) searchResolver compactText
      (searchRequest "twenty-three characters")).2 = [] := by
    rw [noted_eq, hlist, List.flatMap_singleton, compactText_of_not_cut hcut]
  have hcall := applyCompaction_eq_ok.mpr ⟨readable_searchRequest "twenty-three characters",
    (editRequest_of_nothing hnothing).symm, (congrArg List.sum hnothing).symm⟩
  refine (onlyShrinks_iff hcall).mpr fun result hresult => ?_
  rw [hlist, List.mem_singleton] at hresult
  subst hresult
  exact ⟨hcut, fun hmarker => absurd hmarker (by decide +kernel)⟩

/-- One more character, and the text is cut to twenty characters and gets a line of more than
eighty, while a token is counted as saved. -/
theorem result_grows : ∃ mutated tokensSaved,
    applyCompaction (fun _ => []) searchResolver (searchRequest "twenty-four characters..") =
      .ok (mutated, tokensSaved) ∧ tokensSaved = 1 ∧
    ¬ OnlyShrinks (fun _ => []) searchResolver (searchRequest "twenty-four characters..") mutated
      tokensSaved := by
  have hcall : applyCompaction (fun _ => []) searchResolver
      (searchRequest "twenty-four characters..") = .ok (_, _) :=
    applyCompaction_eq_ok.mpr ⟨readable_searchRequest "twenty-four characters..", rfl, rfl⟩
  refine ⟨_, _, hcall, by decide +kernel, fun hshrinks => ?_⟩
  have hlist : resultTexts (fun _ => []) searchResolver (searchRequest "twenty-four characters..") =
      [searchResult "twenty-four characters.."] := by decide +kernel
  refine (saved_iff hcall).mp hshrinks.saved (searchResult "twenty-four characters..")
    (by rw [hlist]; exact List.mem_singleton_self _) ⟨20, capChars_searchRule, ?_, ?_⟩
  · decide +kernel
  · decide +kernel

end JamJet.Compaction
