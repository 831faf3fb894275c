import JamJet.Facts
import JamJet.Hashing
import JamJet.TimestampOrder

/-! Context blocks for a prompt: retrieved facts, by tier, as many as a token budget takes, and the
text they are rendered in. -/

namespace JamJet.Engram

inductive OutputFormat
  | systemPrompt
  | markdown
  | raw
  deriving DecidableEq, Repr

structure ContextConfig where
  tokenBudget : ℕ := 2000
  format : OutputFormat := .systemPrompt
  maxCandidates : ℕ := 100

structure ContextBlock where
  text : String
  tokenCount : ℕ
  factsIncluded : ℕ
  factsOmitted : ℕ
  tierBreakdown : BTree ℕ

namespace MemoryTier

def priority : MemoryTier → ℕ
  | .working => 0
  | .conversation => 1
  | .knowledge => 2

def name : MemoryTier → String
  | .working => "working"
  | .conversation => "conversation"
  | .knowledge => "knowledge"

def label : MemoryTier → String
  | .working => "Working Memory"
  | .conversation => "Conversation"
  | .knowledge => "Knowledge"

end MemoryTier

/-- What a rendering draws on: how ids are written, and the clock, as it is read line by line. -/
structure Rendering where
  uuid : FactId → String
  clock : ℕ → Instant

namespace Context

/-- `CharTokenEstimator`: a token for every four bytes, rounded up. -/
def estimate (text : String) : ℕ := (text.utf8ByteSize + 3) / 4

/-- By tier, otherwise in the order of retrieval. -/
def sortByTierPriority (facts : List Fact) : List Fact :=
  facts.insertionSort fun f g => f.tier.priority ≤ g.tier.priority

def formatOverhead : OutputFormat → ℕ
  | .systemPrompt => 15
  | .markdown => 13
  | .raw => 5

/-- Take each fact that still fits; the dash and the line break count two tokens. -/
def fillStep (budgetForFacts : ℕ) (acc : List Fact × ℕ) (fact : Fact) : List Fact × ℕ :=
  let factTokens := estimate fact.text + 2
  if budgetForFacts < acc.2 + factTokens then acc
  else (acc.1 ++ [fact], acc.2 + factTokens)

def fill (budgetForFacts : ℕ) (facts : List Fact) : List Fact :=
  (facts.foldl (fillStep budgetForFacts) ([], 0)).1

def countTier (counts : BTree ℕ) (fact : Fact) : BTree ℕ :=
  BTree.insert counts fact.tier.name ((BTree.get counts fact.tier.name).getD 0 + 1)

def tierBreakdown (facts : List Fact) : BTree ℕ := facts.foldl countTier []

/-! Lines -/

/-- The day of a time. -/
def dayOf (t : Instant) : ℤ := ((t : ℕ) : ℤ) / 86400000000000

/-- `%Y-%m-%d` -/
def dateText (t : Instant) : String :=
  let date := Gregorian.dateOf (dayOf t)
  String.ofList (Gregorian.writeYear date.year ++ '-' :: (Gregorian.digits 2 date.month ++
    '-' :: Gregorian.digits 2 date.day))

/-- The date a line begins with: that of `valid_from` unless it is today, else an event date that
looks like one. -/
def linePrefix (now : Instant) (fact : Fact) : Option String :=
  if dayOf fact.validFrom ≠ dayOf now then some (dateText fact.validFrom)
  else fact.eventDate.filter fun date => date.toList.head?.any Char.isDigit

def formatFactLine (now : Instant) (fact : Fact) : String :=
  match linePrefix now fact with
  | some date => "- [" ++ date ++ "] " ++ fact.text
  | none => "- " ++ fact.text

/-- The facts, each with its line. -/
def factLines (clock : ℕ → Instant) (facts : List Fact) : List (Fact × String) :=
  facts.zipIdx.map fun entry => (entry.1, formatFactLine (clock entry.2) entry.1)

/-- Each line and its break. -/
def block : List (Fact × String) → String
  | [] => ""
  | entry :: rest => entry.2 ++ "\n" ++ block rest

/-! The three formats -/

def tierSection (tag : String) (lines : List (Fact × String)) : String :=
  if lines.isEmpty then ""
  else "<" ++ tag ++ ">\n" ++ block lines ++ "</" ++ tag ++ ">\n"

def ofTier (tier : MemoryTier) (lines : List (Fact × String)) : List (Fact × String) :=
  lines.filter fun entry => entry.1.tier = tier

def formatSystemPrompt (r : Rendering) (facts : List Fact) : String :=
  let lines := factLines r.clock facts
  "<memory>\n" ++ tierSection "working" (ofTier .working lines) ++
    tierSection "conversation" (ofTier .conversation lines) ++
    tierSection "knowledge" (ofTier .knowledge lines) ++ "</memory>"

/-- A heading where the tier changes. -/
def markdownLines : Option MemoryTier → List (Fact × String) → String
  | _, [] => ""
  | current, entry :: rest =>
      (if current ≠ some entry.1.tier then "### " ++ entry.1.tier.label ++ "\n\n" else "") ++
        (entry.2 ++ "\n") ++ markdownLines (some entry.1.tier) rest

def formatMarkdown (r : Rendering) (facts : List Fact) : String :=
  "## Memory Context\n\n" ++ markdownLines none (factLines r.clock facts)

variable [FloatText]

/-- An `f32` as JSON: the double of its value, `null` when it is not finite. -/
def f32Json (x : F32) : Json :=
  let sign := (x >>> 31).setWidth 64 <<< 63
  let exponent := ((x >>> 23).toNat % 256)
  let fraction := x.toNat % 2 ^ 23
  if exponent = 255 then .null
  else if exponent ≠ 0 then
    .number (.float (sign ||| BitVec.ofNat 64 ((exponent + 896) * 2 ^ 52 + fraction * 2 ^ 29)))
  else if fraction = 0 then .number (.float sign)
  else
    let top := Nat.log2 fraction
    .number (.float (sign ||| BitVec.ofNat 64
      ((top + 874) * 2 ^ 52 + (fraction - 2 ^ top) * 2 ^ (52 - top))))

/-- The members of a fact's entry, in the order of their keys. -/
def rawMembers (r : Rendering) (fact : Fact) : List (String × Json) :=
  [("category", Json.ofOption .string fact.category),
    ("confidence", Json.ofOption f32Json fact.confidence),
    ("id", .string (r.uuid fact.id)),
    ("text", .string fact.text),
    ("tier", .string fact.tier.name)]

def memberLine (member : String × Json) : String :=
  "    " ++ String.ofList (Hashing.quote member.1) ++ ": " ++ Hashing.canonicalJson member.2

/-- Texts between two of which a comma and a line break stand. -/
def commaLines : List String → String
  | [] => ""
  | [line] => line
  | line :: rest => line ++ ",\n" ++ commaLines rest

def rawEntry (r : Rendering) (fact : Fact) : String :=
  "  \x7b\n" ++ commaLines ((rawMembers r fact).map memberLine) ++ "\n  \x7d"

/-- `to_string_pretty` of the list of entries. -/
def formatRaw (r : Rendering) (facts : List Fact) : String :=
  if facts.isEmpty then "[]" else "[\n" ++ commaLines (facts.map (rawEntry r)) ++ "\n]"

def render (r : Rendering) : OutputFormat → List Fact → String
  | .systemPrompt => formatSystemPrompt r
  | .markdown => formatMarkdown r
  | .raw => formatRaw r

/-- The block made of the facts that were retrieved. -/
def assemble (cfg : ContextConfig) (r : Rendering) (retrieved : List Fact) : ContextBlock :=
  let facts := sortByTierPriority retrieved
  let included := fill (cfg.tokenBudget - formatOverhead cfg.format) facts
  let text := render r cfg.format included
  { text := text
    tokenCount := estimate text
    factsIncluded := included.length
    factsOmitted := facts.length - included.length
    tierBreakdown := tierBreakdown included }

/-- `ContextBuilder::build`, given how the hybrid retriever answers. -/
def build (cfg : ContextConfig) (r : Rendering)
    (search : String → Scope → ℕ → Except MemoryError (List Fact)) (query : String)
    (scope : Scope) : Except MemoryError ContextBlock :=
  (search query scope cfg.maxCandidates).map (assemble cfg r)

end Context

end JamJet.Engram
