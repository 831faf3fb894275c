import JamJet.ConditionNode
import JamJet.LineBuffer

/-! An agent called as a tool, in streaming mode: the body of its response read whole and then
line by line, or chunk by chunk as the network delivers it. -/

namespace JamJet.AgentTool

open Condition (trim isWhiteSpace)
open Delimited (closed closed_cons closed_nil)
open LineBuffer (drain feed handle)

/-! ### Text -/

/-- The bytes of a text. -/
def utf8 (s : List Char) : List UInt8 := s.flatMap String.utf8EncodeChar

/-- `std::str::from_utf8`. -/
def fromUtf8 (bytes : List UInt8) : Option (List Char) :=
  bytes.toByteArray.utf8Decode?.map Array.toList

/-- `str::split_inclusive` at the newlines. -/
def splitInclusive : List Char → List (List Char)
  | [] => []
  | c :: rest =>
      if c = '\n' then [c] :: splitInclusive rest
      else
        match splitInclusive rest with
        | [] => [[c]]
        | line :: lines => (c :: line) :: lines

def stripSuffix (c : Char) (s : List Char) : Option (List Char) :=
  if s.getLast? = some c then some s.dropLast else none

/-- `str::lines`. -/
def lines (s : List Char) : List (List Char) :=
  (splitInclusive s).map fun line =>
    match stripSuffix '\n' line with
    | none => line
    | some line => (stripSuffix '\r' line).getD line

theorem utf8_append (s t : List Char) : utf8 (s ++ t) = utf8 s ++ utf8 t := by
  simp [utf8]

theorem utf8_newline : utf8 ['\n'] = [10] := by decide

theorem fromUtf8_utf8 (s : List Char) : fromUtf8 (utf8 s) = some s := by
  have h := List.utf8Decode?_utf8Encode (l := s)
  simp only [List.utf8Encode] at h
  simp [fromUtf8, utf8, h]

theorem toNat_of_eq_ofNat {n : ℕ} (h : (10 : UInt8) = UInt8.ofNat n) : n % 256 = 10 := by
  have hnat := congrArg UInt8.toNat h
  simpa using hnat.symm

/-- No character but the newline has its byte among its own: the bytes of the others that take
several all start with a one. -/
theorem newline_mem_utf8EncodeChar {c : Char} (h : (10 : UInt8) ∈ String.utf8EncodeChar c) :
    c = '\n' := by
  have hval : c.val.toNat = 10 := by
    unfold String.utf8EncodeChar at h
    simp only at h
    split_ifs at h
    · have hbyte := toNat_of_eq_ofNat (List.mem_singleton.mp h)
      omega
    all_goals simp only [List.mem_cons, List.not_mem_nil, or_false] at h
    · rcases h with h | h <;> have hbyte := toNat_of_eq_ofNat h <;> omega
    · rcases h with h | h | h <;> have hbyte := toNat_of_eq_ofNat h <;> omega
    · rcases h with h | h | h | h <;> have hbyte := toNat_of_eq_ofNat h <;> omega
  apply Char.ext
  apply UInt32.toNat_inj.mp
  rw [hval]
  rfl

theorem newline_mem_utf8 {s : List Char} (h : (10 : UInt8) ∈ utf8 s) : '\n' ∈ s := by
  obtain ⟨c, hc, hmem⟩ := List.mem_flatMap.mp h
  rwa [← newline_mem_utf8EncodeChar hmem]

theorem utf8_closed (ls : List (List Char)) :
    utf8 (closed '\n' ls) = closed 10 (ls.map utf8) := by
  induction ls with
  | nil => rfl
  | cons l ls ih =>
    have hnewline : utf8 ('\n' :: closed '\n' ls) = 10 :: utf8 (closed '\n' ls) := by
      rw [← List.singleton_append, utf8_append, utf8_newline]
      rfl
    rw [closed_cons, utf8_append, hnewline, ih, List.map_cons, closed_cons]

/-! ### The two readers -/

variable {Cost : Type} [Add Cost]

inductive StreamEvent (Cost : Type)
  | progress (chunkIndex : ℕ) (chunk : Json) (accumulatedCost : Cost)
  | terminated (reason : String) (accumulatedCost : Cost)
  | completed (output : Json) (totalCost : Cost)
  deriving Repr

/-- What is sent after the invocation, and the output of the node. -/
structure StreamResult (Cost : Type) where
  events : List (StreamEvent Cost)
  output : Json
  deriving Repr

/-- The variables of either loop. -/
structure Reading (Cost : Type) where
  events : List (StreamEvent Cost)
  chunkIndex : ℕ
  accumulatedCost : Cost
  lastChunk : Json
  terminatedEarly : Bool
  deriving Repr

def Reading.start [Zero Cost] : Reading Cost := ⟨[], 0, 0, .null, false⟩

-- `serde_json::from_str`, and `as_f64` on a number
variable (fromStr : String → Option Json) (asF64 : JsonNumber → Cost)

/-- A line that is no JSON counts as text. -/
def chunkOf (trimmed : List Char) : Json :=
  (fromStr (String.ofList trimmed)).getD (Json.ofFields [("raw", .string (String.ofList trimmed))])

def addCost (accumulated : Cost) (chunk : Json) : Cost :=
  match chunk.get "cost_usd" with
  | some (.number cost) => accumulated + asF64 cost
  | _ => accumulated

/-- The progress event of a line, without the budget guard. -/
def emit (r : Reading Cost) (trimmed : List Char) : Reading Cost :=
  let chunk := chunkOf fromStr trimmed
  let accumulatedCost := addCost asF64 r.accumulatedCost chunk
  { r with
    events := r.events ++ [.progress r.chunkIndex chunk accumulatedCost],
    chunkIndex := r.chunkIndex + 1,
    accumulatedCost := accumulatedCost,
    lastChunk := chunk }

@[simp]
theorem emit_accumulatedCost (r : Reading Cost) (t : List Char) :
    (emit fromStr asF64 r t).accumulatedCost =
      addCost asF64 r.accumulatedCost (chunkOf fromStr t) := rfl

@[simp]
theorem emit_terminatedEarly (r : Reading Cost) (t : List Char) :
    (emit fromStr asF64 r t).terminatedEarly = r.terminatedEarly := rfl

variable [LT Cost] [DecidableLT Cost] (maxCostUsd : Option Cost)

def budgetGuard (r : Reading Cost) : Reading Cost :=
  match maxCostUsd with
  | some budget => if budget < r.accumulatedCost then { r with terminatedEarly := true } else r
  | none => r

/-- The body of the loop, once the line is text. -/
def readLine (r : Reading Cost) (line : List Char) : Reading Cost :=
  let trimmed := trim line
  if trimmed.isEmpty then r else budgetGuard maxCostUsd (emit fromStr asF64 r trimmed)

/-- The event that ends the stream, and the output under its key. -/
def finish (outputKey : String) (r : Reading Cost) : StreamResult Cost where
  events := r.events ++
    [if r.terminatedEarly then .terminated "budget_exceeded" r.accumulatedCost
     else .completed r.lastChunk r.accumulatedCost]
  output := Json.ofFields [(outputKey, r.lastChunk)]

/-- The body read whole. -/
def streamNdjson [Zero Cost] (outputKey : String) (body : List Char) : StreamResult Cost :=
  finish outputKey
    (handle (readLine fromStr asF64 maxCostUsd) (·.terminatedEarly) .start (lines body))

/-- A line of bytes that are no text is skipped. -/
def readBytes (r : Reading Cost) (lineBytes : List UInt8) : Reading Cost :=
  match fromUtf8 lineBytes with
  | none => r
  | some line => readLine fromStr asF64 maxCostUsd r line

/-- What is left when the stream ends.  This copy of the loop's body has no budget guard. -/
def drainRemaining (r : Reading Cost) (lineBuf : List UInt8) : Reading Cost :=
  if r.terminatedEarly ∨ lineBuf = [] then r
  else
    match fromUtf8 lineBuf with
    | none => r
    | some remaining =>
        let trimmed := trim remaining
        if trimmed.isEmpty then r else emit fromStr asF64 r trimmed

/-- The body chunk by chunk.  The terminated event is sent at the guard, and nothing between it
and the end. -/
def executeStreaming [Zero Cost] (outputKey : String) (chunks : List (List UInt8)) :
    StreamResult Cost :=
  let (r, lineBuf) :=
    feed 10 (readBytes fromStr asF64 maxCostUsd) (·.terminatedEarly) .start [] chunks
  finish outputKey (drainRemaining fromStr asF64 r lineBuf)

/-! ### Lines without their ends -/

theorem trim_append_whiteSpace {c : Char} (h : isWhiteSpace c = true) (s : List Char) :
    trim (s ++ [c]) = trim s := by
  have hdrop : (s ++ [c]).dropWhile isWhiteSpace =
      if s.dropWhile isWhiteSpace = [] then [] else s.dropWhile isWhiteSpace ++ [c] := by
    rw [List.dropWhile_append]
    cases s.dropWhile isWhiteSpace <;> simp [List.dropWhile, h]
  unfold trim
  rw [hdrop]
  split
  · rename_i hnil
    simp [hnil]
  · simp [List.dropWhile_cons_of_pos h]

theorem splitInclusive_line {line : List Char} (hline : '\n' ∉ line) (rest : List Char) :
    splitInclusive (line ++ '\n' :: rest) = (line ++ ['\n']) :: splitInclusive rest := by
  induction line with
  | nil => simp [splitInclusive]
  | cons c line ih =>
    have hc : c ≠ '\n' := fun h => hline (by simp [h])
    have hrest : '\n' ∉ line := fun h => hline (by simp [h])
    simp [splitInclusive, hc, ih hrest]

theorem splitInclusive_tail {tail : List Char} (htail : '\n' ∉ tail) :
    splitInclusive tail = if tail = [] then [] else [tail] := by
  induction tail with
  | nil => rfl
  | cons c tail ih =>
    have hc : c ≠ '\n' := fun h => htail (by simp [h])
    have hrest : '\n' ∉ tail := fun h => htail (by simp [h])
    cases tail with
    | nil => simp [splitInclusive, hc]
    | cons d tail =>
      rw [splitInclusive, if_neg hc, ih hrest]
      simp

theorem splitInclusive_closed {ls : List (List Char)} (hls : ∀ line ∈ ls, '\n' ∉ line)
    {tail : List Char} (htail : '\n' ∉ tail) :
    splitInclusive (closed '\n' ls ++ tail) =
      ls.map (· ++ ['\n']) ++ if tail = [] then [] else [tail] := by
  induction ls with
  | nil => simpa using splitInclusive_tail htail
  | cons line ls ih =>
    rw [closed_cons, List.append_assoc, List.cons_append,
      splitInclusive_line (hls line (by simp)), ih fun line' h => hls line' (by simp [h])]
    simp

theorem trim_stripSuffix {c : Char} (h : isWhiteSpace c = true) {s t : List Char}
    (hs : stripSuffix c s = some t) : trim t = trim s := by
  unfold stripSuffix at hs
  split_ifs at hs with hlast
  cases hs
  have hsplit := List.dropLast_append_getLast? c hlast
  calc trim s.dropLast = trim (s.dropLast ++ [c]) := (trim_append_whiteSpace h _).symm
    _ = trim s := by rw [hsplit]

theorem map_trim_lines (s : List Char) : (lines s).map trim = (splitInclusive s).map trim := by
  unfold lines
  rw [List.map_map]
  apply List.map_congr_left
  intro line _
  simp only [Function.comp_apply]
  cases hline : stripSuffix '\n' line with
  | none => rfl
  | some text =>
    have htext := trim_stripSuffix (by decide) hline
    change trim ((stripSuffix '\r' text).getD text) = trim line
    cases hreturn : stripSuffix '\r' text with
    | none => simpa using htext
    | some text' => simpa [trim_stripSuffix (by decide) hreturn] using htext

/-- The lines that are not blank, trimmed. -/
def texts (ls : List (List Char)) : List (List Char) :=
  (ls.map trim).filter fun text => !text.isEmpty

theorem texts_append (ls ls' : List (List Char)) : texts (ls ++ ls') = texts ls ++ texts ls' := by
  simp [texts]

theorem texts_newlines (ls : List (List Char)) : texts (ls.map (· ++ ['\n'])) = texts ls := by
  unfold texts
  congr 1
  rw [List.map_map]
  apply List.map_congr_left
  intro line _
  exact trim_append_whiteSpace (by decide) line

theorem texts_lines {ls : List (List Char)} (hls : ∀ line ∈ ls, '\n' ∉ line)
    {tail : List Char} (htail : '\n' ∉ tail) :
    texts (lines (closed '\n' ls ++ tail)) = texts ls ++ texts [tail] := by
  have htexts : texts (lines (closed '\n' ls ++ tail)) =
      texts (splitInclusive (closed '\n' ls ++ tail)) := by
    simp only [texts, map_trim_lines]
  rw [htexts, splitInclusive_closed hls htail, texts_append, texts_newlines]
  congr 1
  split
  · rename_i hnil
    rw [hnil]
    rfl
  · rfl

/-! ### What either loop does with the texts -/

variable (fromStr : String → Option Json) (asF64 : JsonNumber → Cost) (maxCostUsd : Option Cost)

def readText (r : Reading Cost) (text : List Char) : Reading Cost :=
  budgetGuard maxCostUsd (emit fromStr asF64 r text)

theorem handle_readLine {r : Reading Cost} (hr : r.terminatedEarly = false)
    (ls : List (List Char)) :
    handle (readLine fromStr asF64 maxCostUsd) (·.terminatedEarly) r ls =
      handle (readText fromStr asF64 maxCostUsd) (·.terminatedEarly) r (texts ls) := by
  induction ls generalizing r with
  | nil => rfl
  | cons line ls ih =>
    cases hblank : (trim line).isEmpty with
    | true =>
      have hread : readLine fromStr asF64 maxCostUsd r line = r := by simp [readLine, hblank]
      have htexts : texts (line :: ls) = texts ls := by simp [texts, hblank]
      simp [handle, hread, hr, htexts, ih hr]
    | false =>
      have hread : readLine fromStr asF64 maxCostUsd r line =
          readText fromStr asF64 maxCostUsd r (trim line) := by
        simp [readLine, readText, hblank]
      have htexts : texts (line :: ls) = trim line :: texts ls := by simp [texts, hblank]
      rw [handle, hread, htexts, handle]
      cases hstop : (readText fromStr asF64 maxCostUsd r (trim line)).terminatedEarly with
      | true => simp
      | false => simpa using ih hstop

theorem handle_readBytes (r : Reading Cost) (ls : List (List Char)) :
    handle (readBytes fromStr asF64 maxCostUsd) (·.terminatedEarly) r
        ((ls.map utf8).map (· ++ [10])) =
      handle (readLine fromStr asF64 maxCostUsd) (·.terminatedEarly) r
        (ls.map (· ++ ['\n'])) := by
  induction ls generalizing r with
  | nil => rfl
  | cons line ls ih =>
    have hbytes : utf8 line ++ [10] = utf8 (line ++ ['\n']) := by
      rw [utf8_append, utf8_newline]
    have hread : readBytes fromStr asF64 maxCostUsd r (utf8 line ++ [10]) =
        readLine fromStr asF64 maxCostUsd r (line ++ ['\n']) := by
      rw [hbytes, readBytes, fromUtf8_utf8]
    simp only [List.map_cons, handle, hread, ih]

/-- The cost after some texts, from what was spent before. -/
def spentFrom (accumulated : Cost) (ts : List (List Char)) : Cost :=
  ts.foldl (fun cost text => addCost asF64 cost (chunkOf fromStr text)) accumulated

omit [LT Cost] [DecidableLT Cost] in
theorem spentFrom_cons (accumulated : Cost) (t : List Char) (ts : List (List Char)) :
    spentFrom fromStr asF64 accumulated (t :: ts) =
      spentFrom fromStr asF64 (addCost asF64 accumulated (chunkOf fromStr t)) ts := rfl

theorem readText_accumulatedCost (r : Reading Cost) (t : List Char) :
    (readText fromStr asF64 maxCostUsd r t).accumulatedCost =
      addCost asF64 r.accumulatedCost (chunkOf fromStr t) := by
  unfold readText budgetGuard
  split
  · split <;> rfl
  · rfl

theorem readText_terminatedEarly {r : Reading Cost} (hr : r.terminatedEarly = false)
    (t : List Char) :
    (readText fromStr asF64 maxCostUsd r t).terminatedEarly = true ↔
      ∃ budget, maxCostUsd = some budget ∧
        budget < addCost asF64 r.accumulatedCost (chunkOf fromStr t) := by
  cases maxCostUsd with
  | none => simpa [readText, budgetGuard] using hr
  | some budget =>
    simp only [readText, budgetGuard, Option.some.injEq, exists_eq_left']
    split
    · rename_i h
      simpa using h
    · rename_i h
      rw [emit_accumulatedCost] at h
      simp [hr, h]

/-- Some of the first texts spend more than the budget. -/
def Overspent (accumulated : Cost) (ts : List (List Char)) : Prop :=
  ∃ budget, maxCostUsd = some budget ∧
    ∃ pre, pre <+: ts ∧ pre ≠ [] ∧ budget < spentFrom fromStr asF64 accumulated pre

omit [DecidableLT Cost] in
theorem overspent_cons (accumulated : Cost) (t : List Char) (ts : List (List Char)) :
    Overspent fromStr asF64 maxCostUsd accumulated (t :: ts) ↔
      (∃ budget, maxCostUsd = some budget ∧
        budget < addCost asF64 accumulated (chunkOf fromStr t)) ∨
      Overspent fromStr asF64 maxCostUsd (addCost asF64 accumulated (chunkOf fromStr t)) ts := by
  constructor
  · rintro ⟨budget, hbudget, pre, hpre, hne, hlt⟩
    cases pre with
    | nil => exact absurd rfl hne
    | cons t' pre =>
      obtain ⟨rfl, hrest⟩ := List.cons_prefix_cons.mp hpre
      rw [spentFrom_cons] at hlt
      cases pre with
      | nil => exact .inl ⟨budget, hbudget, hlt⟩
      | cons t' pre => exact .inr ⟨budget, hbudget, t' :: pre, hrest, by simp, hlt⟩
  · rintro (⟨budget, hbudget, hlt⟩ | ⟨budget, hbudget, pre, hpre, hne, hlt⟩)
    · exact ⟨budget, hbudget, [t], by simp, by simp, hlt⟩
    · exact ⟨budget, hbudget, t :: pre, List.cons_prefix_cons.mpr ⟨rfl, hpre⟩, by simp, hlt⟩

theorem handle_readText_terminatedEarly {r : Reading Cost} (hr : r.terminatedEarly = false)
    (ts : List (List Char)) :
    (handle (readText fromStr asF64 maxCostUsd) (·.terminatedEarly) r ts).terminatedEarly = true ↔
      Overspent fromStr asF64 maxCostUsd r.accumulatedCost ts := by
  induction ts generalizing r with
  | nil =>
    constructor
    · intro h
      simp [handle, hr] at h
    · rintro ⟨budget, hbudget, pre, hpre, hne, -⟩
      exact absurd (List.prefix_nil.mp hpre) hne
  | cons t ts ih =>
    have hread := readText_terminatedEarly fromStr asF64 maxCostUsd hr t
    rw [overspent_cons, ← hread, handle]
    cases hstop : (readText fromStr asF64 maxCostUsd r t).terminatedEarly with
    | true => simp [hstop]
    | false => simpa [readText_accumulatedCost] using ih hstop

theorem handle_readText_accumulatedCost {r : Reading Cost} (ts : List (List Char))
    (h : (handle (readText fromStr asF64 maxCostUsd) (·.terminatedEarly) r ts).terminatedEarly =
      false) :
    (handle (readText fromStr asF64 maxCostUsd) (·.terminatedEarly) r ts).accumulatedCost =
      spentFrom fromStr asF64 r.accumulatedCost ts := by
  induction ts generalizing r with
  | nil => rfl
  | cons t ts ih =>
    rw [handle] at h ⊢
    cases hstop : (readText fromStr asF64 maxCostUsd r t).terminatedEarly with
    | true => simp [hstop] at h
    | false =>
      simp only [hstop] at h ⊢
      rw [spentFrom_cons, ← readText_accumulatedCost fromStr asF64 maxCostUsd]
      exact ih h

/-! ### Where the two readings part -/

/-- The lines of a body that a newline ends. -/
def wholeLines (body : List Char) : List (List Char) := (body.splitOn '\n').dropLast

/-- What follows the last newline. -/
def unterminated (body : List Char) : List Char := (body.splitOn '\n').getLastD []

theorem splitOn_closed {ls : List (List Char)} (hls : ∀ line ∈ ls, '\n' ∉ line)
    {tail : List Char} (htail : '\n' ∉ tail) :
    (closed '\n' ls ++ tail).splitOn '\n' = ls ++ [tail] := by
  induction ls with
  | nil => simpa using List.splitOn_eq_singleton htail
  | cons line ls ih =>
    rw [closed_cons, List.append_assoc, List.cons_append,
      List.splitOn_append_cons_self_of_not_mem (hls line (by simp)),
      ih fun line' h => hls line' (by simp [h])]
    rfl

variable [Zero Cost]

/-- The last line has no newline, and it is the one that takes the cost over the budget. -/
def OverspentByTail (body : List Char) : Prop :=
  trim (unterminated body) ≠ [] ∧
    ¬ Overspent fromStr asF64 maxCostUsd 0 (texts (wholeLines body)) ∧
    ∃ budget, maxCostUsd = some budget ∧ budget <
      spentFrom fromStr asF64 0 (texts (wholeLines body) ++ [trim (unterminated body)])

theorem streamNdjson_closed (outputKey : String) {ls : List (List Char)}
    (hls : ∀ line ∈ ls, '\n' ∉ line) {tail : List Char} (htail : '\n' ∉ tail) :
    streamNdjson fromStr asF64 maxCostUsd outputKey (closed '\n' ls ++ tail) =
      finish outputKey (handle (readText fromStr asF64 maxCostUsd) (·.terminatedEarly) .start
        (texts ls ++ texts [tail])) := by
  rw [streamNdjson, handle_readLine fromStr asF64 maxCostUsd rfl, texts_lines hls htail]

theorem executeStreaming_closed (outputKey : String) {ls : List (List Char)}
    (hls : ∀ line ∈ ls, '\n' ∉ line) {tail : List Char} (htail : '\n' ∉ tail)
    {chunks : List (List UInt8)} (hchunks : chunks.flatten = utf8 (closed '\n' ls ++ tail)) :
    let r := handle (readText fromStr asF64 maxCostUsd) (·.terminatedEarly) .start (texts ls)
    ∃ lineBuf, executeStreaming fromStr asF64 maxCostUsd outputKey chunks =
        finish outputKey (drainRemaining fromStr asF64 r lineBuf) ∧
      (r.terminatedEarly = false → lineBuf = utf8 tail) := by
  intro r
  have hbytes : ∀ line ∈ ls.map utf8, (10 : UInt8) ∉ line := by
    intro line hline hmem
    obtain ⟨text, htext, rfl⟩ := List.mem_map.mp hline
    exact hls text htext (newline_mem_utf8 hmem)
  have htailBytes : (10 : UInt8) ∉ utf8 tail := fun hmem => htail (newline_mem_utf8 hmem)
  have hflatten : [] ++ chunks.flatten = closed 10 (ls.map utf8) ++ utf8 tail := by
    rw [List.nil_append, hchunks, utf8_append, utf8_closed]
  have hhandle : handle (readBytes fromStr asF64 maxCostUsd) (·.terminatedEarly) .start
      ((ls.map utf8).map (· ++ [10])) = r := by
    rw [handle_readBytes, handle_readLine fromStr asF64 maxCostUsd rfl, texts_newlines]
  obtain ⟨lineBuf, hfeed, hrest⟩ := LineBuffer.feed_eq_drain 10
    (readBytes fromStr asF64 maxCostUsd) (·.terminatedEarly) (s := .start) rfl
    List.not_mem_nil chunks
  obtain ⟨left, hdrain, hleft⟩ := LineBuffer.drain_closed 10
    (readBytes fromStr asF64 maxCostUsd) (·.terminatedEarly) hbytes htailBytes .start
  rw [hflatten, hdrain] at hfeed hrest
  rw [hhandle] at hfeed hrest hleft
  refine ⟨lineBuf, ?_, fun hr => ?_⟩
  · rw [executeStreaming, hfeed]
  · rw [hrest hr, hleft hr]

omit [Zero Cost] in
theorem finish_emit_ne {outputKey : String} {r : Reading Cost} {t : List Char}
    (hr : r.terminatedEarly = false)
    (hguard : ∃ budget, maxCostUsd = some budget ∧
      budget < addCost asF64 r.accumulatedCost (chunkOf fromStr t)) :
    finish outputKey (emit fromStr asF64 r t) ≠
      finish outputKey (readText fromStr asF64 maxCostUsd r t) := by
  intro heq
  have hstop := (readText_terminatedEarly fromStr asF64 maxCostUsd hr t).mpr hguard
  have hlast := congrArg (fun result => result.events.getLast?) heq
  simp [finish, hr, hstop] at hlast

omit [Zero Cost] in
theorem emit_eq_readText {r : Reading Cost} {t : List Char}
    (hguard : ¬ ∃ budget, maxCostUsd = some budget ∧
      budget < addCost asF64 r.accumulatedCost (chunkOf fromStr t)) :
    emit fromStr asF64 r t = readText fromStr asF64 maxCostUsd r t := by
  cases maxCostUsd with
  | none => rfl
  | some budget =>
    have hle : ¬ budget < (emit fromStr asF64 r t).accumulatedCost :=
      fun h => hguard ⟨budget, rfl, h⟩
    simp only [readText, budgetGuard, if_neg hle]

/-- Both readings send the same events and give the same output for every body but those whose
last line has no newline and goes over the budget: the budget is not looked at there. -/
theorem executeStreaming_eq_streamNdjson_iff (outputKey : String) (body : List Char)
    {chunks : List (List UInt8)} (hchunks : chunks.flatten = utf8 body) :
    executeStreaming fromStr asF64 maxCostUsd outputKey chunks =
        streamNdjson fromStr asF64 maxCostUsd outputKey body ↔
      ¬ OverspentByTail fromStr asF64 maxCostUsd body := by
  obtain ⟨ls, tail, rfl, hls, htail⟩ := LineBuffer.exists_closed '\n' body
  have hwhole : wholeLines (closed '\n' ls ++ tail) = ls := by
    rw [wholeLines, splitOn_closed hls htail, List.dropLast_concat]
  have hlast : unterminated (closed '\n' ls ++ tail) = tail := by
    rw [unterminated, splitOn_closed hls htail]
    simp [List.getLastD_eq_getLast?]
  obtain ⟨lineBuf, hstreaming, hrest⟩ :=
    executeStreaming_closed fromStr asF64 maxCostUsd outputKey hls htail hchunks
  rw [hstreaming, streamNdjson_closed fromStr asF64 maxCostUsd outputKey hls htail,
    LineBuffer.handle_append _ _ rfl, OverspentByTail, hwhole, hlast]
  have hover := handle_readText_terminatedEarly fromStr asF64 maxCostUsd
    (r := .start) rfl (texts ls)
  have hspent := handle_readText_accumulatedCost fromStr asF64 maxCostUsd (r := .start) (texts ls)
  generalize handle (readText fromStr asF64 maxCostUsd) (·.terminatedEarly) .start (texts ls) = r
    at hrest hover hspent ⊢
  cases hr : r.terminatedEarly with
  | true =>
    have hoverspent := hover.mp hr
    simp [drainRemaining, hr]
    exact fun _ h => absurd hoverspent h
  | false =>
    rw [hrest hr]
    have hnot : ¬ Overspent fromStr asF64 maxCostUsd 0 (texts ls) := by
      intro h
      rw [hover.mpr h] at hr
      cases hr
    cases hblank : (trim tail).isEmpty with
    | true =>
      have htexts : texts [tail] = [] := by simp [texts, hblank]
      have hdrain : drainRemaining fromStr asF64 r (utf8 tail) = r := by
        simp [drainRemaining, fromUtf8_utf8, hblank]
      simp [htexts, hdrain, handle, List.isEmpty_iff.mp hblank]
    | false =>
      have htexts : texts [tail] = [trim tail] := by simp [texts, hblank]
      have hne : trim tail ≠ [] := by
        intro h
        simp [h] at hblank
      have hbytes : utf8 tail ≠ [] := by
        intro h
        have hnil := fromUtf8_utf8 tail
        rw [h, show ([] : List UInt8) = utf8 [] from rfl, fromUtf8_utf8] at hnil
        cases hnil
        exact hne rfl
      have hdrain : drainRemaining fromStr asF64 r (utf8 tail) =
          emit fromStr asF64 r (trim tail) := by
        simp [drainRemaining, hr, hbytes, fromUtf8_utf8, hblank]
      have htail : spentFrom fromStr asF64 0 (texts ls ++ [trim tail]) =
          addCost asF64 r.accumulatedCost (chunkOf fromStr (trim tail)) := by
        rw [hspent hr, spentFrom, List.foldl_append]
        rfl
      rw [htexts, hdrain, htail, LineBuffer.handle_singleton]
      simp only [Bool.false_eq_true, if_false, ne_eq, hne, not_false_eq_true, hnot, true_and]
      constructor
      · intro heq hguard
        exact finish_emit_ne fromStr asF64 maxCostUsd hr hguard heq
      · intro hguard
        rw [emit_eq_readText fromStr asF64 maxCostUsd hguard]

/-- One chunk that costs two dollars. -/
def costingBody : List Char := "\x7b\"cost_usd\":2\x7d".toList

def readCost (s : String) : Option Json :=
  if s = String.ofList costingBody then some (Json.ofFields [("cost_usd", .number (.int 2))])
  else none

def wholeDollars : JsonNumber → ℤ
  | .int value => value
  | .float _ => 0

theorem executeStreaming_eq_streamNdjson_terminated :
    executeStreaming readCost wholeDollars (some 1) "result"
        [utf8 (costingBody ++ costingBody), utf8 ['\n']] =
      streamNdjson readCost wholeDollars (some 1) "result"
        (costingBody ++ costingBody ++ ['\n']) := by
  apply (executeStreaming_eq_streamNdjson_iff readCost wholeDollars (some 1) "result"
    (costingBody ++ costingBody ++ ['\n']) (by simp [utf8])).mpr
  have htail : unterminated (costingBody ++ costingBody ++ ['\n']) = [] := by decide
  rintro ⟨hne, -⟩
  exact hne (by rw [htail]; rfl)

/-- Without a newline after it, the chunk is over a budget of one dollar in one reading only. -/
theorem unterminated_line_not_guarded :
    [utf8 costingBody].flatten = utf8 costingBody ∧
      executeStreaming readCost wholeDollars (some 1) "result" [utf8 costingBody] ≠
        streamNdjson readCost wholeDollars (some 1) "result" costingBody := by
  have hnewline : '\n' ∉ costingBody := by decide
  have hnone : ∀ line ∈ ([] : List (List Char)), '\n' ∉ line := by simp
  have hflatten : [utf8 costingBody].flatten = utf8 (closed '\n' [] ++ costingBody) := by simp
  have htrim : trim costingBody = costingBody := by decide
  obtain ⟨lineBuf, hstreaming, hrest⟩ := executeStreaming_closed readCost wholeDollars (some 1)
    "result" hnone hnewline hflatten
  have hwhole := streamNdjson_closed readCost wholeDollars (some 1) "result" hnone hnewline
  have htexts : texts [costingBody] = [costingBody] := by decide
  have hdrain : drainRemaining readCost wholeDollars .start (utf8 costingBody) =
      emit readCost wholeDollars .start costingBody := by
    have hbytes : utf8 costingBody ≠ [] := by decide
    have hblank : costingBody.isEmpty = false := by decide
    simp [drainRemaining, Reading.start, hbytes, fromUtf8_utf8, htrim, hblank]
  have hchunk : chunkOf readCost costingBody =
      Json.ofFields [("cost_usd", .number (.int 2))] := by
    simp [chunkOf, readCost]
  refine ⟨by simp, ?_⟩
  rw [hstreaming, hrest rfl]
  change finish "result" (drainRemaining readCost wholeDollars .start (utf8 costingBody)) ≠ _
  rw [hdrain]
  rw [show closed '\n' [] ++ costingBody = costingBody from rfl, htexts] at hwhole
  rw [hwhole]
  change _ ≠ finish "result" (readText readCost wholeDollars (some 1) .start costingBody)
  apply finish_emit_ne readCost wholeDollars (some 1) rfl
  refine ⟨1, rfl, ?_⟩
  rw [hchunk]
  decide

end JamJet.AgentTool
