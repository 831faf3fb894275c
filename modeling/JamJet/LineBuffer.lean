import JamJet.Delimited

/-! Reading a sequence that arrives in chunks line by line: what has arrived and is no whole line
yet waits in a buffer.  The lines, the state the reader keeps and the reason to stop are anything. -/

namespace JamJet.LineBuffer

open Delimited (closed closed_cons closed_nil)

variable {α σ : Type} [DecidableEq α] (sep : α)

/-- The first line of a buffer with the separator that ends it, and what follows. -/
def splitLine (buf : List α) : Option (List α × List α) :=
  (buf.idxOf? sep).map fun pos => (buf.take (pos + 1), buf.drop (pos + 1))

theorem splitLine_cons (a : α) (buf : List α) :
    splitLine sep (a :: buf) =
      if a = sep then some ([a], buf)
      else (splitLine sep buf).map fun split => (a :: split.1, split.2) := by
  by_cases ha : a = sep
  · simp [splitLine, List.idxOf?_cons, ha]
  · cases hpos : buf.idxOf? sep <;> simp [splitLine, List.idxOf?_cons, ha, hpos]

theorem splitLine_eq_none {buf : List α} : splitLine sep buf = none ↔ sep ∉ buf := by
  simp [splitLine]

theorem splitLine_line {line : List α} (hline : sep ∉ line) (rest : List α) :
    splitLine sep (line ++ sep :: rest) = some (line ++ [sep], rest) := by
  induction line with
  | nil => simp [splitLine_cons]
  | cons a line ih =>
    have ha : a ≠ sep := fun h => hline (by simp [h])
    have hrest : sep ∉ line := fun h => hline (by simp [h])
    simp [splitLine_cons, ha, ih hrest]

theorem splitLine_eq_some {buf line rest : List α} (h : splitLine sep buf = some (line, rest)) :
    ∃ text, sep ∉ text ∧ line = text ++ [sep] ∧ buf = text ++ sep :: rest := by
  induction buf generalizing line with
  | nil => simp [splitLine] at h
  | cons a buf ih =>
    rw [splitLine_cons] at h
    by_cases ha : a = sep
    · simp only [ha, if_true, Option.some.injEq, Prod.mk.injEq] at h
      exact ⟨[], by simp, by simp [← h.1], by simp [ha, h.2]⟩
    · cases hsplit : splitLine sep buf with
      | none => simp [ha, hsplit] at h
      | some split =>
        simp only [ha, if_false, hsplit, Option.map_some, Option.some.injEq, Prod.mk.injEq] at h
        have hrest : splitLine sep buf = some (split.1, rest) := by rw [hsplit, ← h.2]
        obtain ⟨text, htext, hline, hbuf⟩ := ih hrest
        have hmem : sep ∉ a :: text := by
          simp only [List.mem_cons, not_or]
          exact ⟨fun h => ha h.symm, htext⟩
        exact ⟨a :: text, hmem, by simp [← h.1, hline], by simp [hbuf]⟩

theorem splitLine_append {buf line rest : List α} (h : splitLine sep buf = some (line, rest))
    (more : List α) : splitLine sep (buf ++ more) = some (line, rest ++ more) := by
  obtain ⟨text, htext, hline, hbuf⟩ := splitLine_eq_some sep h
  have hsplit := splitLine_line sep htext (rest ++ more)
  simpa [hline, hbuf] using hsplit

variable (f : σ → List α → σ) (stop : σ → Bool)

/-- Every whole line of a buffer is handled, until one makes the reader stop.  What is left of the
buffer comes with the state. -/
def drain (s : σ) (buf : List α) : σ × List α :=
  match _h : splitLine sep buf with
  | none => (s, buf)
  | some (line, rest) =>
      if stop (f s line) then (f s line, rest) else drain (f s line) rest
  termination_by buf.length
  decreasing_by
    obtain ⟨text, -, -, hbuf⟩ := splitLine_eq_some sep _h
    simp only [hbuf, List.length_append, List.length_cons]
    omega

/-- Chunks that arrive one by one are put behind what the buffer holds. -/
def feed (s : σ) (buf : List α) : List (List α) → σ × List α
  | [] => (s, buf)
  | chunk :: chunks =>
      let (s, buf) := drain sep f stop s (buf ++ chunk)
      if stop s then (s, buf) else feed s buf chunks

/-- The same for lines that are known already. -/
def handle {β : Type} (f : σ → β → σ) (stop : σ → Bool) (s : σ) : List β → σ
  | [] => s
  | line :: lines => if stop (f s line) then f s line else handle f stop (f s line) lines

@[simp]
theorem handle_singleton {β : Type} (f : σ → β → σ) (stop : σ → Bool) (s : σ) (l : β) :
    handle f stop s [l] = f s l := by
  simp [handle]

theorem handle_append {β : Type} (f : σ → β → σ) (stop : σ → Bool) {s : σ} (hs : stop s = false)
    (ls ls' : List β) :
    handle f stop s (ls ++ ls') =
      if stop (handle f stop s ls) then handle f stop s ls
      else handle f stop (handle f stop s ls) ls' := by
  induction ls generalizing s with
  | nil => simp [handle, hs]
  | cons l ls ih =>
    cases hstop : stop (f s l) with
    | true => simp [handle, hstop]
    | false => simpa [handle, hstop] using ih hstop

theorem drain_of_not_mem {buf : List α} (h : sep ∉ buf) (s : σ) :
    drain sep f stop s buf = (s, buf) := by
  have hsplit := (splitLine_eq_none sep).mpr h
  unfold drain
  split
  · rfl
  · simp_all

theorem drain_of_splitLine {buf line rest : List α} (h : splitLine sep buf = some (line, rest))
    (s : σ) :
    drain sep f stop s buf =
      if stop (f s line) then (f s line, rest) else drain sep f stop (f s line) rest := by
  rw [drain]
  split
  · simp_all
  · rename_i line' rest' h'
    rw [h] at h'
    cases h'
    rfl

/-- What is put behind a buffer is read where the buffer was left, unless the reader stopped. -/
theorem drain_append {s : σ} (hs : stop s = false) (buf more : List α) :
    drain sep f stop s (buf ++ more) =
      let left := drain sep f stop s buf
      if stop left.1 then (left.1, left.2 ++ more)
      else drain sep f stop left.1 (left.2 ++ more) := by
  induction hn : buf.length using Nat.strongRecOn generalizing buf s with
  | ind n ih =>
    cases hsplit : splitLine sep buf with
    | none => simp [drain_of_not_mem sep f stop ((splitLine_eq_none sep).mp hsplit), hs]
    | some split =>
      obtain ⟨line, rest⟩ := split
      rw [drain_of_splitLine sep f stop (splitLine_append sep hsplit more),
        drain_of_splitLine sep f stop hsplit]
      cases hstop : stop (f s line) with
      | true => simp [hstop]
      | false =>
        obtain ⟨text, -, -, hbuf⟩ := splitLine_eq_some sep hsplit
        have hlength : rest.length < n := by
          rw [← hn, hbuf]
          simp only [List.length_append, List.length_cons]
          omega
        simpa using ih rest.length hlength hstop rest rfl

/-- Nothing that was left in the buffer holds a whole line, unless the reader stopped. -/
theorem not_mem_drain {s : σ} (buf : List α) (h : stop (drain sep f stop s buf).1 = false) :
    sep ∉ (drain sep f stop s buf).2 := by
  induction hn : buf.length using Nat.strongRecOn generalizing buf s with
  | ind n ih =>
    cases hsplit : splitLine sep buf with
    | none =>
      have hmem := (splitLine_eq_none sep).mp hsplit
      simpa [drain_of_not_mem sep f stop hmem] using hmem
    | some split =>
      obtain ⟨line, rest⟩ := split
      rw [drain_of_splitLine sep f stop hsplit] at h ⊢
      cases hstop : stop (f s line) with
      | true => simp [hstop] at h
      | false =>
        obtain ⟨text, -, -, hbuf⟩ := splitLine_eq_some sep hsplit
        have hlength : rest.length < n := by
          rw [← hn, hbuf]
          simp only [List.length_append, List.length_cons]
          omega
        simp only [hstop] at h ⊢
        exact ih rest.length hlength rest h rfl

/-- However the sequence is cut into chunks, it is read as a whole. -/
theorem feed_eq_drain {s : σ} (hs : stop s = false) {buf : List α} (hbuf : sep ∉ buf)
    (chunks : List (List α)) :
    ∃ rest, feed sep f stop s buf chunks =
        ((drain sep f stop s (buf ++ chunks.flatten)).1, rest) ∧
      (stop (drain sep f stop s (buf ++ chunks.flatten)).1 = false →
        rest = (drain sep f stop s (buf ++ chunks.flatten)).2) := by
  induction chunks generalizing s buf with
  | nil => exact ⟨buf, by simp [feed, drain_of_not_mem sep f stop hbuf]⟩
  | cons chunk chunks ih =>
    have happend := drain_append sep f stop hs (buf ++ chunk) chunks.flatten
    rw [List.append_assoc] at happend
    cases hstop : stop (drain sep f stop s (buf ++ chunk)).1 with
    | true =>
      simp only [hstop, if_true] at happend
      refine ⟨(drain sep f stop s (buf ++ chunk)).2, ?_, ?_⟩
      · simp [feed, hstop, happend]
      · simp [happend, hstop]
    | false =>
      simp only [hstop] at happend
      obtain ⟨rest, hfeed, hrest⟩ := ih hstop (not_mem_drain sep f stop _ hstop)
      refine ⟨rest, ?_, ?_⟩
      · simp [feed, hstop, hfeed, happend]
      · simpa [happend] using hrest

/-- Lines with a separator after each, and then one that has none yet. -/
theorem drain_closed {lines : List (List α)} (hlines : ∀ line ∈ lines, sep ∉ line) {tail : List α}
    (htail : sep ∉ tail) (s : σ) :
    ∃ rest, drain sep f stop s (closed sep lines ++ tail) =
        (handle f stop s (lines.map (· ++ [sep])), rest) ∧
      (stop (handle f stop s (lines.map (· ++ [sep]))) = false → rest = tail) := by
  induction lines generalizing s with
  | nil => exact ⟨tail, by simp [handle, drain_of_not_mem sep f stop htail]⟩
  | cons line lines ih =>
    have hsplit := splitLine_line sep (hlines line (by simp)) (closed sep lines ++ tail)
    rw [closed_cons, List.append_assoc, List.cons_append, drain_of_splitLine sep f stop hsplit]
    cases hstop : stop (f s (line ++ [sep])) with
    | true => exact ⟨closed sep lines ++ tail, by simp [handle, hstop]⟩
    | false =>
      obtain ⟨rest, hdrain, hrest⟩ :=
        ih (fun line' h => hlines line' (by simp [h])) (f s (line ++ [sep]))
      exact ⟨rest, by simp [hdrain, handle, hstop], by simpa [handle, hstop] using hrest⟩

/-- Every sequence is some lines and then one that has no separator. -/
theorem exists_closed (s : List α) :
    ∃ lines tail, s = closed sep lines ++ tail ∧ (∀ line ∈ lines, sep ∉ line) ∧ sep ∉ tail := by
  induction s with
  | nil => exact ⟨[], [], by simp⟩
  | cons a s ih =>
    obtain ⟨lines, tail, rfl, hlines, htail⟩ := ih
    by_cases ha : a = sep
    · refine ⟨[] :: lines, tail, by simp [closed_cons, ha], ?_, htail⟩
      simpa using hlines
    · have hsep : ∀ line, sep ∉ line → sep ∉ a :: line := by
        intro line hline
        simp only [List.mem_cons, not_or]
        exact ⟨fun h => ha h.symm, hline⟩
      cases lines with
      | nil => exact ⟨[], a :: tail, by simp, by simp, hsep tail htail⟩
      | cons line lines =>
        refine ⟨(a :: line) :: lines, tail, by simp [closed_cons], ?_, htail⟩
        intro line' hline'
        rcases List.mem_cons.mp hline' with rfl | hline'
        · exact hsep line (hlines line (by simp))
        · exact hlines line' (by simp [hline'])

end JamJet.LineBuffer
