import JamJet.Delimited
import JamJet.McpTransport
import JamJet.OrderedMap

/-! When the replies of an MCP server reach the calls they answer. -/

namespace JamJet.Mcp

open Delimited (closed closed_cons closed_nil)
open Transport

variable (serde : Serde) (texts : ErrorTexts)

/-- A request whose text is one line that reads back as what was written. -/
def Readable (r : JsonRpcRequest) : Prop :=
  '\n' ∉ serde.text r ∧ serde.fromStr (serde.text r) = some r.toJson

/-- A server that answers each request once, with its id, in any order, and may send lines without
an id between. -/
def Conforming (s : Transport) : Act → Prop
  | .call method => Readable serde (method.request s.requestCounter)
  | .reply k line =>
      '\n' ∉ line ∧ ∃ id response, s.pending[k]? = some id ∧
        parse serde texts (line ++ ['\n']) = .ok response ∧ response.id = id
  | .notify line =>
      '\n' ∉ line ∧ ∃ v, serde.fromStr (line ++ ['\n']) = some v ∧ v.get "id" = none
  | _ => True

/-- Calls read in the order they wrote, the server answers in that order and sends nothing else,
and no call leaves between the first character it writes and its reply. -/
def InTurn (s : Transport) : Act → Prop
  | .lockStdout i => s.queue.head? = some i
  | .reply k _ => k = 0
  | .notify _ | .readError .. => False
  | .drop i | .writeError i _ =>
      i ∉ s.queue ∧ ∀ rest, s.stdin = some (i, rest) →
        ∃ r, s.request? i = some r ∧ rest = line serde r
  | _ => True

/-- Every act of the run is as `ok` says in the state it is taken in. -/
def Obeyed (ok : Transport → Act → Prop) : Transport → List Act → Prop
  | _, [] => True
  | s, a :: acts => ok s a ∧ Obeyed ok (s.step serde texts a) acts

/-- The id of the response a line holds. -/
def replyId (line : List Char) : Option Json :=
  match parse serde texts (line ++ ['\n']) with
  | .ok response => some response.id
  | .error _ => none

/-- The id a call sent. -/
def idOf (s : Transport) (i : ℕ) : Option Json := (s.request? i).map (·.id)

/-- What is unread, with what the reader has of it. -/
def unread (s : Transport) : List Char := (s.stdout.map (·.2)).getD [] ++ s.fromServer

/-- The replies under way are those of the first calls of the queue, and the requests the server
has are those of the rest. -/
structure Matched (s : Transport) (replies : List (List Char)) (waiting : List (Option Json)) :
    Prop where
  unread : unread s = closed '\n' replies
  lines : ∀ l ∈ replies, '\n' ∉ l
  queue : s.queue.map (idOf s) = replies.map (replyId serde texts) ++ waiting
  pending : s.closed = false → waiting = s.pending.map some

/-- The line under way is that of the call that holds the lock of stdin. -/
def Writing (s : Transport) : Prop :=
  match s.stdin with
  | none => s.toServer = []
  | some (i, rest) => ∃ r, s.request? i = some r ∧
      ((rest = [] ∧ s.toServer = []) ∨ (rest ≠ [] ∧ s.toServer ++ rest = line serde r))

structure Aligned (s : Transport) : Prop where
  own : ∀ i r, s.phase? i = some (.returned (.ok r)) → idOf s i = some r.id
  readable : ∀ i r, s.request? i = some r → Readable serde r
  writing : Writing serde s
  reader : ∀ i buf, s.stdout = some (i, buf) → s.queue.head? = some i ∧ '\n' ∉ buf
  known : ∀ i ∈ s.queue, s.request? i ≠ none
  matched : ∃ replies waiting, Matched serde texts s replies waiting

section Phases

variable {s : Transport} {i : ℕ} {phase : Phase}

theorem getElem?_setPhase (j : ℕ) : (s.setPhase i phase).calls[j]? =
    s.calls[j]?.map fun c => if i = j then { c with phase := phase } else c := by
  simp only [setPhase, List.getElem?_modify]
  cases s.calls[j]? <;> simp

@[simp]
theorem request?_setPhase : (s.setPhase i phase).request? = s.request? := by
  funext j
  simp only [request?, getElem?_setPhase, Option.map_map]
  cases s.calls[j]? with
  | none => rfl
  | some c =>
    by_cases hij : i = j <;> simp [hij]

theorem phase?_setPhase (j : ℕ) : (s.setPhase i phase).phase? j =
    if i = j then (s.phase? j).map fun _ => phase else s.phase? j := by
  simp only [phase?, getElem?_setPhase, Option.map_map]
  cases s.calls[j]? with
  | none => simp
  | some c =>
    by_cases hij : i = j <;> simp [hij]

theorem of_phase?_setPhase {j : ℕ} {p : Phase} (h : (s.setPhase i phase).phase? j = some p) :
    s.phase? j = some p ∨ i = j ∧ p = phase := by
  rw [phase?_setPhase] at h
  by_cases hij : i = j
  · rw [if_pos hij] at h
    obtain ⟨_, -, hp⟩ := Option.map_eq_some_iff.mp h
    exact .inr ⟨hij, hp.symm⟩
  · rw [if_neg hij] at h
    exact .inl h

end Phases

section Steps

variable {serde : Serde} {texts : ErrorTexts} {s : Transport} {i : ℕ}

theorem get_id_of_readable {r : JsonRpcRequest} (h : Readable serde r) :
    (serde.fromStr (serde.text r)).bind (·.get "id") = some r.id := by
  rw [h.2]
  exact BTree.get_insertAll_of_nodup (by simp)

theorem rest_of_line {r : JsonRpcRequest} (h : '\n' ∉ serde.text r) {got rest : List Char}
    {c : Char} (hline : got ++ c :: rest = line serde r) :
    (c = '\n' → got = serde.text r ∧ rest = []) ∧ (c ≠ '\n' → rest ≠ []) := by
  constructor
  · rintro rfl
    have hcount := congrArg (List.count '\n') hline
    simp only [line, List.count_append, List.count_cons_self, List.count_nil,
      List.count_eq_zero.mpr h] at hcount
    exact Delimited.count_append_inj (by rw [List.count_eq_zero.mpr h]; omega)
      (by simpa [line] using hline)
  · rintro hc rfl
    have hlast := congrArg List.getLast? hline
    simp [line] at hlast
    exact hc hlast

theorem getElem?_call {method : Method} {j : ℕ} {c : Call}
    (hc : (s.step serde texts (.call method)).calls[j]? = some c) :
    s.calls[j]? = some c ∨ c = ⟨method, method.request s.requestCounter, .waiting⟩ := by
  simp only [step, List.getElem?_append] at hc
  split at hc
  · exact .inl hc
  · exact .inr (List.mem_singleton.mp (List.mem_of_getElem? hc))

theorem request?_call {method : Method} {j : ℕ} (hj : s.request? j ≠ none) :
    (s.step serde texts (.call method)).request? j = s.request? j := by
  simp only [request?, step, ne_eq, Option.map_eq_none_iff, List.getElem?_eq_none_iff,
    not_le] at hj ⊢
  rw [List.getElem?_append_left hj]

theorem Aligned.toServer_of_none (h : Aligned serde texts s) (hin : s.stdin = none) :
    s.toServer = [] := by
  have hw := h.writing
  simp only [Writing, hin] at hw
  exact hw

theorem Aligned.line_of_some (h : Aligned serde texts s) {rest : List Char}
    (hin : s.stdin = some (i, rest)) : ∃ r, s.request? i = some r ∧
      ((rest = [] ∧ s.toServer = []) ∨ (rest ≠ [] ∧ s.toServer ++ rest = line serde r)) := by
  have hw := h.writing
  simp only [Writing, hin] at hw
  exact hw

theorem aligned_call (h : Aligned serde texts s) {method : Method}
    (hreadable : Readable serde (method.request s.requestCounter)) :
    Aligned serde texts (s.step serde texts (.call method)) := by
  have hidOf : ∀ j, s.request? j ≠ none →
      idOf (s.step serde texts (.call method)) j = idOf s j := by
    intro j hj
    rw [idOf, idOf, request?_call hj]
  obtain ⟨replies, waiting, hm⟩ := h.matched
  refine ⟨fun j r hr => ?_, fun j r hr => ?_, ?_, h.reader, fun j hj => ?_, replies, waiting,
    hm.unread, hm.lines, ?_, hm.pending⟩
  · obtain ⟨c, hc, hphase⟩ := Option.map_eq_some_iff.mp hr
    rcases getElem?_call hc with hc | rfl
    · have hown := h.own j r (by simp [phase?, hc, hphase])
      rw [hidOf j (by simp [request?, hc]), hown]
    · cases hphase
  · obtain ⟨c, hc, hrequest⟩ := Option.map_eq_some_iff.mp hr
    rcases getElem?_call hc with hc | rfl
    · exact h.readable j r (by simp [request?, hc, hrequest])
    · exact hrequest ▸ hreadable
  · simp only [Writing]
    have hstdin : (s.step serde texts (.call method)).stdin = s.stdin := rfl
    rw [hstdin]
    cases hin : s.stdin with
    | none => exact h.toServer_of_none hin
    | some holder =>
      obtain ⟨r, hr, hline⟩ := h.line_of_some hin
      exact ⟨r, by rw [request?_call (by simp [hr]), hr], hline⟩
  · have hj' := h.known j hj
    rwa [request?_call hj']
  · rw [← hm.queue]
    exact List.map_congr_left fun j hj => hidOf j (h.known j hj)

theorem Writing.of_eq (h : Writing serde s) {t : Transport} (hin : t.stdin = s.stdin)
    (hserver : t.toServer = s.toServer) (hrequest : t.request? = s.request?) :
    Writing serde t := by
  simp only [Writing] at h ⊢
  rw [hin, hserver, hrequest]
  exact h

theorem Aligned.of_requests (h : Aligned serde texts s) {t : Transport}
    (hrequest : t.request? = s.request?)
    (hown : ∀ j r, t.phase? j = some (.returned (.ok r)) →
      s.phase? j = some (.returned (.ok r)) ∨ idOf s j = some r.id)
    (hwriting : Writing serde t)
    (hreader : ∀ j buf, t.stdout = some (j, buf) → t.queue.head? = some j ∧ '\n' ∉ buf)
    (hknown : ∀ j ∈ t.queue, j ∈ s.queue ∨ s.request? j ≠ none)
    (hmatched : ∃ replies waiting, unread t = closed '\n' replies ∧ (∀ l ∈ replies, '\n' ∉ l) ∧
      t.queue.map (idOf s) = replies.map (replyId serde texts) ++ waiting ∧
      (t.closed = false → waiting = t.pending.map some)) : Aligned serde texts t := by
  have hidOf : idOf t = idOf s := by
    funext j
    rw [idOf, idOf, hrequest]
  obtain ⟨replies, waiting, hunread, hlines, hqueue, hpending⟩ := hmatched
  refine ⟨fun j r hr => ?_, fun j r hr => h.readable j r (by rwa [← hrequest]), hwriting, hreader,
    fun j hj => ?_, replies, waiting, hunread, hlines, by rwa [hidOf], hpending⟩
  · rw [hidOf]
    exact (hown j r hr).elim (h.own j r) id
  · rw [hrequest]
    exact (hknown j hj).elim (h.known j) id

theorem aligned_lockStdin (h : Aligned serde texts s) :
    Aligned serde texts (s.step serde texts (.lockStdin i)) := by
  simp only [step]
  split
  · rename_i request hin hphase hi
    obtain ⟨replies, waiting, hm⟩ := h.matched
    refine h.of_requests request?_setPhase (fun j r hr => ?_) ?_ h.reader (fun j => .inl)
      ⟨replies, waiting, hm.unread, hm.lines, hm.queue, hm.pending⟩
    · exact (of_phase?_setPhase hr).imp_right fun h => nomatch h.2
    · refine ⟨request, (congrFun request?_setPhase i).trans hi, .inr ⟨by simp [line], ?_⟩⟩
      change s.toServer ++ _ = _
      rw [h.toServer_of_none hin, List.nil_append]
  · exact h

theorem aligned_write (h : Aligned serde texts s) :
    Aligned serde texts (s.step serde texts (.write i)) := by
  simp only [step]
  split
  · rename_i j c rest hin
    split
    · rename_i hij
      subst hij
      obtain ⟨r, hr, ⟨hnil, -⟩ | ⟨-, hline⟩⟩ := h.line_of_some hin
      · cases hnil
      obtain ⟨replies, waiting, hm⟩ := h.matched
      have hreadable := h.readable i r hr
      by_cases hc : c = '\n'
      · -- the request is complete: the server has it, and the call waits for its reply
        obtain ⟨hgot, hrest⟩ := (rest_of_line hreadable.1 hline).1 hc
        have hid : idOf s i = some r.id := by rw [idOf, hr]; rfl
        simp only [deliver, if_pos hc, hrest, if_true, hgot, get_id_of_readable hreadable,
          Option.toList_some]
        refine h.of_requests rfl (fun _ _ => .inl) ⟨r, hr, .inl ⟨rfl, rfl⟩⟩ (fun k buf hk => ?_)
          (fun k hk => ?_)
          ⟨replies, waiting ++ [some r.id], hm.unread, hm.lines, ?_, fun hopen => ?_⟩
        · obtain ⟨hhead, hbuf⟩ := h.reader k buf hk
          exact ⟨by simp [List.head?_append, hhead], hbuf⟩
        · rcases List.mem_append.mp hk with hk | hk
          · exact .inl hk
          · rw [List.mem_singleton.mp hk, hr]
            simp
        · rw [List.map_append, hm.queue, List.append_assoc]
          simp [hid]
        · rw [hm.pending hopen]
          simp
      · have hrest := (rest_of_line hreadable.1 hline).2 hc
        simp only [deliver, if_neg hc, if_neg hrest]
        refine h.of_requests rfl (fun _ _ => .inl) ⟨r, hr, .inr ⟨hrest, ?_⟩⟩ h.reader
          (fun _ => .inl) ⟨replies, waiting, hm.unread, hm.lines, hm.queue, hm.pending⟩
        rw [← hline]
        simp
    · exact h
  · exact h

theorem aligned_flush (h : Aligned serde texts s) :
    Aligned serde texts (s.step serde texts (.flush i)) := by
  simp only [step]
  split
  · rename_i j hin
    split
    · rename_i hij
      subst hij
      obtain ⟨replies, waiting, hm⟩ := h.matched
      obtain ⟨r, -, ⟨-, hserver⟩ | ⟨hne, -⟩⟩ := h.line_of_some hin
      · refine h.of_requests request?_setPhase (fun j r hr => ?_) hserver h.reader (fun _ => .inl)
          ⟨replies, waiting, hm.unread, hm.lines, hm.queue, hm.pending⟩
        exact (of_phase?_setPhase hr).imp_right fun h => nomatch h.2
      · exact absurd rfl hne
    · exact h
  · exact h

theorem aligned_lockStdout (h : Aligned serde texts s) (hturn : s.queue.head? = some i) :
    Aligned serde texts (s.step serde texts (.lockStdout i)) := by
  simp only [step]
  split
  · rename_i hout hphase
    obtain ⟨replies, waiting, hm⟩ := h.matched
    refine h.of_requests request?_setPhase (fun j r hr => ?_) ?_ (fun j buf hj => ?_)
      (fun _ => .inl) ⟨replies, waiting, ?_, hm.lines, hm.queue, hm.pending⟩
    · exact (of_phase?_setPhase hr).imp_right fun h => nomatch h.2
    · exact h.writing.of_eq rfl rfl request?_setPhase
    · cases hj
      exact ⟨hturn, by simp⟩
    · rw [← hm.unread]
      simp [unread, hout]
      rfl
  · exact h

theorem aligned_returnReading (h : Aligned serde texts s) {buf rest : List Char}
    (hout : s.stdout = some (i, buf)) (hserver : s.fromServer = '\n' :: rest) :
    Aligned serde texts ({ s with fromServer := rest }.returnReading i
      (received serde texts (buf ++ ['\n']))) := by
  obtain ⟨hhead, hbuf⟩ := h.reader i buf hout
  obtain ⟨queue, hqueue⟩ := List.head?_eq_some_iff.mp hhead
  obtain ⟨replies, waiting, hm⟩ := h.matched
  have hunread : buf ++ '\n' :: rest = closed '\n' replies := by
    rw [← hm.unread]
    simp [unread, hout, hserver]
  cases replies with
  | nil => simp at hunread
  | cons l ls =>
    rw [closed_cons] at hunread
    have hl := hm.lines l (by simp)
    obtain ⟨rfl, hrest⟩ := Delimited.count_append_inj
      (by rw [List.count_eq_zero.mpr hbuf, List.count_eq_zero.mpr hl]) hunread
    have hmap := hm.queue
    rw [hqueue, List.map_cons, List.map_cons, List.cons_append] at hmap
    obtain ⟨hid, htail⟩ := List.cons.inj hmap
    refine h.of_requests request?_setPhase (fun j r hr => ?_)
      (h.writing.of_eq rfl rfl request?_setPhase) (fun j b hj => by cases hj) (fun j hj => ?_)
      ⟨ls, waiting, ?_, fun l hl => hm.lines l (by simp [hl]), ?_, hm.pending⟩
    · refine (of_phase?_setPhase hr).imp_right fun ⟨hij, hresult⟩ => ?_
      -- what is returned was parsed from the line whose id is known
      rw [← hij, hid, replyId]
      have hparse : parse serde texts (buf ++ ['\n']) = .ok r := by
        have hreceived := (Phase.returned.inj hresult).symm
        simpa [received] using hreceived
      rw [hparse]
    · left
      exact List.mem_of_mem_erase hj
    · rw [← hrest]
      rfl
    · rw [← htail]
      simp [returnReading, setPhase, hqueue]

theorem aligned_read (h : Aligned serde texts s) :
    Aligned serde texts (s.step serde texts (.read i)) := by
  simp only [step]
  split
  · rename_i j buf c rest hout hserver
    split
    · rename_i hij
      subst hij
      split
      · rename_i hc
        subst hc
        exact aligned_returnReading h hout hserver
      · rename_i hc
        obtain ⟨hhead, hbuf⟩ := h.reader i buf hout
        obtain ⟨replies, waiting, hm⟩ := h.matched
        refine h.of_requests rfl (fun _ _ => .inl) (h.writing.of_eq rfl rfl rfl) (fun k b hk => ?_)
          (fun _ => .inl) ⟨replies, waiting, ?_, hm.lines, hm.queue, hm.pending⟩
        · cases hk
          exact ⟨hhead, by simp [hbuf, Ne.symm hc]⟩
        · rw [← hm.unread]
          simp [unread, hout, hserver]
    · exact h
  · exact h

theorem aligned_readEof (h : Aligned serde texts s) :
    Aligned serde texts (s.step serde texts (.readEof i)) := by
  simp only [step]
  split
  · rename_i j buf hout hserver hclosed
    split
    · rename_i hij
      subst hij
      obtain ⟨hhead, hbuf⟩ := h.reader i buf hout
      obtain ⟨queue, hqueue⟩ := List.head?_eq_some_iff.mp hhead
      obtain ⟨replies, waiting, hm⟩ := h.matched
      have hunread : buf = closed '\n' replies := by
        rw [← hm.unread]
        simp [unread, hout, hserver]
      cases replies with
      | cons l ls =>
        rw [closed_cons] at hunread
        exact absurd (by rw [hunread]; simp) hbuf
      | nil =>
        rw [closed_nil] at hunread
        subst hunread
        have hmap := hm.queue
        rw [hqueue] at hmap
        refine h.of_requests request?_setPhase (fun j r hr => ?_)
          (h.writing.of_eq rfl rfl request?_setPhase) (fun j b hj => by cases hj)
          (fun j hj => .inl (List.mem_of_mem_erase hj))
          ⟨[], waiting.tail, ?_, fun _ hl => by simp at hl, ?_, fun hopen => ?_⟩
        · refine (of_phase?_setPhase hr).imp_right fun ⟨_, hresult⟩ => ?_
          have hreceived := Phase.returned.inj hresult
          simp [received] at hreceived
        · exact hserver
        · simp only [List.map_nil, List.nil_append] at hmap ⊢
          rw [← hmap]
          simp [returnReading, setPhase, hqueue]
        · exact absurd (hopen.symm.trans hclosed) (by simp)
    · exact h
  · exact h

theorem Aligned.toServer_of_whole (h : Aligned serde texts s) {rest : List Char}
    (hin : s.stdin = some (i, rest)) (hwhole : ∃ r, s.request? i = some r ∧ rest = line serde r) :
    s.toServer = [] := by
  obtain ⟨r, hr, hrest⟩ := hwhole
  obtain ⟨r', hr', ⟨-, hserver⟩ | ⟨-, hline⟩⟩ := h.line_of_some hin
  · exact hserver
  · obtain rfl : r = r' := Option.some.inj (hr.symm.trans hr')
    rw [hrest] at hline
    exact List.append_left_eq_self.mp hline

theorem aligned_writeError (h : Aligned serde texts s) {e : String} (hi : i ∉ s.queue)
    (hwhole : ∀ rest, s.stdin = some (i, rest) → ∃ r, s.request? i = some r ∧ rest = line serde r) :
    Aligned serde texts (s.step serde texts (.writeError i e)) := by
  simp only [step]
  split
  · rename_i j rest hin
    split
    · rename_i hij
      subst hij
      obtain ⟨replies, waiting, hm⟩ := h.matched
      have hqueue : s.queue.erase i = s.queue := List.erase_of_not_mem hi
      refine h.of_requests request?_setPhase (fun j r hr => ?_)
        (h.toServer_of_whole hin (hwhole rest hin)) (fun j buf hj => ?_) (fun j hj => ?_)
        ⟨replies, waiting, hm.unread, hm.lines, ?_, hm.pending⟩
      · exact (of_phase?_setPhase hr).imp_right fun h => nomatch h.2
      · change (s.queue.erase i).head? = _ ∧ _
        rw [hqueue]
        exact h.reader j buf hj
      · exact .inl (List.mem_of_mem_erase hj)
      · change (s.queue.erase i).map _ = _
        rw [hqueue]
        exact hm.queue
    · exact h
  · exact h

theorem aligned_drop (h : Aligned serde texts s) (hi : i ∉ s.queue)
    (hwhole : ∀ rest, s.stdin = some (i, rest) → ∃ r, s.request? i = some r ∧ rest = line serde r) :
    Aligned serde texts (s.step serde texts (.drop i)) := by
  have hqueue : s.queue.erase i = s.queue := List.erase_of_not_mem hi
  have hstdout : s.stdout.filter (·.1 ≠ i) = s.stdout := by
    cases hout : s.stdout with
    | none => rfl
    | some holder =>
      -- the reader is in the queue
      have hne : holder.1 ≠ i := by
        rintro rfl
        exact hi (List.mem_of_mem_head? (h.reader holder.1 holder.2 hout).1)
      simp [hne]
  have hdrop : Aligned serde texts (s.drop i) := by
    obtain ⟨replies, waiting, hm⟩ := h.matched
    refine h.of_requests request?_setPhase (fun j r hr => ?_) ?_ (fun j buf hj => ?_)
      (fun j hj => ?_) ⟨replies, waiting, ?_, hm.lines, ?_, hm.pending⟩
    · exact (of_phase?_setPhase hr).imp_right fun h => nomatch h.2
    · cases hin : s.stdin with
      | none =>
        refine h.writing.of_eq ?_ rfl request?_setPhase
        simp [Transport.drop, hin]
      | some holder =>
        obtain ⟨j, rest⟩ := holder
        by_cases hj : j = i
        · subst hj
          have hnone : (s.drop j).stdin = none := by simp [Transport.drop, hin]
          simp only [Writing, hnone]
          exact h.toServer_of_whole hin (hwhole rest hin)
        · refine h.writing.of_eq ?_ rfl request?_setPhase
          simp [Transport.drop, hin, hj]
    · simp only [Transport.drop, hstdout, hqueue] at hj ⊢
      exact h.reader j buf hj
    · exact .inl (List.mem_of_mem_erase hj)
    · rw [← hm.unread]
      simp only [unread, Transport.drop, hstdout]
      rfl
    · change (s.queue.erase i).map _ = _
      rw [hqueue]
      exact hm.queue
  simp only [step]
  split
  · exact h
  · exact h
  · exact hdrop

theorem aligned_reply (h : Aligned serde texts s) {reply : List Char} (hline : '\n' ∉ reply)
    {id : Json} {response : JsonRpcResponse} (hid : s.pending[0]? = some id)
    (hparse : parse serde texts (reply ++ ['\n']) = .ok response) (hresponse : response.id = id) :
    Aligned serde texts (s.step serde texts (.reply 0 reply)) := by
  simp only [step]
  cases hclosed : s.closed with
  | true => simpa using h
  | false =>
    obtain ⟨replies, waiting, hm⟩ := h.matched
    obtain ⟨pending, hpending⟩ : ∃ pending, s.pending = id :: pending := by
      cases hp : s.pending with
      | nil => simp [hp] at hid
      | cons a as => exact ⟨as, by simpa [hp] using hid⟩
    simp only [Bool.false_eq_true, if_false]
    refine h.of_requests rfl (fun _ _ => .inl) (h.writing.of_eq rfl rfl rfl) h.reader
      (fun _ => .inl) ⟨replies ++ [reply], pending.map some, ?_, ?_, ?_, fun _ => ?_⟩
    · have hunread := hm.unread
      simp only [unread] at hunread ⊢
      rw [List.append_assoc, ← List.append_assoc, hunread]
      simp [Delimited.closed]
    · intro l hl
      rcases List.mem_append.mp hl with hl | hl
      · exact hm.lines l hl
      · rwa [List.mem_singleton.mp hl]
    · change s.queue.map (idOf s) = _
      rw [hm.queue, hm.pending hclosed, hpending]
      simp [replyId, hparse, hresponse]
    · simp [hpending]

theorem aligned_step (h : Aligned serde texts s) {a : Act} (hconf : Conforming serde texts s a)
    (hturn : InTurn serde s a) : Aligned serde texts (s.step serde texts a) := by
  cases a with
  | call method => exact aligned_call h hconf
  | lockStdin i => exact aligned_lockStdin h
  | write i => exact aligned_write h
  | flush i => exact aligned_flush h
  | writeError i e => exact aligned_writeError h hturn.1 hturn.2
  | lockStdout i => exact aligned_lockStdout h hturn
  | read i => exact aligned_read h
  | readEof i => exact aligned_readEof h
  | readError i e => exact hturn.elim
  | drop i => exact aligned_drop h hturn.1 hturn.2
  | reply k line =>
    cases hturn
    obtain ⟨hline, id, response, hid, hparse, hresponse⟩ := hconf
    exact aligned_reply h hline hid hparse hresponse
  | notify line => exact hturn.elim
  | close =>
    obtain ⟨replies, waiting, hm⟩ := h.matched
    exact h.of_requests rfl (fun _ _ => .inl) (h.writing.of_eq rfl rfl rfl) h.reader
      (fun _ => .inl) ⟨replies, waiting, hm.unread, hm.lines, hm.queue, fun hopen => by cases hopen⟩

theorem aligned_start : Aligned serde texts {} where
  own _ _ h := by cases h
  readable _ _ h := by cases h
  writing := rfl
  reader _ _ h := by cases h
  known _ h := by simp at h
  matched := ⟨[], [], rfl, by simp, rfl, fun _ => rfl⟩

theorem aligned_run {acts : List Act} (h : Aligned serde texts s)
    (hacts : Obeyed serde texts (fun s a => Conforming serde texts s a ∧ InTurn serde s a) s acts) :
    Aligned serde texts (s.run serde texts acts) := by
  induction acts generalizing s with
  | nil => exact h
  | cons a acts ih => exact ih (aligned_step h hacts.1.1 hacts.1.2) hacts.2

end Steps

/-- The call returned what a response with its own id holds, if it returned anything but an
error. -/
def OwnReply (c : Call) : Prop :=
  ∀ output, c.output texts = some (.ok output) → ∃ response, c.phase = .returned (.ok response) ∧
    c.method.output texts response = .ok output ∧ response.id = c.request.id

/-- In every run with a conforming server in which the calls read in the order they wrote, the
server answers in that order and sends nothing else, and no call leaves between the first character
it writes and its reply, every call that returns has its own reply. -/
theorem replies_reach_their_callers (acts : List Act)
    (hacts : Obeyed serde texts (fun s a => Conforming serde texts s a ∧ InTurn serde s a) {}
      acts) :
    ∀ c ∈ (run serde texts {} acts).calls, OwnReply texts c := by
  intro c hc output houtput
  obtain ⟨i, hi⟩ := List.mem_iff_getElem?.mp hc
  have hown := (aligned_run aligned_start hacts).own i
  simp only [phase?, idOf, request?, hi, Option.map_some, Option.some.injEq] at hown
  unfold Call.output at houtput
  split at houtput
  · rename_i response hphase
    exact ⟨response, hphase, Option.some.inj houtput, (hown response hphase).symm⟩
  · cases houtput
  · cases houtput

/-! Two calls on one transport. -/

def firstLine : List Char :=
  ("\x7b\"jsonrpc\":\"2.0\",\"id\":1,\"method\":\"tools/call\"," ++
    "\"params\":\x7b\"arguments\":\x7b\x7d,\"name\":\"read\"\x7d\x7d").toList

def secondLine : List Char :=
  ("\x7b\"jsonrpc\":\"2.0\",\"id\":2,\"method\":\"tools/call\"," ++
    "\"params\":\x7b\"arguments\":\x7b\x7d,\"name\":\"pay\"\x7d\x7d").toList

def replyLine (id : String) : List Char :=
  ("\x7b\"jsonrpc\":\"2.0\",\"id\":" ++ id ++ ",\"result\":\x7b\"content\":[]\x7d\x7d").toList

def replyJson (id : ℕ) : Json :=
  .ofFields [("jsonrpc", .string "2.0"), ("id", .ofNat id),
    ("result", .ofFields [("content", .array [])])]

def reading : Method := .callTool "read" (.object [])

def paying : Method := .callTool "pay" (.object [])

/-- The texts of the two requests and of their replies. -/
def wire : Serde where
  text r :=
    match r.id with
    | .number (.int 1) => firstLine
    | _ => secondLine
  fromStr line :=
    if line = firstLine then some (reading.request 1).toJson
    else if line = secondLine then some (paying.request 2).toJson
    else if line = replyLine "1" ++ ['\n'] then some (replyJson 1)
    else if line = replyLine "2" ++ ['\n'] then some (replyJson 2)
    else none

def plainErrors : ErrorTexts := ⟨fun _ => "error", fun _ => "value", fun _ => "line"⟩

/-- A call writes its whole line. -/
def sends (i n : ℕ) : List Act := .lockStdin i :: (List.replicate n (.write i) ++ [.flush i])

/-- A call reads a whole line. -/
def receives (i n : ℕ) : List Act := .lockStdout i :: List.replicate n (.read i)

/-- Both calls have written. -/
def bothSent : List Act :=
  [.call reading, .call paying] ++ sends 0 (firstLine.length + 1) ++ sends 1 (secondLine.length + 1)

/-- The number an id is. -/
def numberOf : Json → Option ℤ
  | .number (.int n) => some n
  | _ => none

theorem numberOf_eq_some {v : Json} {n : ℤ} (h : numberOf v = some n) : v = .number (.int n) := by
  unfold numberOf at h
  split at h
  · rw [Option.some.inj h]
  · cases h

theorem obeyed_append {ok : Transport → Act → Prop} {serde : Serde} {texts : ErrorTexts}
    {s : Transport} {as bs : List Act} : Obeyed serde texts ok s (as ++ bs) ↔
      Obeyed serde texts ok s as ∧ Obeyed serde texts ok (s.run serde texts as) bs := by
  induction as generalizing s with
  | nil => simp [Obeyed, run]
  | cons a as ih => simp [Obeyed, ih, run, and_assoc]

theorem obeyed_of_forall {ok : Transport → Act → Prop} {serde : Serde} {texts : ErrorTexts}
    {acts : List Act} (h : ∀ a ∈ acts, ∀ s, ok s a) (s : Transport) :
    Obeyed serde texts ok s acts := by
  induction acts generalizing s with
  | nil => trivial
  | cons a acts ih => exact ⟨h a (by simp) s, ih (fun b hb => h b (by simp [hb])) _⟩

theorem not_mem_toList_ofList {c : Char} {cs : List Char} (h : c ∉ cs) :
    c ∉ (String.ofList cs).toList := by
  rwa [String.toList_ofList]

theorem not_mem_replyLine {id : String} (h : '\n' ∉ id.toList) : '\n' ∉ replyLine id := by
  rw [replyLine, String.toList_append, String.toList_append, List.mem_append, List.mem_append]
  rintro ((hc | hc) | hc)
  · exact not_mem_toList_ofList (by simp) hc
  · exact h hc
  · exact not_mem_toList_ofList (by simp) hc

theorem replyLine_inj {id id' : String} : replyLine id = replyLine id' ↔ id = id' := by
  simp only [replyLine, String.toList_append, List.append_cancel_right_eq,
    List.append_cancel_left_eq, String.toList_inj]

theorem not_mem_lines : '\n' ∉ firstLine ∧ '\n' ∉ secondLine ∧ '\n' ∉ replyLine "1" ∧
    '\n' ∉ replyLine "2" := by
  refine ⟨?_, ?_, not_mem_replyLine (not_mem_toList_ofList (by simp)),
    not_mem_replyLine (not_mem_toList_ofList (by simp))⟩
  · unfold firstLine
    rw [String.toList_append, List.mem_append]
    exact fun h => h.elim (not_mem_toList_ofList (by simp)) (not_mem_toList_ofList (by simp))
  · unfold secondLine
    rw [String.toList_append, List.mem_append]
    exact fun h => h.elim (not_mem_toList_ofList (by simp)) (not_mem_toList_ofList (by simp))

theorem readable_wire : Readable wire (reading.request 1) ∧ Readable wire (paying.request 2) := by
  obtain ⟨hfirst, hsecond, -⟩ := not_mem_lines
  have hne : secondLine ≠ firstLine := by
    unfold secondLine firstLine
    rw [ne_eq, String.toList_inj]
    simp
  have hread : wire.fromStr firstLine = some (reading.request 1).toJson := by
    simp only [wire, if_true]
  have hread' : wire.fromStr secondLine = some (paying.request 2).toJson := by
    simp only [wire, if_neg hne, if_true]
  exact ⟨⟨hfirst, hread⟩, hsecond, hread'⟩

theorem parse_replyLine :
    (∃ response, parse wire plainErrors (replyLine "1" ++ ['\n']) = .ok response ∧
      response.id = .ofNat 1) ∧
    ∃ response, parse wire plainErrors (replyLine "2" ++ ['\n']) = .ok response ∧
      response.id = .ofNat 2 := by
  obtain ⟨hfirst, hsecond, -⟩ := not_mem_lines
  -- a line that is ended is none of the texts
  have hne : ∀ l : List Char, l ++ ['\n'] ≠ firstLine ∧ l ++ ['\n'] ≠ secondLine := by
    intro l
    exact ⟨fun h => hfirst (by rw [← h]; simp), fun h => hsecond (by rw [← h]; simp)⟩
  have htwo : replyLine "2" ++ ['\n'] ≠ replyLine "1" ++ ['\n'] := by
    rw [ne_eq, List.append_cancel_right_eq, replyLine_inj]
    simp
  have hread₁ : wire.fromStr (replyLine "1" ++ ['\n']) = some (replyJson 1) := by
    simp only [wire, if_neg (hne _).1, if_neg (hne _).2, if_true]
  have hread₂ : wire.fromStr (replyLine "2" ++ ['\n']) = some (replyJson 2) := by
    simp only [wire, if_neg (hne _).1, if_neg (hne _).2, if_neg htwo, if_true]
  refine ⟨⟨⟨"2.0", .ofNat 1, some (.ofFields [("content", .array [])]), none⟩, ?_, rfl⟩,
    ⟨"2.0", .ofNat 2, some (.ofFields [("content", .array [])]), none⟩, ?_, rfl⟩
  · rw [parse, hread₁]
    rfl
  · rw [parse, hread₂]
    rfl

theorem obeyed_bothSent {ok : Transport → Act → Prop}
    (hcall : ∀ s, s.requestCounter = 1 → ok s (.call reading))
    (hcall' : ∀ s, s.requestCounter = 2 → ok s (.call paying))
    (hlock : ∀ s i, ok s (.lockStdin i)) (hwrite : ∀ s i, ok s (.write i))
    (hflush : ∀ s i, ok s (.flush i)) : Obeyed wire plainErrors ok {} bothSent := by
  have hsends : ∀ i n, ∀ a ∈ sends i n, ∀ s, ok s a := by
    intro i n a ha s
    simp only [sends, List.mem_cons, List.mem_append, List.mem_replicate, List.not_mem_nil,
      or_false] at ha
    rcases ha with rfl | ⟨-, rfl⟩ | rfl
    · exact hlock s i
    · exact hwrite s i
    · exact hflush s i
  rw [bothSent, obeyed_append, obeyed_append]
  exact ⟨⟨⟨hcall _ rfl, hcall' _ rfl, trivial⟩, obeyed_of_forall (hsends _ _) _⟩,
    obeyed_of_forall (hsends _ _) _⟩

theorem obeyed_receives {ok : Transport → Act → Prop} {s : Transport} {i n : ℕ}
    (hlock : ok s (.lockStdout i)) (hread : ∀ s, ok s (.read i)) :
    Obeyed wire plainErrors ok s (receives i n) := by
  refine ⟨hlock, obeyed_of_forall (fun a ha s => ?_) _⟩
  rw [List.eq_of_mem_replicate ha]
  exact hread s

theorem pending_bothSent : (run wire plainErrors {} bothSent).pending = [.ofNat 1, .ofNat 2] ∧
    (run wire plainErrors {} bothSent).closed = false := by
  have hids : (run wire plainErrors {} bothSent).pending.map numberOf = [some 1, some 2] ∧
      (run wire plainErrors {} bothSent).closed = false := by
    decide +kernel
  refine ⟨?_, hids.2⟩
  obtain ⟨_, _, hpending, hfirst, hrest⟩ := List.map_eq_cons_iff.mp hids.1
  obtain ⟨_, _, hsecond, hid, hnil⟩ := List.map_eq_cons_iff.mp hrest
  rw [hpending, hsecond, numberOf_eq_some hfirst, numberOf_eq_some hid, List.map_eq_nil_iff.mp hnil]
  rfl

/-- The server answers in order and the calls read in order. -/
def answeredInOrder : List Act :=
  bothSent ++ [.reply 0 (replyLine "1"), .reply 0 (replyLine "2")] ++
    receives 0 (replyLine "1" ++ ['\n']).length ++ receives 1 (replyLine "2" ++ ['\n']).length

theorem replies_reach_their_callers_in_order :
    (run wire plainErrors {} answeredInOrder).calls.length = 2 ∧
    ∀ c ∈ (run wire plainErrors {} answeredInOrder).calls, OwnReply plainErrors c := by
  refine ⟨by decide +kernel, replies_reach_their_callers wire plainErrors _ ?_⟩
  unfold answeredInOrder
  obtain ⟨hpending, hclosed⟩ := pending_bothSent
  obtain ⟨⟨r₁, hparse₁, hid₁⟩, r₂, hparse₂, hid₂⟩ := parse_replyLine
  obtain ⟨-, -, hlines⟩ := not_mem_lines
  rw [obeyed_append, obeyed_append, obeyed_append]
  refine ⟨⟨⟨?_, ?_⟩, ?_⟩, ?_⟩
  · refine obeyed_bothSent (fun s hs => ⟨?_, trivial⟩) (fun s hs => ⟨?_, trivial⟩)
      (fun _ _ => ⟨trivial, trivial⟩) (fun _ _ => ⟨trivial, trivial⟩)
      (fun _ _ => ⟨trivial, trivial⟩)
    · simp only [Conforming, hs]
      exact readable_wire.1
    · simp only [Conforming, hs]
      exact readable_wire.2
  · refine ⟨⟨⟨hlines.1, .ofNat 1, r₁, by rw [hpending]; rfl, hparse₁, hid₁⟩, rfl⟩,
      ⟨⟨hlines.2, .ofNat 2, r₂, ?_, hparse₂, hid₂⟩, rfl⟩, trivial⟩
    simp [step, hclosed, hpending]
  · refine obeyed_receives ⟨trivial, ?_⟩ fun _ => ⟨trivial, trivial⟩
    change (run _ _ _ _).queue.head? = some 0
    decide +kernel
  · refine obeyed_receives ⟨trivial, ?_⟩ fun _ => ⟨trivial, trivial⟩
    change (run _ _ _ _).queue.head? = some 1
    decide +kernel

/-- The number a call was sent under and the number of the reply it returned, and whether it made
sense of the reply. -/
def idsOf (c : Call) : Option (Option ℤ × Option ℤ × Bool) :=
  match c.phase with
  | .returned (.ok response) =>
      some (numberOf c.request.id, numberOf response.id,
        (c.method.output plainErrors response).isOk)
  | _ => none

/-- The server answers the second request first, and the first call returns that answer. -/
theorem first_call_gets_second_reply :
    Obeyed wire plainErrors (Conforming wire plainErrors) {} (bothSent ++
      [.reply 1 (replyLine "2")] ++ receives 0 (replyLine "2" ++ ['\n']).length) ∧
    ¬ ∀ c ∈ (run wire plainErrors {} (bothSent ++ [.reply 1 (replyLine "2")] ++
      receives 0 (replyLine "2" ++ ['\n']).length)).calls, OwnReply plainErrors c := by
  obtain ⟨hpending, -⟩ := pending_bothSent
  obtain ⟨-, r₂, hparse₂, hid₂⟩ := parse_replyLine
  refine ⟨?_, fun h => ?_⟩
  · have hline : '\n' ∉ replyLine "2" := not_mem_lines.2.2.2
    rw [obeyed_append, obeyed_append]
    refine ⟨⟨obeyed_bothSent (fun s hs => ?_) (fun s hs => ?_) (fun _ _ => trivial)
      (fun _ _ => trivial) (fun _ _ => trivial), ?_, trivial⟩,
      obeyed_receives trivial fun _ => trivial⟩
    · simp only [Conforming, hs]
      exact readable_wire.1
    · simp only [Conforming, hs]
      exact readable_wire.2
    · exact ⟨hline, .ofNat 2, r₂, by rw [hpending]; rfl, hparse₂, hid₂⟩
  · -- what the first call sent, and what it returned
    have hids : (run wire plainErrors {} (bothSent ++ [.reply 1 (replyLine "2")] ++
        receives 0 (replyLine "2" ++ ['\n']).length)).calls.head?.bind idsOf =
          some (some 1, some 2, true) := by
      decide +kernel
    obtain ⟨c, hc, hfirst⟩ := Option.bind_eq_some_iff.mp hids
    have hown := h c (List.mem_of_mem_head? hc)
    unfold idsOf at hfirst
    split at hfirst
    · rename_i response hphase
      simp only [Option.some.injEq, Prod.mk.injEq] at hfirst
      obtain ⟨hsent, hgot, hok⟩ := hfirst
      cases hout : c.method.output plainErrors response with
      | error e => simp [hout, Except.isOk, Except.toBool] at hok
      | ok output =>
        obtain ⟨response', hphase', -, hid⟩ := hown output (by simp [Call.output, hphase, hout])
        rw [hphase] at hphase'
        cases hphase'
        rw [hid, hsent] at hgot
        cases hgot
    · cases hfirst

end JamJet.Mcp
