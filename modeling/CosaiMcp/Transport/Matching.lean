import CosaiMcp.Py.JsonErase
import CosaiMcp.Transport.Framing
import CosaiMcp.Transport.Stdio

/-!
# Are responses matched to requests?

A server answers each request with notifications or requests of its own and then the response.
Over stdio the transport is a queue of lines of which each call takes one (`trace_send`), so a
notification shifts every later answer; over HTTP a call takes the first event of its own reply.
Neither looks at the id. Nor is what they take always what was sent: the stdio transport drops the
DEL characters of a line, and the reader of events has the limits of `framing_decoded`. See
`responses_matched`.
-/

namespace CosaiMcp.Transport

open Py

variable {φ : Type}

/-! ## Servers -/

/-- The response to a request. -/
structure Response (φ : Type) where
  requestId : Str
  value : Json φ
  carries : value.get? (lit "id") = some (.str requestId)
  noMethod : value.get? (lit "method") = none

/-- A notification or a request of the server. -/
def IsNotice (j : Json φ) : Prop := j.get? (lit "method") ≠ none

variable [FloatText φ]

/-- What a process writes in answer to a request. -/
structure StdioAnswer (φ : Type) [FloatText φ] where
  notices : List Line
  areNotices : ∀ l ∈ notices, ∃ j : Json φ, loads l.text = some j ∧ IsNotice j
  response : Response φ
  line : Line
  reads : loads line.text = some response.value

def StdioAnswer.lines (a : StdioAnswer φ) : List Line := a.notices ++ [a.line]

def StdioAnswer.bytes (a : StdioAnswer φ) : Bytes := a.lines.flatMap Line.raw

/-- The answers of a process, within the cap on its output. -/
structure StdioRun (φ : Type) [FloatText φ] where
  answers : List (StdioAnswer φ)
  within : totalBytes (answers.flatMap StdioAnswer.lines) ≤ maxOutputBytes

/-- A call for each answer. -/
def StdioRun.sends (replace : Bytes → Str) (run : StdioRun φ) :
    List (StdioAnswer φ × Except StdioError (Json φ)) :=
  Run.trace (fun t a => StdioTransport.send replace t a.bytes) .connected run.answers

/-- The reply of an HTTP server to a request: a stream of events, within the cap on lines. -/
structure SseReply (φ : Type) [FloatText φ] where
  http : HttpReply φ
  direct : ¬ (300 ≤ http.statusCode ∧ http.statusCode < 400)
  stream : lit "text/event-stream" <:+: (http.headers.get? (lit "content-type")).getD []
  notices : List (Encoding φ)
  areNotices : ∀ e ∈ notices, IsNotice (.obj e.message)
  response : Response φ
  event : Encoding φ
  reads : .obj event.message = response.value
  body : Sends ((notices ++ [event]).flatMap Encoding.wire) http.body
  short : (((notices ++ [event]).flatMap Encoding.wire).flatMap pieces).length ≤ sseMaxLines

/-- The first event is read, and is the response: no notice comes before it. -/
def SseReply.Readable (r : SseReply φ) : Prop := r.notices = [] ∧ r.event.Decodable

/-- The event that a call hears. -/
def SseReply.first (r : SseReply φ) : Encoding φ := (r.notices ++ [r.event]).head (by simp)

/-! ## Stdio -/

theorem totalBytes_cons (l : Line) (ls : List Line) :
    totalBytes (l :: ls) = l.raw.length + totalBytes ls := by
  rw [totalBytes, List.flatMap_cons, List.length_append]
  rfl

/-- The calls take the lines off a queue, within the cap on the output. -/
theorem trace_send (replace : Bytes → Str) {answers : List (StdioAnswer φ)} {queue : List Line}
    {t : StdioTransport} (h : t.Holds queue)
    (hcap : t.totalBytesRead + totalBytes (queue ++ answers.flatMap StdioAnswer.lines) ≤
      maxOutputBytes) :
    Run.trace (fun t a => StdioTransport.send (φ := φ) replace t a.bytes) t answers =
      (Run.trace (fun q a => Fifo.serve q a.lines) queue answers).map fun p =>
        (p.1, p.2.elim (.error .timeout) Line.heard) := by
  induction answers generalizing queue t with
  | nil => rfl
  | cons a answers ih =>
    have hne : queue ++ a.lines ≠ [] := by simp [StdioAnswer.lines]
    obtain ⟨l, ls, hls⟩ := List.exists_cons_of_ne_nil hne
    rw [List.flatMap_cons, ← List.append_assoc, hls, List.cons_append, totalBytes_cons] at hcap
    have hread : t.totalBytesRead + l.raw.length ≤ maxOutputBytes := by omega
    have hrest : t.totalBytesRead + l.raw.length +
        totalBytes (ls ++ answers.flatMap StdioAnswer.lines) ≤ maxOutputBytes := by omega
    obtain ⟨hout, hstate⟩ := h.send (φ := φ) replace hls hread
    have hserve : Fifo.serve queue a.lines = (some l, ls) := by rw [Fifo.serve, hls]; rfl
    have hnext : (StdioTransport.mk (ls.flatMap Line.raw) (t.totalBytesRead + l.raw.length)
        t.outputTruncated).Holds ls := ⟨rfl⟩
    rw [Run.trace_cons, Run.trace_cons, List.map_cons, hserve, StdioAnswer.bytes, hout, hstate,
      ih hnext hrest]
    rfl

theorem sends_eq (replace : Bytes → Str) (run : StdioRun φ) :
    run.sends replace = (Run.trace (fun q a => Fifo.serve q (a.notices ++ [a.line])) []
      run.answers).map fun p => (p.1, p.2.elim (.error .timeout) Line.heard) :=
  trace_send replace (t := .connected) ⟨rfl⟩ ((Nat.zero_add _).symm ▸ run.within)

/-- The k-th call hears the k-th line of all that the process writes. -/
theorem sends_in_order (replace : Bytes → Str) (run : StdioRun φ) :
    (run.sends replace).map Prod.snd =
      ((run.answers.flatMap StdioAnswer.lines).take run.answers.length).map Line.heard := by
  have hlines : ∀ a ∈ run.answers, a.lines ≠ [] := fun a _ => by simp [StdioAnswer.lines]
  have hsnd : (run.sends replace).map Prod.snd =
      ((Run.trace (fun q a => Fifo.serve q a.lines) [] run.answers).map Prod.snd).map
        fun o => o.elim (.error .timeout) Line.heard := by
    rw [sends_eq, List.map_map, List.map_map]
    rfl
  rw [hsnd, Fifo.trace_serve [] StdioAnswer.lines hlines, List.map_map, List.nil_append]
  rfl

theorem stripControlChars_of_loads {s : Str} {j : Json φ} (h : loads s = some j) :
    stripControlChars s = eraseDel s := by
  refine List.filter_congr fun c hc => ?_
  by_cases hdel : c = 127
  · rw [hdel]
    rfl
  · have hval : c.val ≠ 0x7F := fun hval => hdel (Fin.ext hval)
    rw [decide_eq_true hdel, isKept]
    rcases printable_of_loads h c hc with hspace | hgraphic
    · simp only [isJsonSpace, Bool.or_eq_true, beq_iff_eq] at hspace
      rcases hspace with ((rfl | rfl) | rfl) | rfl <;> rfl
    · simp [hgraphic, hval]

/-- What is heard of a document, which is no blank line. -/
theorem heard_eq_iff {l : Line} {i j : Json φ} (h : loads l.text = some i) (hj : j ≠ .obj []) :
    l.heard (φ := φ) = .ok j ↔ loads (eraseDel l.text) = some j := by
  rw [Line.heard, stripControlChars_of_loads h, hearLine]
  by_cases hempty : eraseDel l.text = []
  · rw [if_pos hempty, hempty]
    exact ⟨fun heq => absurd (Except.ok.inj heq).symm hj, nofun⟩
  · rw [if_neg hempty]
    cases (loads (eraseDel l.text) : Option (Json φ)) with
    | none => exact ⟨nofun, nofun⟩
    | some j =>
      exact ⟨fun h => congrArg some (Except.ok.inj h), fun h => congrArg _ (Option.some.inj h)⟩

omit [FloatText φ] in
theorem Response.ne_empty (r : Response φ) : r.value ≠ .obj [] := fun h => by
  have hid := r.carries
  rw [h] at hid
  cases hid

/-- A notice is not heard as a response: it keeps its method. -/
theorem heard_notice_ne {l : Line} {j : Json φ} (h : loads l.text = some j) (hj : IsNotice j)
    (r : Response φ) : l.heard (φ := φ) ≠ .ok r.value := by
  intro heard
  have hread := (heard_eq_iff h r.ne_empty).mp heard
  exact get?_of_loads_eraseDel h hj (by decide) hread r.noMethod

/-- Each call hears its own response just where none has a notice before it, and the line reads as
the response without DEL characters. -/
theorem sends_own_iff (replace : Bytes → Str) (run : StdioRun φ) :
    (∀ p ∈ run.sends replace, p.2 = .ok p.1.response.value) ↔
      ∀ a ∈ run.answers,
        a.notices = [] ∧ loads (eraseDel a.line.text) = some a.response.value := by
  have hnotices : ∀ a ∈ run.answers, ∀ l ∈ a.notices,
      l.heard (φ := φ) ≠ .ok a.response.value := by
    intro a _ l hl
    obtain ⟨j, hloads, hj⟩ := a.areNotices l hl
    exact heard_notice_ne hloads hj a.response
  have hown := Fifo.own_iff StdioAnswer.notices StdioAnswer.line
    (fun a l => l.heard = .ok a.response.value) hnotices
  rw [sends_eq]
  refine Iff.trans ?_ (hown.trans ?_)
  · rw [List.forall_mem_map]
    refine forall₂_congr fun p _ => ?_
    cases p.2 with
    | none => exact ⟨nofun, nofun⟩
    | some l => exact ⟨fun h => ⟨l, rfl, h⟩, fun ⟨m, hm, h⟩ => Option.some.inj hm ▸ h⟩
  · exact forall₂_congr fun a _ => and_congr Iff.rfl (heard_eq_iff a.reads a.response.ne_empty)

/-! ## Streamable HTTP -/

section Sse

variable {aiterLines : Bytes → List Str}

omit [FloatText φ] in
theorem get?_withMetadata (response : HttpResponse) (data : Json φ) :
    (withMetadata response data).get? (lit "method") = data.get? (lit "method") := by
  have hheaders : lit "_headers" ≠ lit "method" := by decide
  have hstatus : lit "_status_code" ≠ lit "method" := by decide
  rw [withMetadata, Harness.get?_setMember_of_ne hheaders, Harness.get?_setMember_of_ne hstatus]

theorem receive_eq (hlines : SplitsLines aiterLines) (t : StreamableHttpTransport)
    (r : SseReply φ) (h : ¬ r.first.Injects) :
    (StreamableHttpTransport.receive aiterLines t r.http).1 =
      if r.first.OnOneLine ∧ r.first.Unsplit then
        .ok (withMetadata r.http.toHttpResponse (.obj r.first.message))
      else .error .decodeError := by
  have hne : r.notices ++ [r.event] ≠ [] := by simp
  have hwire : (r.notices ++ [r.event]).flatMap Encoding.wire =
      r.first.wire ++ (r.notices ++ [r.event]).tail.flatMap Encoding.wire := by
    rw [← List.flatMap_cons, SseReply.first, List.cons_head_tail hne]
  have hshort : (r.first.wire.flatMap pieces).length ≤ sseMaxLines := by
    have hlength := r.short
    rw [hwire, List.flatMap_append, List.length_append] at hlength
    omega
  rw [StreamableHttpTransport.receive, checkRedirect, if_neg r.direct]
  simp only
  rw [if_pos r.stream, consumeSseResponse, hlines.sends r.body, hwire,
    r.first.readFirst_seen h hshort]
  split <;> rfl

theorem receive_eq_response_iff (hlines : SplitsLines aiterLines) (t : StreamableHttpTransport)
    (r : SseReply φ) (h : ¬ r.first.Injects) :
    (StreamableHttpTransport.receive aiterLines t r.http).1 =
        .ok (withMetadata r.http.toHttpResponse r.response.value) ↔ r.Readable := by
  rw [receive_eq hlines t r h]
  cases hn : r.notices with
  | nil =>
    have hfirst : r.first = r.event := by simp [SseReply.first, hn]
    rw [hfirst] at h ⊢
    rw [r.reads]
    split
    · next hread => exact iff_of_true rfl ⟨hn, hread.1, hread.2, h⟩
    · next hread => exact iff_of_false nofun fun hr => hread ⟨hr.2.1, hr.2.2.1⟩
  | cons e es =>
    have hfirst : r.first = e := by simp [SseReply.first, hn]
    refine iff_of_false (fun heq => ?_) fun hr => absurd (hn.symm.trans hr.1) (List.cons_ne_nil _ _)
    rw [hfirst] at heq
    split at heq
    · have hnotice := r.areNotices e (hn ▸ List.mem_cons_self)
      rw [IsNotice, ← get?_withMetadata r.http.toHttpResponse, Except.ok.inj heq,
        get?_withMetadata, r.response.noMethod] at hnotice
      exact hnotice rfl
    · cases heq

theorem SseReply.first_not_injects {r : SseReply φ} (h : r.Readable) : ¬ r.first.Injects := by
  have hfirst : r.first = r.event := by simp [SseReply.first, h.1]
  rw [hfirst]
  exact h.2.2.2

end Sse

/-! ## Both transports -/

/-- Every call returns its own response if none comes after a notification or a request of the
server, no line of a process has a DEL character and every event is decoded; and only if, but for a
DEL where a name is given twice, and for events that a reader takes lines from that they do not
have. -/
theorem responses_matched (replace : Bytes → Str) (aiterLines : Bytes → List Str)
    (hlines : SplitsLines aiterLines) :
    (∀ run : StdioRun φ,
      ((∀ a ∈ run.answers, a.notices = [] ∧ 127 ∉ a.line.text) →
        ∀ p ∈ run.sends replace, p.2 = .ok p.1.response.value) ∧
      ((∀ p ∈ run.sends replace, p.2 = .ok p.1.response.value) →
        ∀ a ∈ run.answers, a.notices = [] ∧
          (127 ∉ a.line.text ∨ RepeatsName φ a.line.text))) ∧
    ∀ (t : StreamableHttpTransport) (replies : List (SseReply φ)),
      ((∀ r ∈ replies, r.Readable) →
        ∀ p ∈ Run.trace (fun t r => StreamableHttpTransport.receive aiterLines t r.http) t replies,
          p.2 = .ok (withMetadata p.1.http.toHttpResponse p.1.response.value)) ∧
      ((∀ p ∈ Run.trace (fun t r => StreamableHttpTransport.receive aiterLines t r.http) t replies,
          p.2 = .ok (withMetadata p.1.http.toHttpResponse p.1.response.value)) →
        ∀ r ∈ replies, r.Readable ∨ r.first.Injects) := by
  refine ⟨fun run => ⟨fun h => ?_, fun h a ha => ?_⟩, fun t replies => ⟨?_, ?_⟩⟩
  · refine (sends_own_iff replace run).mpr fun a ha => ⟨(h a ha).1, ?_⟩
    rw [eraseDel_eq_self (h a ha).2, a.reads]
  · obtain ⟨hnone, herase⟩ := (sends_own_iff replace run).mp h a ha
    exact ⟨hnone, not_mem_of_loads_eraseDel a.reads herase⟩
  · rintro h ⟨r, o⟩ hp
    obtain ⟨hr, t', rfl⟩ := Run.mem_trace _ hp
    have hfirst := r.first_not_injects (h r hr)
    exact (receive_eq_response_iff hlines t' r hfirst).mpr (h r hr)
  · intro h r hr
    obtain ⟨o, ho⟩ := Run.exists_mem_trace
      (fun t r => StreamableHttpTransport.receive aiterLines t r.http) t hr
    obtain ⟨-, t', hanswer⟩ := Run.mem_trace _ ho
    have hown := h _ ho
    rw [hanswer] at hown
    by_cases hfirst : r.first.Injects
    · exact .inr hfirst
    · exact .inl ((receive_eq_response_iff hlines t' r hfirst).mp hown)

section Example

/-- The line of a message. -/
private def messageLine (j : Json WholeFloat) (h : isAscii j.text = true)
    (hfeed : 10 ∉ asciiBytes j.text) (hshort : (asciiBytes j.text).length < maxLineBytes) : Line :=
  ⟨j.text, asciiBytes j.text, encodeUtf8_of_isAscii h, hfeed, hshort⟩

private def progress : Json WholeFloat := .obj [(lit "method", .str (lit "p"))]

private def pong : Json WholeFloat := .obj [(lit "id", .str (lit "1"))]

private theorem get?_progress : progress.get? (lit "method") ≠ none := nofun

private def progressLine : Line := messageLine progress (by decide) (by decide) (by decide)

private def pongLine : Line := messageLine pong (by decide) (by decide) (by decide)

private def pongResponse : Response WholeFloat := ⟨lit "1", pong, rfl, rfl⟩

/-- A process that reports progress before it answers. -/
private def chatty : StdioAnswer WholeFloat where
  notices := [progressLine]
  areNotices := List.forall_mem_singleton.mpr ⟨progress, loads_text progress, get?_progress⟩
  response := pongResponse
  line := pongLine
  reads := loads_text pong

/-- The first call returns the notification. -/
theorem notification_returned_as_response : ¬ ∀ (replace : Bytes → Str) (run : StdioRun WholeFloat),
    ∀ p ∈ run.sends replace, p.2 = .ok p.1.response.value := by
  intro h
  let run : StdioRun WholeFloat := ⟨[chatty], by decide⟩
  have hmem : chatty ∈ run.answers := List.mem_singleton_self chatty
  have hmatched := (sends_own_iff (fun _ => []) run).mp (h _ run) chatty hmem
  exact absurd hmatched.1 (List.cons_ne_nil _ _)

private def quiet : StdioAnswer WholeFloat := ⟨[], nofun, pongResponse, pongLine, loads_text pong⟩

private def pongEvent : Encoding WholeFloat where
  message := [(lit "id", .str (lit "1"))]
  silence := [lit ": ping"]
  silent := by decide
  lines := [lit "event: message", lit "data: " ++ pong.text]
  fields := by decide
  ends := ends_of_all (by decide +kernel)
  reads := by
    have hvalues : [lit "event: message", lit "data: " ++ pong.text].filterMap fieldData? =
        [pong.text] := by
      decide +kernel
    rw [hvalues, List.intercalate_singleton]
    exact loads_text pong

private def quietReply : SseReply WholeFloat where
  http := ⟨⟨200, ⟨[(lit "content-type", lit "text/event-stream")], by decide⟩,
    feedBody pongEvent.wire⟩, none⟩
  direct := by decide
  stream := List.infix_rfl
  notices := []
  areNotices := nofun
  response := pongResponse
  event := pongEvent
  reads := rfl
  body := sends_feedBody (by decide +kernel) (by decide +kernel)
  short := by decide +kernel

/-- Two calls over each transport. -/
theorem responses_matched_quiet :
    (∀ p ∈ (StdioRun.mk [quiet, quiet] (by decide)).sends fun _ => [],
      p.2 = .ok p.1.response.value) ∧
    ∀ p ∈ Run.trace (fun t r => StreamableHttpTransport.receive bodyLines t r.http) ⟨none⟩
        [quietReply, quietReply],
      p.2 = .ok (withMetadata p.1.http.toHttpResponse p.1.response.value) := by
  have hmatched := responses_matched (φ := WholeFloat) (fun _ => []) bodyLines splitsLines_bodyLines
  have hdecodable : pongEvent.Decodable :=
    (Encoding.decodable_iff_of_isLine (isLine_of_lines (by decide +kernel))).mpr (by decide)
  constructor
  · refine (hmatched.1 _).1 (List.forall_mem_cons.mpr ⟨?_, List.forall_mem_singleton.mpr ?_⟩)
    · exact ⟨rfl, by decide⟩
    · exact ⟨rfl, by decide⟩
  · refine (hmatched.2 _ _).1 (List.forall_mem_cons.mpr ⟨?_, List.forall_mem_singleton.mpr ?_⟩)
    · exact ⟨rfl, hdecodable⟩
    · exact ⟨rfl, hdecodable⟩

end Example

end CosaiMcp.Transport
