import CosaiMcp.Harness.Context

/-!
# The Streamable HTTP transport

What `StreamableHTTPTransport.send` makes of the reply to a request, a JSON document or a stream of
server-sent events. The lines of a body, as `aiter_lines` yields them, are a parameter, and what
`Response.json` makes of it comes with the reply. The request is modelled with the session; that
the transport adopts a redirected endpoint, and its timeouts, are left out.
-/

namespace CosaiMcp.Transport

open Py

variable {φ : Type}

structure HttpResponse where
  statusCode : Nat
  /-- By name in lower case. -/
  headers : Dict Str Str
  body : Bytes

/-- A response with what its `json()` yields, `none` where that raises. -/
structure HttpReply (φ : Type) extends HttpResponse where
  json : Option (Json φ)

inductive HttpError where
  | suspiciousRedirect (statusCode : Nat)
  | lineCap
  | streamEnded
  | decodeError

structure StreamableHttpTransport where
  sessionId : Option Str

def checkRedirect (statusCode : Nat) : Except HttpError Unit :=
  if 300 ≤ statusCode ∧ statusCode < 400 then .error (.suspiciousRedirect statusCode) else .ok ()

def sseMaxLines : Nat := 10000

section Receive

variable [FloatText φ]

def parseJson (text : Str) : Except HttpError (Json φ) :=
  match loads text with
  | none => .error .decodeError
  | some j => .ok j

/-- `_read_first` from the state of its loop. -/
def readFirst : Nat → Option Str → List Str → Except HttpError (Json φ)
  | _, _, [] => .error .streamEnded
  | lineCount, eventData, line :: lines =>
    if lineCount + 1 > sseMaxLines then .error .lineCap
    else if startsWith (strip line) (lit "data:") then
      readFirst (lineCount + 1) (some (strip ((strip line).drop 5))) lines
    else
      match eventData with
      | none => readFirst (lineCount + 1) none lines
      | some data =>
        if strip line = [] then parseJson data else readFirst (lineCount + 1) (some data) lines

def consumeSseResponse (aiterLines : Bytes → List Str) (response : HttpResponse) :
    Except HttpError (Json φ) :=
  readFirst 0 none (aiterLines response.body)

/-- The members that the assertions on the status code and the headers read. -/
def withMetadata (response : HttpResponse) (data : Json φ) : Json φ :=
  Harness.setMember (Harness.setMember data (lit "_status_code") (.int response.statusCode))
    (lit "_headers") (.obj (response.headers.items.map fun h => (h.1, .str h.2)))

/-- `send` from the reply of the server on. -/
def StreamableHttpTransport.receive (aiterLines : Bytes → List Str) (t : StreamableHttpTransport)
    (response : HttpReply φ) : Except HttpError (Json φ) × StreamableHttpTransport :=
  match checkRedirect response.statusCode with
  | .error e => (.error e, t)
  | .ok () =>
    let contentType := (response.headers.get? (lit "content-type")).getD []
    let t := match response.headers.get? (lit "mcp-session-id") with
      | some (c :: cs) => ⟨some (c :: cs)⟩
      | _ => t
    let data :=
      if lit "text/event-stream" <:+: contentType then
        consumeSseResponse aiterLines response.toHttpResponse
      else
        match response.json with
        | none => .error .decodeError
        | some j => .ok j
    (data.map (withMetadata response.toHttpResponse), t)

end Receive

/-! ## Events -/

/-- What the transport takes a line to carry. -/
def lineData? (line : Str) : Option Str :=
  if startsWith (strip line) (lit "data:") then some (strip ((strip line).drop 5)) else none

/-- What a line carries by the format of event streams. -/
def fieldData? (line : Str) : Option Str :=
  if line = lit "data" then some []
  else if startsWith line (lit "data:") then
    match line.drop 5 with
    | 32 :: value => some value
    | value => some value
  else none

/-- An event that carries data, after comments, fields and blank lines that carry none. -/
structure SseEvent where
  silence : List Str
  silent : ∀ l ∈ silence, lineData? l = none
  lines : List Str
  unbroken : ∀ l ∈ lines, l ≠ []
  carries : ∃ l ∈ lines, startsWith l (lit "data:") = true

def SseEvent.wire (e : SseEvent) : List Str := e.silence ++ (e.lines ++ [[]])

/-- The last data line of some lines, or of those before the first one of white space only that
comes after data. -/
def lastData : Option Str → List Str → Option Str
  | data, [] => data
  | data, line :: lines =>
    match lineData? line with
    | some d => lastData (some d) lines
    | none => if data.isSome ∧ strip line = [] then data else lastData data lines

theorem dropWhile_append_of_head {p : CodePoint → Bool} (s : Str) {t : Str}
    (ht : t.dropWhile p = t) : (s ++ t).dropWhile p = s.dropWhile p ++ t := by
  rw [List.dropWhile_append]
  split
  · next h => rw [List.isEmpty_iff.mp h, ht, List.nil_append]
  · rfl

/-- What the readers take of a data line is its value, stripped. -/
theorem lineData?_data (v : Str) : lineData? (lit "data:" ++ v) = some (strip v) := by
  have hv : v = (v.reverse.dropWhile isSpace).reverse ++ (v.reverse.takeWhile isSpace).reverse := by
    rw [← List.reverse_append, List.takeWhile_append_dropWhile, List.reverse_reverse]
  have hleft : (lit "data:" ++ v).dropWhile isSpace = lit "data:" ++ v := rfl
  have hstrip : strip (lit "data:" ++ v) =
      lit "data:" ++ (v.reverse.dropWhile isSpace).reverse := by
    rw [strip, hleft, List.reverse_append, dropWhile_append_of_head v.reverse rfl,
      List.reverse_append, List.reverse_reverse]
  have hstarts : startsWith (strip (lit "data:" ++ v)) (lit "data:") = true := by
    rw [hstrip]
    exact List.isPrefixOf_iff_prefix.mpr (List.prefix_append _ _)
  rw [lineData?, if_pos hstarts, hstrip]
  conv_rhs => rw [hv]
  exact congrArg some (strip_append (x := []) (List.forall_mem_nil _)
    (fun c hc => List.mem_takeWhile_imp (List.mem_reverse.mp hc)) _).symm

theorem lineData?_isSome {l : Str} (h : startsWith l (lit "data:") = true) :
    (lineData? l).isSome = true := by
  obtain ⟨v, rfl⟩ := List.isPrefixOf_iff_prefix.mp h
  rw [lineData?_data]
  rfl

theorem lastData_isSome {data : Option Str} {ls : List Str}
    (h : data.isSome = true ∨ ∃ l ∈ ls, startsWith l (lit "data:") = true) :
    (lastData data ls).isSome = true := by
  induction ls generalizing data with
  | nil => exact h.resolve_right fun ⟨l, hl, _⟩ => nomatch hl
  | cons l ls ih =>
    rw [lastData]
    cases hl : lineData? l with
    | some d => exact ih (Or.inl rfl)
    | none =>
      simp only
      split
      · next hblank => exact hblank.1
      · refine ih (h.imp_right fun ⟨m, hm, hdata⟩ => ?_)
        rcases List.mem_cons.mp hm with rfl | hm
        · have := lineData?_isSome hdata
          rw [hl] at this
          cases this
        · exact ⟨m, hm, hdata⟩

section Events

variable [FloatText φ]

theorem readFirst_cons {n : Nat} {data : Option Str} {l : Str} {ls : List Str}
    (hn : n + 1 ≤ sseMaxLines) :
    readFirst (φ := φ) n data (l :: ls) =
      match lineData? l with
      | some d => readFirst (n + 1) (some d) ls
      | none =>
        match data with
        | none => readFirst (n + 1) none ls
        | some d => if strip l = [] then parseJson d else readFirst (n + 1) (some d) ls := by
  conv_lhs => unfold readFirst
  rw [if_neg (Nat.not_lt.mpr hn), lineData?]
  by_cases hdata : startsWith (strip l) (lit "data:") = true
  · rw [if_pos hdata, if_pos hdata]
  · rw [if_neg hdata, if_neg hdata]

theorem readFirst_silence {n : Nat} {silence : List Str} (h : ∀ l ∈ silence, lineData? l = none)
    {ls : List Str} (hn : n + silence.length ≤ sseMaxLines) :
    readFirst (φ := φ) n none (silence ++ ls) = readFirst (n + silence.length) none ls := by
  induction silence generalizing n with
  | nil => rfl
  | cons l silence ih =>
    rw [List.length_cons] at hn
    rw [List.cons_append, readFirst_cons (by omega), h l List.mem_cons_self,
      ih (fun m hm => h m (List.mem_cons_of_mem l hm)) (by omega), List.length_cons,
      Nat.add_assoc, Nat.add_comm 1]

theorem readFirst_lines {n : Nat} {data : Option Str} {ls : List Str} {d : Str}
    (h : lastData data ls = some d) {rest : List Str} (hn : n + ls.length + 1 ≤ sseMaxLines) :
    readFirst (φ := φ) n data (ls ++ [] :: rest) = parseJson d := by
  induction ls generalizing n data with
  | nil =>
    rw [lastData] at h
    subst h
    rw [List.nil_append, readFirst_cons (by omega)]
    rfl
  | cons l ls ih =>
    rw [List.length_cons] at hn
    rw [lastData] at h
    rw [List.cons_append, readFirst_cons (by omega)]
    cases hl : lineData? l with
    | some c =>
      rw [hl] at h
      exact ih h (by omega)
    | none =>
      rw [hl] at h
      cases data with
      | none =>
        rw [if_neg (by simp)] at h
        exact ih h (by omega)
      | some c =>
        by_cases hblank : strip l = []
        · rw [if_pos ⟨rfl, hblank⟩] at h
          cases h
          exact if_pos hblank
        · rw [if_neg (fun hc => hblank hc.2)] at h
          simp only
          rw [if_neg hblank]
          exact ih h (by omega)

/-- What is heard of an event. -/
def SseEvent.heard (e : SseEvent) : Except HttpError (Json φ) :=
  match lastData none e.lines with
  | none => .error .streamEnded
  | some data => parseJson data

/-- The first event with data ends the reading. -/
theorem readFirst_wire (e : SseEvent) {rest : List Str} (hn : e.wire.length ≤ sseMaxLines) :
    readFirst (φ := φ) 0 none (e.wire ++ rest) = e.heard := by
  have hsome : (lastData none e.lines).isSome = true := lastData_isSome (Or.inr e.carries)
  obtain ⟨data, hdata⟩ := Option.isSome_iff_exists.mp hsome
  have hlength : e.silence.length + e.lines.length + 1 ≤ sseMaxLines := by
    rw [SseEvent.wire, List.length_append, List.length_append, List.length_singleton] at hn
    omega
  rw [SseEvent.wire, List.append_assoc, List.append_assoc,
    readFirst_silence e.silent (by omega), SseEvent.heard, hdata]
  exact readFirst_lines hdata (by omega)

end Events

end CosaiMcp.Transport
