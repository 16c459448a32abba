import CosaiMcp.Run
import CosaiMcp.Transport.NetworkSpec
import CosaiMcp.Transport.StreamableHttp

/-!
# The pinned transport

`_PinnedAsyncTransport` resolves the host of every request anew and compares the address that it
would choose with the pinned one, before it connects to that. Both times the first IPv4 address is
chosen, or the first of all, so that among several addresses of one family the order of the answers
decides (`pinning_insensitive_iff`).

Resolving a reference against a URL is a parameter, and so is what the servers answer.
-/

namespace CosaiMcp.Transport

open Py

deriving instance DecidableEq for Answer

/-! ## Requests -/

/-- The parts of an `httpx.URL`. -/
structure HttpUrl where
  scheme : Str
  host : Str
  port : Option Nat
  path : Str
  query : Str
  fragment : Str
deriving DecidableEq

/-- `current.join(location)`, `none` where it raises. -/
abbrev UrlJoin := HttpUrl → Str → Option HttpUrl

/-- `path.rstrip("/")`. -/
def stripSlashes (path : Str) : Str := path.rdropWhile (· = 47)

def sameOriginTrailingSlashVariant (join : UrlJoin) (current : HttpUrl) (location : Option Str) :
    Option HttpUrl :=
  match location.getD [] with
  | [] => none
  | location =>
    match join current location with
    | none => none
    | some target =>
      if (target.scheme, target.host, target.port) ≠ (current.scheme, current.host, current.port) then
        none
      else if target.query ≠ current.query ∨ target.fragment ≠ current.fragment then none
      else if target.path = current.path ∨ stripSlashes target.path ≠ stripSlashes current.path then
        none
      else some target

/-- What the inner transport is asked for. -/
structure Connection where
  url : HttpUrl
  sniHostname : Str

structure PinnedRequest where
  url : HttpUrl
  /-- What `getaddrinfo` answers for the host, `none` where it raises. -/
  answers : Option (List Answer)
  /-- What the inner transport answers. -/
  server : Connection → HttpResponse

inductive PinError where
  | dnsRebinding
  | suspiciousRedirect (statusCode : Nat)
deriving DecidableEq

def checkDnsRebinding (expectedIp actualIp : Str) : Except PinError Unit :=
  if expectedIp ≠ actualIp then .error .dnsRebinding else .ok ()

/-- The check of the answers for a request. An empty list of answers passes. -/
def checkAnswers (pinnedIp : Str) (answers : Option (List Answer)) : Except PinError Unit :=
  match answers with
  | none => .error .dnsRebinding
  | some results =>
    match preferIPv4 results with
    | [] => .ok ()
    | first :: _ => checkDnsRebinding pinnedIp first.ip

/-- `check_redirect` of a response. -/
def checkResponse (response : HttpResponse) : Except PinError HttpResponse :=
  if 300 ≤ response.statusCode ∧ response.statusCode < 400 then
    .error (.suspiciousRedirect response.statusCode)
  else .ok response

structure PinnedTransport where
  pinnedIp : Str
  redirectCanonicalized : Bool
  canonicalizedUrl : Option HttpUrl

/-- The transport of a client that has just connected. -/
def PinnedTransport.connected (pinnedIp : Str) : PinnedTransport := ⟨pinnedIp, false, none⟩

/-- What a request comes to: the connections made, and the response. -/
abbrev PinnedOutcome := List Connection × Except PinError HttpResponse

/-- `handle_async_request`. The first response may redirect, once, to the same path with or without
its slash. -/
def PinnedTransport.handle (join : UrlJoin) (t : PinnedTransport) (r : PinnedRequest) :
    PinnedOutcome × PinnedTransport :=
  match checkAnswers t.pinnedIp r.answers with
  | .error e => (([], .error e), t)
  | .ok () =>
    let pinned : Connection := ⟨{ r.url with host := t.pinnedIp }, r.url.host⟩
    let response := r.server pinned
    if t.redirectCanonicalized then (([pinned], checkResponse response), t)
    else
      let canonical :=
        if 300 ≤ response.statusCode ∧ response.statusCode < 400 then
          sameOriginTrailingSlashVariant join r.url (response.headers.get? (lit "location"))
        else none
      match canonical with
      | none => (([pinned], checkResponse response), { t with redirectCanonicalized := true })
      | some canonical =>
        let retry : Connection := ⟨{ pinned.url with path := canonical.path }, r.url.host⟩
        (([pinned, retry], checkResponse (r.server retry)),
          { t with redirectCanonicalized := true, canonicalizedUrl := some canonical })

/-- The transport keeps its address. -/
theorem PinnedTransport.pinnedIp_handle (join : UrlJoin) (t : PinnedTransport) (r : PinnedRequest) :
    (t.handle join r).2.pinnedIp = t.pinnedIp := by
  unfold PinnedTransport.handle
  split
  · rfl
  · dsimp only
    split
    · rfl
    · split <;> rfl

/-- A request whose answers pass goes to the pinned address, and to no other. -/
theorem PinnedTransport.handle_of_ok (join : UrlJoin) {t : PinnedTransport} {r : PinnedRequest}
    (h : checkAnswers t.pinnedIp r.answers = .ok ()) :
    (t.handle join r).1.2 ≠ .error .dnsRebinding ∧ (t.handle join r).1.1 ≠ [] ∧
      ∀ c ∈ (t.handle join r).1.1, c.url.host = t.pinnedIp := by
  have hresponse : ∀ response, checkResponse response ≠ .error .dnsRebinding := by
    intro response
    unfold checkResponse
    split <;> rintro ⟨⟩
  unfold PinnedTransport.handle
  rw [h]
  dsimp only
  split
  · exact ⟨hresponse _, List.cons_ne_nil _ _, by simp⟩
  · split
    · exact ⟨hresponse _, List.cons_ne_nil _ _, by simp⟩
    · exact ⟨hresponse _, List.cons_ne_nil _ _, by simp⟩

theorem PinnedTransport.handle_of_error (join : UrlJoin) {t : PinnedTransport} {r : PinnedRequest}
    {e : PinError} (h : checkAnswers t.pinnedIp r.answers = .error e) :
    (t.handle join r).1 = ([], .error e) := by
  unfold PinnedTransport.handle
  rw [h]

/-! ## The address that is chosen -/

/-- The answers that one is chosen from: those of IPv4, or all. -/
def candidates (answers : List Answer) : List Answer :=
  if answers.any (·.inet) then answers.filter (·.inet) else answers

theorem head?_preferIPv4 (answers : List Answer) :
    (preferIPv4 answers).head? = (candidates answers).head? := by
  unfold preferIPv4 candidates
  split
  · next h =>
    obtain ⟨a, ha, hinet⟩ := List.any_eq_true.mp h
    have hne : answers.filter (·.inet) ≠ [] :=
      List.ne_nil_of_mem (List.mem_filter.mpr ⟨ha, hinet⟩)
    exact List.head?_append_of_ne_nil _ hne
  · next h =>
    have hnone : ∀ a ∈ answers, a.inet = false := by
      intro a ha
      exact Bool.eq_false_iff.mpr fun hinet => h (List.any_eq_true.mpr ⟨a, ha, hinet⟩)
    rw [List.filter_eq_nil_iff.mpr fun a ha => by rw [hnone a ha]; exact Bool.false_ne_true,
      List.filter_eq_self.mpr fun a ha => by rw [hnone a ha]; rfl, List.nil_append]

/-- The same answers, in any order. -/
def SameAnswers (a b : List Answer) : Prop := ∀ x, x ∈ a ↔ x ∈ b

theorem SameAnswers.candidates {a b : List Answer} (h : SameAnswers a b) :
    SameAnswers (candidates a) (candidates b) := by
  have hany : a.any (·.inet) = b.any (·.inet) := by
    rw [Bool.eq_iff_iff, List.any_eq_true, List.any_eq_true]
    exact exists_congr fun x => and_congr_left' (h x)
  intro x
  unfold Transport.candidates
  rw [hany]
  split
  · rw [List.mem_filter, List.mem_filter, h x]
  · exact h x

theorem preferIPv4_eq_nil {answers : List Answer} (h : preferIPv4 answers = []) : answers = [] := by
  obtain ⟨hinet, hother⟩ := List.append_eq_nil_iff.mp h
  refine List.eq_nil_iff_forall_not_mem.mpr fun a ha => ?_
  cases hfamily : a.inet with
  | true => exact List.filter_eq_nil_iff.mp hinet a ha hfamily
  | false => exact List.filter_eq_nil_iff.mp hother a ha (by rw [hfamily]; rfl)

/-- Any candidate is chosen, if it comes first. -/
theorem head?_preferIPv4_cons {a : Answer} {answers : List Answer} (h : a ∈ candidates answers) :
    (preferIPv4 (a :: answers)).head? = some a := by
  rw [head?_preferIPv4]
  unfold candidates at h ⊢
  by_cases hinet : a.inet = true
  · rw [if_pos (by rw [List.any_cons, hinet]; rfl), List.filter_cons_of_pos hinet, List.head?_cons]
  · split at h
    · exact absurd (List.mem_filter.mp h).2 hinet
    · next hany =>
      rw [if_neg (by rw [List.any_cons, Bool.eq_false_iff.mpr hinet]; exact hany), List.head?_cons]

theorem sameAnswers_cons {a : Answer} {answers : List Answer} (h : a ∈ answers) :
    SameAnswers (a :: answers) answers := fun x => by
  rw [List.mem_cons]
  exact ⟨fun hx => hx.elim (fun heq => heq ▸ h) id, .inr⟩

theorem mem_of_mem_candidates {a : Answer} {answers : List Answer} (h : a ∈ candidates answers) :
    a ∈ answers := by
  unfold candidates at h
  split at h
  · exact List.mem_of_mem_filter h
  · exact h

/-- The answers are refused exactly if another address than the pinned one is chosen. -/
theorem checkAnswers_eq_ok_iff {pinnedIp : Str} {answers : List Answer} :
    checkAnswers pinnedIp (some answers) = .ok () ↔
      ∀ a, (preferIPv4 answers).head? = some a → a.ip = pinnedIp := by
  unfold checkAnswers
  dsimp only
  cases preferIPv4 answers with
  | nil => exact ⟨fun _ => nofun, fun _ => rfl⟩
  | cons a rest =>
    simp only [List.head?_cons, Option.some.injEq, forall_eq']
    unfold checkDnsRebinding
    split
    · next hne => exact ⟨nofun, fun heq => absurd heq.symm hne⟩
    · next heq => exact ⟨fun _ => (not_not.mp heq).symm, fun _ => rfl⟩

theorem checkAnswers_cases (pinnedIp : Str) (answers : Option (List Answer)) :
    checkAnswers pinnedIp answers = .ok () ∨
      checkAnswers pinnedIp answers = .error .dnsRebinding := by
  unfold checkAnswers checkDnsRebinding
  cases answers with
  | none => exact .inr rfl
  | some results =>
    dsimp only
    split
    · exact .inl rfl
    · split
      · exact .inr rfl
      · exact .inl rfl

/-! ## Orders of the answers -/

/-- The same request, for which the answers come in another order. -/
structure Reordered (r' r : PinnedRequest) : Prop where
  url : r'.url = r.url
  server : r'.server = r.server
  answers : Option.Rel SameAnswers r'.answers r.answers

theorem Reordered.refl (r : PinnedRequest) : Reordered r r where
  url := rfl
  server := rfl
  answers := by
    cases r.answers with
    | none => exact .none
    | some a => exact .some fun _ => Iff.rfl

/-- The request goes through to the pinned address, and to no other. -/
structure WentThrough (pinnedIp : Str) (o : PinnedOutcome) : Prop where
  accepted : o.2 ≠ .error .dnsRebinding
  connected : o.1 ≠ []
  pinned : ∀ c ∈ o.1, c.url.host = pinnedIp

/-- The request is refused before any connection. -/
structure Refused (o : PinnedOutcome) : Prop where
  raised : o.2 = .error .dnsRebinding
  unconnected : o.1 = []

/-- In whatever order the answers come, at the connect and for the requests: a request goes through
if its answers are those of the connect, and is refused if the pinned address is not among them. -/
def OrderInsensitive (join : UrlJoin) (allowPrivate : Bool) (connected : List Answer)
    (requests : List PinnedRequest) : Prop :=
  ∀ (resolver : Resolver) (hostname : Str) (answers : List Answer) (pinnedIp : Str),
    resolver hostname = .ok answers → SameAnswers answers connected →
    resolveAndPin resolver allowPrivate hostname = .ok pinnedIp →
    ∀ requests', List.Forall₂ Reordered requests' requests →
    ∀ r o, (r, o) ∈ Run.trace (PinnedTransport.handle join) (.connected pinnedIp) requests' →
      ∀ a, r.answers = some a →
        (SameAnswers a connected → WentThrough pinnedIp o) ∧
        (pinnedIp ∉ a.map (·.ip) → Refused o)

/-- There are answers to pin an address from. -/
def Pinnable (allowPrivate : Bool) (answers : List Answer) : Prop :=
  ∃ a ∈ candidates answers, checkIp allowPrivate a.ip = .ok ()

/-- All the answers that one is chosen from give one address, if it may be pinned. -/
def OneAddress (allowPrivate : Bool) (answers : List Answer) : Prop :=
  ∀ a ∈ candidates answers, checkIp allowPrivate a.ip = .ok () →
    ∀ b ∈ candidates answers, b.ip = a.ip

section Orders

variable {join : UrlJoin} {allowPrivate : Bool}

/-- An entry of a run is the answer of a transport with the same pinned address. -/
theorem handle_of_mem_trace {pinnedIp : Str} {requests : List PinnedRequest} {r : PinnedRequest}
    {o : PinnedOutcome}
    (h : (r, o) ∈ Run.trace (PinnedTransport.handle join) (.connected pinnedIp) requests) :
    r ∈ requests ∧ ∃ t : PinnedTransport, t.pinnedIp = pinnedIp ∧ o = (t.handle join r).1 :=
  Run.mem_trace_of_invariant (PinnedTransport.handle join)
    (fun t r ht => (PinnedTransport.pinnedIp_handle join t r).trans ht) rfl h

theorem wentThrough_handle {t : PinnedTransport} {r : PinnedRequest}
    (h : checkAnswers t.pinnedIp r.answers = .ok ()) :
    WentThrough t.pinnedIp (t.handle join r).1 := by
  obtain ⟨haccepted, hconnected, hpinned⟩ := PinnedTransport.handle_of_ok join h
  exact ⟨haccepted, hconnected, hpinned⟩

theorem refused_handle {t : PinnedTransport} {r : PinnedRequest}
    (h : checkAnswers t.pinnedIp r.answers ≠ .ok ()) : Refused (t.handle join r).1 := by
  have hanswer := PinnedTransport.handle_of_error join
    ((checkAnswers_cases t.pinnedIp r.answers).resolve_left h)
  rw [hanswer]
  exact ⟨rfl, rfl⟩

/-- Any candidate that passes is pinned, if it comes first. -/
theorem resolveAndPin_cons {a : Answer} {answers : List Answer} (ha : a ∈ candidates answers)
    (hcheck : checkIp allowPrivate a.ip = .ok ()) :
    resolveAndPin (fun _ => .ok (a :: answers)) allowPrivate [] = .ok a.ip :=
  resolveAndPin_eq_ok.mpr ⟨a, head?_preferIPv4_cons ha, hcheck, rfl⟩

/-- The candidate `b` comes first wherever it is one. -/
def putFirst (b : Answer) (r : PinnedRequest) : PinnedRequest :=
  { r with answers := r.answers.map fun a => if b ∈ candidates a then b :: a else a }

theorem reordered_putFirst (b : Answer) (r : PinnedRequest) : Reordered (putFirst b r) r where
  url := rfl
  server := rfl
  answers := by
    unfold putFirst
    cases r.answers with
    | none => exact .none
    | some a =>
      refine .some ?_
      dsimp only
      split
      · next hb => exact sameAnswers_cons (mem_of_mem_candidates hb)
      · exact fun _ => Iff.rfl

theorem exists_reordered_of_mem {requests' requests : List PinnedRequest}
    (h : List.Forall₂ Reordered requests' requests) {r' : PinnedRequest} (hr' : r' ∈ requests') :
    ∃ r ∈ requests, Reordered r' r := by
  induction h with
  | nil => cases hr'
  | @cons q' q _ _ hq _ ih =>
    rcases List.mem_cons.mp hr' with rfl | hr'
    · exact ⟨q, List.mem_cons_self, hq⟩
    · obtain ⟨r, hr, hrel⟩ := ih hr'
      exact ⟨r, List.mem_cons_of_mem q hr, hrel⟩

section Insensitive

variable {join : UrlJoin} {allowPrivate : Bool} {connected : List Answer}
  {requests : List PinnedRequest}

/-- With `x` first at the connect and `y` for the requests, the address of `y` is the one pinned. -/
theorem OrderInsensitive.oneAddress (h : OrderInsensitive join allowPrivate connected requests)
    {r : PinnedRequest} (hr : r ∈ requests) {a : List Answer} (ha : r.answers = some a)
    (hsame : SameAnswers a connected) : OneAddress allowPrivate connected := by
  intro x hx hcheck y hy
  have hpin := resolveAndPin_cons hx hcheck
  have hreordered : List.Forall₂ Reordered (requests.map (putFirst y)) requests :=
    List.forall₂_map_left_iff.mpr (List.forall₂_same.mpr fun r _ => reordered_putFirst y r)
  obtain ⟨o, ho⟩ := Run.exists_mem_trace (PinnedTransport.handle join) (.connected x.ip)
    (List.mem_map_of_mem (f := putFirst y) hr)
  have hy' : y ∈ candidates a := (hsame.candidates y).mpr hy
  have hanswers : (putFirst y r).answers = some (y :: a) := by
    rw [putFirst, ha, Option.map_some, if_pos hy']
  have hsame' : SameAnswers (y :: a) connected := fun z =>
    (sameAnswers_cons (mem_of_mem_candidates hy') z).trans (hsame z)
  have hthrough := (h _ [] _ _ rfl (sameAnswers_cons (mem_of_mem_candidates hx)) hpin _
    hreordered _ _ ho _ hanswers).1 hsame'
  obtain ⟨-, t, ht, rfl⟩ := handle_of_mem_trace ho
  have hok : checkAnswers t.pinnedIp (some (y :: a)) = .ok () := by
    by_contra hne
    rw [← hanswers] at hne
    exact hthrough.accepted (refused_handle hne).raised
  rw [ht] at hok
  exact checkAnswers_eq_ok_iff.mp hok y (head?_preferIPv4_cons hy')

/-- A request without answers is let through, whatever is pinned. -/
theorem OrderInsensitive.not_pinnable (h : OrderInsensitive join allowPrivate connected requests)
    {r : PinnedRequest} (hr : r ∈ requests) (ha : r.answers = some []) :
    ¬ Pinnable allowPrivate connected := by
  rintro ⟨x, hx, hcheck⟩
  have hpin := resolveAndPin_cons hx hcheck
  obtain ⟨o, ho⟩ := Run.exists_mem_trace (PinnedTransport.handle join) (.connected x.ip) hr
  have hrefused := (h _ [] _ _ rfl (sameAnswers_cons (mem_of_mem_candidates hx)) hpin _
    (List.forall₂_same.mpr fun r _ => Reordered.refl r) _ _ ho _ ha).2 (List.not_mem_nil)
  obtain ⟨-, t, ht, rfl⟩ := handle_of_mem_trace ho
  have hok : checkAnswers t.pinnedIp r.answers = .ok () := by rw [ha]; rfl
  exact (wentThrough_handle hok).accepted hrefused.raised

theorem Reordered.exists_answers {r' r : PinnedRequest} (h : Reordered r' r) {a' : List Answer}
    (ha' : r'.answers = some a') : ∃ a, r.answers = some a ∧ SameAnswers a' a := by
  have hanswers := h.answers
  rw [ha'] at hanswers
  cases ha : r.answers with
  | none =>
    rw [ha] at hanswers
    cases hanswers
  | some a =>
    rw [ha] at hanswers
    cases hanswers with
    | some hsame => exact ⟨a, rfl, hsame⟩

end Insensitive

/-- The order of the answers does not matter exactly if there is one address to choose where the
answers are those of the connect, and no request is made with none. -/
theorem pinning_insensitive_iff (join : UrlJoin) (allowPrivate : Bool) (connected : List Answer)
    (requests : List PinnedRequest) :
    OrderInsensitive join allowPrivate connected requests ↔
      ∀ r ∈ requests, ∀ a, r.answers = some a →
        (SameAnswers a connected → OneAddress allowPrivate connected) ∧
        (a = [] → ¬ Pinnable allowPrivate connected) := by
  constructor
  · intro h r hr a ha
    exact ⟨h.oneAddress hr ha, fun hnil => h.not_pinnable hr (hnil ▸ ha)⟩
  · intro h resolver hostname answers pinnedIp hresolver hsame hpin requests' hreordered r' o ho
      a' ha'
    obtain ⟨hr', t, rfl, rfl⟩ := handle_of_mem_trace ho
    obtain ⟨r, hr, hrel⟩ := exists_reordered_of_mem hreordered hr'
    obtain ⟨a, ha, haa⟩ := hrel.exists_answers ha'
    obtain ⟨x, hx, hcheck, hip⟩ := resolveAndPin_eq_ok.mp hpin
    rw [preferred, hresolver, Except.toOption, Option.bind_some, head?_preferIPv4] at hx
    have hx' : x ∈ candidates connected := (hsame.candidates x).mp (List.mem_of_head? hx)
    obtain ⟨hone, hnone⟩ := h r hr a ha
    constructor
    · intro hconnected
      refine wentThrough_handle ?_
      rw [ha', checkAnswers_eq_ok_iff]
      intro y hy
      rw [head?_preferIPv4] at hy
      have hy' : y ∈ candidates connected := (hconnected.candidates y).mp (List.mem_of_head? hy)
      have hconnected' : SameAnswers a connected := fun z => (haa z).symm.trans (hconnected z)
      exact (hone hconnected' x hx' hcheck y hy').trans hip
    · intro hmissing
      refine refused_handle fun hok => ?_
      rw [ha', checkAnswers_eq_ok_iff] at hok
      cases hhead : (preferIPv4 a').head? with
      | none =>
        have hempty := preferIPv4_eq_nil (List.head?_eq_none_iff.mp hhead)
        have hempty' : a = [] := List.eq_nil_iff_forall_not_mem.mpr fun z hz => by
          have := (haa z).mpr hz
          rw [hempty] at this
          cases this
        exact hnone hempty' ⟨x, hx', hcheck⟩
      | some y =>
        have hy := hok y hhead
        rw [head?_preferIPv4] at hhead
        exact hmissing (List.mem_map.mpr
          ⟨y, mem_of_mem_candidates (List.mem_of_head? hhead), hy⟩)

end Orders

/-! ## Round robin -/

def roundRobin : List Answer := [⟨true, lit "93.184.216.34"⟩, ⟨true, lit "93.184.216.35"⟩]

/-- A request to a host with two addresses. -/
def roundRobinRequest : PinnedRequest :=
  ⟨⟨lit "http", lit "example.com", none, lit "/mcp", [], []⟩, some roundRobin,
    fun _ => ⟨200, Dict.empty, []⟩⟩

/-- The resolver turns the two addresses round between the connect and the request. -/
theorem roundRobin_refused : ¬ OrderInsensitive (fun _ _ => none) false roundRobin
    [roundRobinRequest] := by
  intro h
  have hsame : SameAnswers roundRobin.reverse roundRobin := fun _ => List.mem_reverse
  have hpin : resolveAndPin (fun _ => .ok roundRobin.reverse) false (lit "example.com") =
      .ok (lit "93.184.216.35") := by decide
  have hmem : (roundRobinRequest, (([], .error .dnsRebinding) : PinnedOutcome)) ∈
      Run.trace (PinnedTransport.handle fun _ _ => none) (.connected (lit "93.184.216.35"))
        [roundRobinRequest] := List.mem_singleton_self _
  have hthrough := (h _ _ _ _ rfl hsame hpin _ (List.forall₂_same.mpr fun r _ => Reordered.refl r)
    _ _ hmem roundRobin rfl).1 fun _ => Iff.rfl
  exact hthrough.accepted rfl

end CosaiMcp.Transport
