import CosaiMcp.Middleware.RequestMeta.EnvelopeSoundness
import CosaiMcp.Session.Send

/-!
# The validator accepts what the client sends

The headers that a modern session sends for a request, handed to `validateRequestMetadata` with the
body of the request, are accepted exactly when each mirrored argument stands under a name without
an underscore and without a line feed (`accepts_sent_iff`). An underscore makes the header an alias
of another `Mcp-Param-*` header, which the validator rejects; a final line feed, which the token
pattern of annotations lets through, is stripped from the name of the header.
-/

namespace CosaiMcp.Session

open Py Protocol Middleware.RequestMeta

/-! ## Names that reach the validator -/

/-- The name of a header that the validator reads as it was sent. -/
def HeaderSafe (name : Str) : Prop := 95 ∉ name ∧ 10 ∉ name

instance (name : Str) : Decidable (HeaderSafe name) := inferInstanceAs (Decidable (_ ∧ _))

theorem isSpace_of_val {c : CodePoint} (h : 33 ≤ c.val ∧ c.val ≤ 126) : isSpace c = false := by
  simp only [isSpace, Bool.or_eq_false_iff, Bool.and_eq_false_iff, decide_eq_false_iff_not,
    beq_eq_false_iff_ne]
  omega

theorem strip_paramPrefix {name : Str} (ht : isToken name = true) (hs : 10 ∉ name) :
    strip (headerParamPrefix ++ name) = headerParamPrefix ++ name := by
  refine strip_of_forall fun c hc => ?_
  rcases List.mem_append.mp hc with hc | hc
  · have hp : headerParamPrefix.all (fun c => !isSpace c) = true := by decide
    simpa using List.all_eq_true.mp hp c hc
  · obtain ⟨body, hbody, rfl | rfl⟩ := exists_of_isToken ht
    · exact isSpace_of_val (val_of_isTokenChar (hbody c hc))
    · exact absurd (List.mem_append_right body List.mem_cons_self) hs

theorem replaceChar_eq_self_iff {s : Str} {a b : CodePoint} (hab : a ≠ b) :
    replaceChar s a b = s ↔ a ∉ s := by
  induction s with
  | nil => exact ⟨fun _ => List.not_mem_nil, fun _ => rfl⟩
  | cons c s ih =>
    show (if c = a then b else c) :: replaceChar s a b = c :: s ↔ a ∉ c :: s
    rw [List.cons.injEq, ih, List.mem_cons, not_or]
    by_cases hc : c = a
    · subst hc
      simp [Ne.symm hab]
    · simp [hc, Ne.symm hc]

/-- Among the names of parameter headers, those with an underscore alias another. -/
theorem isRoutingAlias_paramName (x : Str) :
    isRoutingAlias (lit "mcp-param-" ++ x) = decide (95 ∈ x) := by
  have halias : aliasOf (lit "mcp-param-" ++ x) = lit "mcp-param-" ++ replaceChar x 95 45 := by
    have hdash : replaceChar (lit "mcp-param-" ++ x) 95 45 =
        lit "mcp-param-" ++ replaceChar x 95 45 := List.map_append
    rw [aliasOf, hdash]
    rfl
  have hrouting : isRouting (lit "mcp-param-" ++ replaceChar x 95 45) = true :=
    Bool.or_eq_true_iff.mpr (Or.inr (List.isPrefixOf_iff_prefix.mpr (List.prefix_append _ _)))
  rw [isRoutingAlias, halias, hrouting, Bool.and_true]
  refine decide_eq_decide.mpr ?_
  rw [ne_eq, List.append_cancel_left_eq, replaceChar_eq_self_iff (by decide), not_not]

theorem mem_lower_iff {U : UnicodeData} {s : Str} (h : isAscii s = true) {c : CodePoint}
    (hc : ∀ d, asciiLower d = c ↔ d = c) : c ∈ U.lower s ↔ c ∈ s := by
  rw [U.lower_ascii s h, List.mem_map]
  constructor
  · rintro ⟨d, hd, heq⟩
    exact (hc d).mp heq ▸ hd
  · intro hcs
    exact ⟨c, hcs, (hc c).mpr rfl⟩

theorem asciiLower_eq_iff {c : CodePoint} (h : c.val < 65 ∨ (90 < c.val ∧ c.val < 97))
    (d : CodePoint) :
    asciiLower d = c ↔ d = c := by
  unfold asciiLower
  split
  · rename_i hd
    constructor
    · intro heq
      have hv : c.val = d.val + 32 := by
        rw [← heq, Fin.val_ofNat, Nat.mod_eq_of_lt (by omega)]
      omega
    · rintro rfl
      omega
  · exact Iff.rfl

/-- The validator reads the header of an annotation under its own name. -/
theorem lower_strip_paramPrefix {U : UnicodeData} {name : Str} (ht : isToken name = true)
    (hs : 10 ∉ name) : U.lower (strip (headerParamPrefix ++ name)) = paramHeader U name := by
  rw [strip_paramPrefix ht hs, paramHeader]

theorem isRoutingAlias_paramHeader {U : UnicodeData} {name : Str} (ht : isToken name = true) :
    isRoutingAlias (paramHeader U name) = decide (95 ∈ name) := by
  rw [paramHeader_eq (isAscii_of_isToken ht), isRoutingAlias_paramName]
  exact decide_eq_decide.mpr (mem_lower_iff (isAscii_of_isToken ht) (asciiLower_eq_iff (by decide)))

/-- No header reaches the validator under a name with a final line feed. -/
theorem paramHeader_ne_lower_strip {U : UnicodeData} {name key : Str} (ht : isToken name = true)
    (hlf : 10 ∈ name) (hk : isAscii key = true) : paramHeader U name ≠ U.lower (strip key) := by
  intro heq
  obtain ⟨body, hbody, hname⟩ := exists_of_isToken ht
  have hnot : 10 ∉ body := fun h => absurd (hbody 10 h) (by decide)
  obtain rfl : name = body ++ [10] := hname.resolve_left fun h => hnot (h ▸ hlf)
  rw [paramHeader_eq (isAscii_of_isToken ht), U.lower_ascii _ (isAscii_of_isToken ht),
    U.lower_ascii _ (isAscii_strip hk), List.map_append, ← List.append_assoc] at heq
  obtain ⟨t, u, hstrip, -, hu⟩ := List.map_eq_append_iff.mp heq.symm
  obtain ⟨c, rfl, hc⟩ := List.map_eq_singleton_iff.mp hu
  have hlast := isSpace_of_strip_eq hstrip
  rw [(asciiLower_eq_iff (c := 10) (by decide) c).mp (hc.trans (by decide))] at hlast
  exact absurd hlast (by decide)

/-! ## The message of a modern request -/

section Message

variable {φ : Type}

/-- The headers of a message, as the validator takes them. -/
def headerItems (headers : Dict Str Str) : List HeaderItem :=
  headers.items.map fun p => .pair (.text p.1) (.text p.2)

/-- What an annotated argument of a call may be. -/
def Renderable : Json φ → Prop
  | .null | .bool _ => True
  | .int n => n.natAbs ≤ jsSafeInt
  | .str s => isScalar s = true
  | _ => False

/-- The `inputSchema` of the tool that a payload names, in the session's manifest. -/
def calledInputSchema [PyFloat φ] (s : MCPSession φ) (payload : Dict Str (Json φ)) : Json φ :=
  match s.toolManifest.find? (isNamed (getOrNull payload (lit "name"))) with
  | some tool => tool.getOrNull (lit "inputSchema")
  | none => .null

def argumentsOf (payload : Dict Str (Json φ)) : Json φ := getOrNull payload (lit "arguments")

/-- A request that a modern session sends as it was asked to, to a validator that supports the
version of the session and knows the schema of the called tool. -/
structure ModernRequest [PyFloat φ] (U : UnicodeData) (s : MCPSession φ) (method : Str)
    (payload : Dict Str (Json φ)) (supportedVersions : List Str)
    (toolSchemas : Option (Dict Str (Json φ))) (version : Str) : Prop where
  notHandshake : method ∉ legacyHandshakeMethods
  noMeta : payload.get? (lit "_meta") = none
  requestMeta : ∃ clientInfo clientCapabilities,
    s.requestMeta = buildRequestMeta clientInfo clientCapabilities version
  supported : version ∈ supportedVersions
  name : ∀ field, nameField? method = some field →
    ∃ name, payload.get? field = some (.str name) ∧ isScalar name = true
  listed : method = lit "tools/call" →
    (s.toolManifest.find? (isNamed (getOrNull payload (lit "name")))).isSome = true
  mapped : method = lit "tools/call" → ∃ name schemas, payload.get? (lit "name") = some (.str name) ∧
    toolSchemas = some schemas ∧ schemas.get? name = some (calledInputSchema s payload)
  arguments : method = lit "tools/call" → ∃ ms, payload.get? (lit "arguments") = some (.obj ms)
  renderable : method = lit "tools/call" →
    ∀ a ∈ xMcpHeaderAnnotations U (calledInputSchema s payload),
      Renderable (argAt (argumentsOf payload) a.2)

variable {U : UnicodeData} {s : MCPSession φ} {method : Str} {payload : Dict Str (Json φ)}
  {supportedVersions : List Str} {toolSchemas : Option (Dict Str (Json φ))} {version id : Str}

/-- The parameters that the request carries. -/
def sentParams (s : MCPSession φ) (payload : Dict Str (Json φ)) : Dict Str (Json φ) :=
  payload.set (lit "_meta") (.obj s.requestMeta.items)

/-- The `Mcp-Param-*` headers that the request carries. -/
def sentParamHeaders [PyFloat φ] (U : UnicodeData) (s : MCPSession φ) (method : Str)
    (payload : Dict Str (Json φ)) : List (Str × Str) :=
  if method = lit "tools/call" then
    (xMcpHeaderAnnotations U (calledInputSchema s payload)).filterMap
      (mirrored false (argumentsOf payload))
  else []

theorem get?_sentParams {key : Str} (hk : key ≠ lit "_meta") :
    (Json.obj (sentParams s payload).items).get? key = payload.get? key := by
  show (sentParams s payload).get? key = _
  rw [sentParams, Dict.get?_set, if_neg hk]

theorem headerParamValue_false_isSome (value : Json φ) :
    (headerParamValue false value).isSome = true := by
  unfold headerParamValue
  split <;> try rfl
  split <;> rfl

theorem version_sent {clientInfo clientCapabilities : Dict Str (Json φ)}
    (h : s.requestMeta = buildRequestMeta clientInfo clientCapabilities version) :
    ((Json.obj (sentParams s payload).items).getOrNull (lit "_meta")).get? metaProtocolVersion =
      some (.str version) := by
  have hmeta : (Json.obj (sentParams s payload).items).getOrNull (lit "_meta") =
      .obj s.requestMeta.items := by
    show ((sentParams s payload).get? (lit "_meta")).getD .null = _
    rw [sentParams, Dict.get?_set, if_pos rfl]
    rfl
  rw [hmeta, h]
  show (buildRequestMeta clientInfo clientCapabilities version).get? metaProtocolVersion = _
  rw [Dict.get?_eq_some_iff, buildRequestMeta, Dict.items_ofList]
  · exact List.mem_cons_self
  · show [metaProtocolVersion, metaClientInfo, metaClientCapabilities].Nodup
    decide

/-- The routing headers that come before the mirrored arguments. -/
def routingHeaders (method : Str) (params : Json φ) (version : Str) : List (Str × Str) :=
  [(headerProtocolVersion, version), (headerMethod, method)] ++
    ((mcpNameFor method params).bind encodeHeaderValue).toList.map (headerName, ·)

theorem items_requestMetadataHeaders (params : Json φ) :
    (requestMetadataHeaders method params version).items =
      routingHeaders method params version := by
  have hbase : (Dict.ofList [(headerProtocolVersion, version), (headerMethod, method)]).items =
      [(headerProtocolVersion, version), (headerMethod, method)] := by
    refine Dict.items_ofList ?_
    show [headerProtocolVersion, headerMethod].Nodup
    decide
  unfold requestMetadataHeaders routingHeaders
  cases (mcpNameFor method params).bind encodeHeaderValue with
  | none => exact hbase
  | some name =>
    dsimp only
    rw [Dict.items_set_of_not_mem, hbase]
    · rfl
    · rw [Dict.keys, hbase]
      show headerName ∉ [headerProtocolVersion, headerMethod]
      decide

variable [PyFloat φ]

theorem body_sendRaw (h : method ∉ legacyHandshakeMethods)
    (hmeta : payload.get? (lit "_meta") = none) :
    (s.sendRaw U method payload Dict.empty id).body =
      .obj [(lit "jsonrpc", .str (lit "2.0")), (lit "id", .str id), (lit "method", .str method),
        (lit "params", .obj (sentParams s payload).items)] := by
  rw [MCPSession.sendRaw, if_neg h, withRequestMeta, hmeta]
  rfl

theorem items_paramHeaders (h : ModernRequest U s method payload supportedVersions toolSchemas version)
    (hm : method = lit "tools/call") :
    (paramHeaders U s.toolManifest payload).items = sentParamHeaders U s method payload := by
  obtain ⟨tool, htool⟩ := Option.isSome_iff_exists.mp (h.listed hm)
  have hschema : calledInputSchema s payload = tool.getOrNull (lit "inputSchema") := by
    rw [calledInputSchema, htool]
  obtain ⟨headers, hheaders⟩ := Option.isSome_iff_exists.mp (isSome_xMcpParamHeaders_iff.mpr
    fun a (_ : a ∈ xMcpHeaderAnnotations U (calledInputSchema s payload)) =>
      headerParamValue_false_isSome (argAt (argumentsOf payload) a.2))
  have hitems := items_xMcpParamHeaders hheaders
  rw [hschema] at hheaders
  rw [sentParamHeaders, if_pos hm, ← hitems, paramHeaders, htool]
  show ((xMcpParamHeaders U false (tool.getOrNull (lit "inputSchema"))
    (argumentsOf payload)).getD Dict.empty).items = _
  rw [hheaders]
  rfl

theorem exists_of_mem_sentParamHeaders {p : Str × Str}
    (h : p ∈ sentParamHeaders U s method payload) :
    method = lit "tools/call" ∧ ∃ a ∈ xMcpHeaderAnnotations U (calledInputSchema s payload),
      mirrored false (argumentsOf payload) a = some p ∧ p.1 = headerParamPrefix ++ a.1 := by
  unfold sentParamHeaders at h
  split at h
  · rename_i hm
    obtain ⟨a, ha, hp⟩ := List.mem_filterMap.mp h
    refine ⟨hm, a, ha, hp, ?_⟩
    obtain ⟨raw, -, rfl⟩ := Option.map_eq_some_iff.mp hp
    rfl
  · cases h

/-- The headers of a modern request: the routing headers, then the mirrored arguments. -/
theorem items_sendRaw (h : ModernRequest U s method payload supportedVersions toolSchemas version) :
    (s.sendRaw U method payload Dict.empty id).headers.items =
      routingHeaders method (.obj (sentParams s payload).items) version ++
        sentParamHeaders U s method payload := by
  obtain ⟨clientInfo, clientCapabilities, hmeta⟩ := h.requestMeta
  have hversion : (getOrNull (sentParams s payload) (lit "_meta")).get? metaProtocolVersion =
      some (.str version) := version_sent hmeta
  have hrouting : ∀ p ∈ routingHeaders method (.obj (sentParams s payload).items) version,
      startsWith p.1 headerParamPrefix = false := by
    intro p hp
    rcases List.mem_append.mp hp with hp | hp
    · rcases List.mem_pair.mp hp with rfl | rfl <;> rfl
    · obtain ⟨name, -, rfl⟩ := List.mem_map.mp hp
      rfl
  have hsent : (if method = lit "tools/call" then paramHeaders U s.toolManifest payload
      else Dict.empty).items = sentParamHeaders U s method payload := by
    split
    · rename_i hm
      exact items_paramHeaders h hm
    · rename_i hm
      rw [sentParamHeaders, if_neg hm]
      rfl
  rw [MCPSession.sendRaw, if_neg h.notHandshake, withRequestMeta, h.noMeta]
  show ((requestMetadataHeaders method (.obj (sentParams s payload).items)
    ((((getOrNull (sentParams s payload) (lit "_meta")).get? metaProtocolVersion).bind
      Json.asStr?).getD s.protocolVersion)).update _).items = _
  rw [hversion]
  show ((requestMetadataHeaders method (.obj (sentParams s payload).items) version).update _).items
    = _
  rw [Dict.items_update, items_requestMetadataHeaders]
  · exact congrArg _ hsent
  · intro k hk hk'
    rw [Dict.keys, items_requestMetadataHeaders] at hk'
    obtain ⟨p, hp, rfl⟩ := List.mem_map.mp hk'
    obtain ⟨q, hq, hqp⟩ := List.mem_map.mp hk
    obtain ⟨-, a, -, -, hkey⟩ := exists_of_mem_sentParamHeaders (hsent ▸ hq : q ∈ _)
    have hfalse := hrouting p hp
    rw [← hqp, hkey] at hfalse
    exact absurd (List.isPrefixOf_iff_prefix.mpr (List.prefix_append _ _))
      (Bool.eq_false_iff.mp hfalse)

/-! ## What the validator makes of it -/

/-- A pair as the validator reads it. -/
def received (U : UnicodeData) (p : Str × Str) : Str × Str := (U.lower (strip p.1), p.2)

/-- The routing headers as the validator reads them. -/
def receivedRouting (method : Str) (params : Json φ) (version : Str) : List (Str × Str) :=
  [(lit "mcp-protocol-version", version), (lit "mcp-method", method)] ++
    ((mcpNameFor method params).bind encodeHeaderValue).toList.map (lit "mcp-name", ·)

omit [PyFloat φ] in
theorem map_received_routingHeaders (U : UnicodeData) (params : Json φ) :
    (routingHeaders method params version).map (received U) =
      receivedRouting method params version := by
  have hversion : U.lower (strip headerProtocolVersion) = lit "mcp-protocol-version" :=
    lower_headerProtocolVersion U
  have hmethod : U.lower (strip headerMethod) = lit "mcp-method" := lower_headerMethod U
  have hname : U.lower (strip headerName) = lit "mcp-name" := lower_headerName U
  simp only [routingHeaders, receivedRouting, List.map_append, List.map_cons, List.map_nil,
    List.map_map, received, hversion, hmethod]
  refine congrArg _ (List.map_congr_left fun name _ => ?_)
  simp only [Function.comp_apply, received, hname]

theorem headerPairs_headerItems (U : UnicodeData) (headers : Dict Str Str) :
    headerPairs U (headerItems headers) = headers.items.map (received U) := by
  rw [headerPairs, headerItems, List.filterMap_map]
  exact congrFun List.filterMap_eq_map _

omit [PyFloat φ] in
theorem not_isParamName_of_mem_receivedRouting {params : Json φ} {p : Str × Str}
    (h : p ∈ receivedRouting method params version) : isParamName p.1 = false := by
  rcases List.mem_append.mp h with h | h
  · rcases List.mem_pair.mp h with rfl | rfl <;> rfl
  · obtain ⟨name, -, rfl⟩ := List.mem_map.mp h
    rfl

omit [PyFloat φ] in
/-- An argument that the client can render has the header that the validator expects. -/
theorem Renderable.strict {value : Json φ} (h : Renderable value) :
    (headerParamValue true value = some none ∧ value.isNull = true) ∨
      ∃ raw, headerParamValue true value = some (some raw) ∧
        headerParamValue false value = some (some raw) := by
  cases value with
  | null => exact Or.inl ⟨rfl, rfl⟩
  | bool b => exact Or.inr ⟨_, rfl, rfl⟩
  | int n =>
    have hn : ¬ jsSafeInt < n.natAbs := not_lt_of_ge h
    exact Or.inr ⟨intText n, by rw [headerParamValue, if_neg hn], by rw [headerParamValue, if_neg hn]⟩
  | str t =>
    obtain ⟨raw, hraw⟩ := exists_encodeHeaderValue h
    exact Or.inr ⟨raw, by rw [headerParamValue, hraw], by rw [headerParamValue, hraw]⟩
  | float x => exact h.elim
  | nan => exact h.elim
  | arr js => exact h.elim
  | obj ms => exact h.elim

/-- The mirrored arguments stand under names that the validator reads as they were sent. -/
def SafeHeaders (U : UnicodeData) (s : MCPSession φ) (method : Str) (payload : Dict Str (Json φ)) :
    Prop :=
  method = lit "tools/call" → ∀ a ∈ xMcpHeaderAnnotations U (calledInputSchema s payload),
    (argAt (argumentsOf payload) a.2).isNull = false → HeaderSafe a.1

theorem headerPairs_sendRaw
    (h : ModernRequest U s method payload supportedVersions toolSchemas version) :
    headerPairs U (headerItems (s.sendRaw U method payload Dict.empty id).headers) =
      receivedRouting method (.obj (sentParams s payload).items) version ++
        (sentParamHeaders U s method payload).map (received U) := by
  rw [headerPairs_headerItems, items_sendRaw h, List.map_append, map_received_routingHeaders]

theorem calledSchema_sent
    (h : ModernRequest U s method payload supportedVersions toolSchemas version)
    (hm : method = lit "tools/call") :
    calledSchema toolSchemas method (.obj (sentParams s payload).items) =
      some (calledInputSchema s payload) := by
  obtain ⟨name, schemas, hname, rfl, hget⟩ := h.mapped hm
  rw [calledSchema, if_pos hm, Option.bind_some, get?_sentParams (by decide), hname]
  exact hget

omit [PyFloat φ] in
theorem arguments_sent : (Json.obj (sentParams s payload).items).getOrNull (lit "arguments") =
    argumentsOf payload := by
  have hne : lit "arguments" ≠ lit "_meta" := by decide
  show ((Json.obj (sentParams s payload).items).get? (lit "arguments")).getD .null = _
  rw [get?_sentParams hne]
  rfl

theorem isAscii_of_mem_items_sendRaw
    (h : ModernRequest U s method payload supportedVersions toolSchemas version) {p : Str × Str}
    (hp : p ∈ (s.sendRaw U method payload Dict.empty id).headers.items) : isAscii p.1 = true := by
  rw [items_sendRaw h] at hp
  rcases List.mem_append.mp hp with hp | hp
  · rcases List.mem_append.mp hp with hp | hp
    · rcases List.mem_pair.mp hp with rfl | rfl <;> rfl
    · obtain ⟨name, -, rfl⟩ := List.mem_map.mp hp
      rfl
  · obtain ⟨-, a, ha, -, hkey⟩ := exists_of_mem_sentParamHeaders hp
    rw [hkey, isAscii_append, (mem_xMcpHeaderAnnotations ha).2.1]
    rfl

/-- A request that is accepted mirrors its arguments under safe names. -/
theorem safeHeaders_of_accepted
    (h : ModernRequest U s method payload supportedVersions toolSchemas version)
    (hwf : ∀ item ∈ headerItems (s.sendRaw U method payload Dict.empty id).headers,
      WellFormed U item)
    (hagree : Agrees U (headerPairs U
        (headerItems (s.sendRaw U method payload Dict.empty id).headers))
      supportedVersions toolSchemas method (.obj (sentParams s payload).items) version) :
    SafeHeaders U s method payload := by
  intro hm a ha hnull
  have htoken := (mem_xMcpHeaderAnnotations ha).1
  have hparams := hagree.headerParams
  rw [ParamsAgree, calledSchema_sent h hm, arguments_sent] at hparams
  have hlf : 10 ∉ a.1 := by
    intro hlf
    obtain ⟨p, hp, hname⟩ := (hparams.2 a ha).exists_header hnull
    rw [headerPairs_headerItems] at hp
    obtain ⟨q, hq, rfl⟩ := List.mem_map.mp hp
    exact paramHeader_ne_lower_strip htoken hlf (isAscii_of_mem_items_sendRaw h hq) hname.symm
  refine ⟨fun hus => ?_, hlf⟩
  rcases (h.renderable hm a ha).strict with ⟨-, hv⟩ | ⟨raw, -, hraw⟩
  · rw [hv] at hnull; cases hnull
  · have hp : (headerParamPrefix ++ a.1, raw) ∈
        (s.sendRaw U method payload Dict.empty id).headers.items := by
      rw [items_sendRaw h]
      refine List.mem_append_right _ ?_
      rw [sentParamHeaders, if_pos hm]
      exact List.mem_filterMap.mpr ⟨a, ha, by rw [mirrored, hraw]; rfl⟩
    obtain ⟨p, hp, halias⟩ := hwf _ (List.mem_map.mpr ⟨_, hp, rfl⟩)
    cases hp
    have hname := lower_strip_paramPrefix (U := U) htoken hlf
    dsimp only at halias
    rw [hname, isRoutingAlias_paramHeader htoken, decide_eq_false_iff_not] at halias
    exact halias hus

/-- The mirrored arguments as the validator reads them, under safe names. -/
theorem map_received_sentParamHeaders (hsafe : SafeHeaders U s method payload) :
    (sentParamHeaders U s method payload).map (received U) =
      if method = lit "tools/call" then
        (xMcpHeaderAnnotations U (calledInputSchema s payload)).filterMap fun a =>
          (headerParamValue false (argAt (argumentsOf payload) a.2)).join.map
            (paramHeader U a.1, ·)
      else [] := by
  unfold sentParamHeaders
  split
  · rename_i hm
    rw [List.map_filterMap]
    refine List.filterMap_congr fun a ha => ?_
    rw [mirrored, Option.map_map]
    cases hv : headerParamValue false (argAt (argumentsOf payload) a.2) with
    | none => rfl
    | some encoded =>
      cases encoded with
      | none => rfl
      | some raw =>
        have hnull : (argAt (argumentsOf payload) a.2).isNull = false := by
          cases hn : argAt (argumentsOf payload) a.2 <;> rw [hn] at hv <;> first | rfl | cases hv
        have hname := lower_strip_paramPrefix (U := U) (mem_xMcpHeaderAnnotations ha).1
          (hsafe hm a ha hnull).2
        show some (U.lower (strip (headerParamPrefix ++ a.1)), raw) = _
        rw [hname]
        rfl
  · rfl

theorem exists_of_mem_map_received (hsafe : SafeHeaders U s method payload) {p : Str × Str}
    (h : p ∈ (sentParamHeaders U s method payload).map (received U)) :
    method = lit "tools/call" ∧ ∃ a ∈ xMcpHeaderAnnotations U (calledInputSchema s payload),
      p.1 = paramHeader U a.1 ∧ HeaderSafe a.1 := by
  rw [map_received_sentParamHeaders hsafe] at h
  split at h
  · rename_i hm
    obtain ⟨a, ha, hp⟩ := List.mem_filterMap.mp h
    obtain ⟨raw, hraw, rfl⟩ := Option.map_eq_some_iff.mp hp
    have hnull : (argAt (argumentsOf payload) a.2).isNull = false := by
      cases hn : argAt (argumentsOf payload) a.2 <;> rw [hn] at hraw <;> first | rfl | cases hraw
    exact ⟨hm, a, ha, rfl, hsafe hm a ha hnull⟩
  · cases h

theorem isParamName_paramHeader {name : Str} (h : isAscii name = true) :
    isParamName (paramHeader U name) = true := by
  rw [paramHeader_eq h]
  exact List.isPrefixOf_iff_prefix.mpr (List.prefix_append _ _)

theorem wellFormed_sent
    (h : ModernRequest U s method payload supportedVersions toolSchemas version)
    (hsafe : SafeHeaders U s method payload) :
    ∀ item ∈ headerItems (s.sendRaw U method payload Dict.empty id).headers,
      WellFormed U item := by
  intro item hitem
  obtain ⟨p, hp, rfl⟩ := List.mem_map.mp hitem
  refine ⟨received U p, rfl, ?_⟩
  rw [items_sendRaw h] at hp
  have hp := List.mem_map_of_mem (f := received U) hp
  rw [List.map_append, map_received_routingHeaders] at hp
  rcases List.mem_append.mp hp with hp | hp
  · rcases List.mem_append.mp hp with hp | hp
    · rcases List.mem_pair.mp hp with hp | hp <;> rw [hp] <;> rfl
    · obtain ⟨name, -, hp⟩ := List.mem_map.mp hp
      rw [← hp]
      rfl
  · obtain ⟨-, a, ha, hname, hs⟩ := exists_of_mem_map_received hsafe hp
    rw [hname, isRoutingAlias_paramHeader (mem_xMcpHeaderAnnotations ha).1]
    exact decide_eq_false hs.1

theorem paramsAgree_sent
    (h : ModernRequest U s method payload supportedVersions toolSchemas version)
    (hsafe : SafeHeaders U s method payload) :
    ParamsAgree U (receivedRouting method (.obj (sentParams s payload).items) version ++
        (sentParamHeaders U s method payload).map (received U))
      toolSchemas method (.obj (sentParams s payload).items) := by
  unfold ParamsAgree
  by_cases hm : method = lit "tools/call"
  · rw [calledSchema_sent h hm, arguments_sent]
    refine ⟨fun p hp hprefix => ?_, fun a ha => ?_⟩
    · rcases List.mem_append.mp hp with hp | hp
      · rw [not_isParamName_of_mem_receivedRouting hp] at hprefix
        cases hprefix
      · obtain ⟨-, a, ha, hname, -⟩ := exists_of_mem_map_received hsafe hp
        exact ⟨a, ha, hname.symm⟩
    · have hascii := (mem_xMcpHeaderAnnotations ha).2.1
      have hvalues : valuesOf (receivedRouting method (.obj (sentParams s payload).items) version ++
          (sentParamHeaders U s method payload).map (received U)) (paramHeader U a.1) =
          (headerParamValue false (argAt (argumentsOf payload) a.2)).join.toList := by
        rw [valuesOf_append, map_received_sentParamHeaders hsafe, if_pos hm,
          valuesOf_filterMap (nodup_paramHeader U _) ha]
        refine (congrArg (· ++ _) (valuesOf_eq_nil_iff.mpr fun p hp heq => ?_)).trans
          (List.nil_append _)
        have hfalse := not_isParamName_of_mem_receivedRouting hp
        rw [heq, isParamName_paramHeader hascii] at hfalse
        cases hfalse
      unfold ParamAgrees
      rw [hvalues]
      rcases (h.renderable hm a ha).strict with ⟨hv, hnull⟩ | ⟨raw, hv, hraw⟩
      · have hvalue : argAt (argumentsOf payload) a.2 = .null := by
          cases hn : argAt (argumentsOf payload) a.2 <;> rw [hn] at hnull <;>
            first | rfl | cases hnull
        rw [hvalue]
        exact ⟨rfl, rfl⟩
      · rw [hv, hraw]
        rfl
  · rw [calledSchema, if_neg hm, sentParamHeaders, if_neg hm]
    refine ⟨fun h => absurd h hm, fun p hp => ?_⟩
    rw [List.map_nil, List.append_nil] at hp
    exact not_isParamName_of_mem_receivedRouting hp

theorem agrees_sent
    (h : ModernRequest U s method payload supportedVersions toolSchemas version)
    (hsafe : SafeHeaders U s method payload) :
    Agrees U (headerPairs U (headerItems (s.sendRaw U method payload Dict.empty id).headers))
      supportedVersions toolSchemas method (.obj (sentParams s payload).items) version := by
  obtain ⟨clientInfo, clientCapabilities, hmeta⟩ := h.requestMeta
  rw [headerPairs_sendRaw h]
  have hrouting : ∀ {name}, isParamName name = false →
      valuesOf (receivedRouting method (.obj (sentParams s payload).items) version ++
        (sentParamHeaders U s method payload).map (received U)) name =
      valuesOf (receivedRouting method (.obj (sentParams s payload).items) version) name := by
    intro name hname
    rw [valuesOf_append]
    refine (congrArg _ (valuesOf_eq_nil_iff.mpr fun p hp heq => ?_)).trans (List.append_nil _)
    obtain ⟨-, a, ha, hp, -⟩ := exists_of_mem_map_received hsafe hp
    rw [← heq, hp, isParamName_paramHeader (mem_xMcpHeaderAnnotations ha).2.1] at hname
    cases hname
  refine ⟨version_sent hmeta, ?_, h.supported, ?_, ?_, ?_⟩
  · rw [hrouting rfl]
    unfold receivedRouting
    cases (mcpNameFor method (Json.obj (sentParams s payload).items)).bind encodeHeaderValue <;> rfl
  · rw [hrouting rfl]
    unfold receivedRouting
    cases (mcpNameFor method (Json.obj (sentParams s payload).items)).bind encodeHeaderValue <;> rfl
  · unfold NameAgrees
    rw [hrouting rfl, receivedRouting]
    cases hf : nameField? method with
    | none =>
      have hnone : mcpNameFor method (Json.obj (sentParams s payload).items) = none := by
        rw [mcpNameFor, hf]
        rfl
      rw [hnone]
      rfl
    | some field =>
      obtain ⟨name, hname, hscalar⟩ := h.name field hf
      obtain ⟨raw, hraw⟩ := exists_encodeHeaderValue hscalar
      have hfield : field ≠ lit "_meta" := by
        rintro rfl
        rw [h.noMeta] at hname
        cases hname
      have hget : (Json.obj (sentParams s payload).items).get? field = some (.str name) :=
        (get?_sentParams hfield).trans hname
      rw [(mcpNameFor_eq_some_iff hf).mpr hget, Option.bind_some, hraw]
      exact ⟨name, raw, hget, hraw, rfl⟩
  · exact paramsAgree_sent h hsafe

/-- The validator accepts what a modern session sends exactly when the mirrored arguments stand
under safe names. -/
theorem accepts_sent_iff
    (h : ModernRequest U s method payload supportedVersions toolSchemas version) :
    validateRequestMetadata U
        (.pairs (headerItems (s.sendRaw U method payload Dict.empty id).headers))
        (s.sendRaw U method payload Dict.empty id).body supportedVersions toolSchemas false =
      .ok version ↔ SafeHeaders U s method payload := by
  rw [validateRequestMetadata_eq_ok_iff, body_sendRaw h.notHandshake h.noMeta]
  constructor
  · rintro ⟨hwf, method', hmethod, hagree⟩
    cases hmethod
    exact safeHeaders_of_accepted h hwf hagree
  · intro hsafe
    exact ⟨wellFormed_sent h hsafe, method, rfl, agrees_sent h hsafe⟩

end Message

/-! ## A tool with one annotated argument -/

/-- A tool whose argument `r` is mirrored under the name `ann`. -/
def regionTool (ann : Str) : Json WholeFloat :=
  .obj [(lit "name", .str (lit "t")), (lit "inputSchema", .obj [(lit "properties", .obj [(lit "r",
    .obj [(lit "type", .str (lit "string")), (lit "x-mcp-header", .str ann)])])])]

def regionSession (ann : Str) : MCPSession WholeFloat where
  toolManifest := [regionTool ann]
  requestMeta := buildRequestMeta Dict.empty Dict.empty modernProtocolVersion
  protocolVersion := modernProtocolVersion

def regionPayload : Dict Str (Json WholeFloat) :=
  Dict.ofList [(lit "name", .str (lit "t")), (lit "arguments", .obj [(lit "r", .str (lit "eu"))])]

def regionSchemas (ann : Str) : Option (Dict Str (Json WholeFloat)) :=
  some (Dict.ofList [(lit "t", (regionTool ann).getOrNull (lit "inputSchema"))])

theorem modernRequest_region {ann : Str}
    (h : xMcpHeaderAnnotations .ascii (calledInputSchema (regionSession ann) regionPayload) =
      [(ann, [lit "r"])]) :
    ModernRequest .ascii (regionSession ann) (lit "tools/call") regionPayload modernVersions
      (regionSchemas ann) modernProtocolVersion where
  notHandshake := by decide
  noMeta := rfl
  requestMeta := ⟨_, _, rfl⟩
  supported := List.mem_cons_self
  name field hf := by
    cases hf
    exact ⟨lit "t", rfl, rfl⟩
  listed _ := rfl
  mapped _ := ⟨lit "t", _, rfl, rfl, rfl⟩
  arguments _ := ⟨_, rfl⟩
  renderable _ a ha := by
    rw [h] at ha
    rw [List.mem_singleton.mp ha]
    rfl

theorem accepts_sent_iff_region : validateRequestMetadata .ascii (.pairs (headerItems
      ((regionSession (lit "Region")).sendRaw .ascii (lit "tools/call") regionPayload Dict.empty
        (lit "1")).headers))
    ((regionSession (lit "Region")).sendRaw .ascii (lit "tools/call") regionPayload Dict.empty
      (lit "1")).body modernVersions (regionSchemas (lit "Region")) false =
      .ok modernProtocolVersion ↔
    SafeHeaders .ascii (regionSession (lit "Region")) (lit "tools/call") regionPayload := by
  apply accepts_sent_iff
  apply modernRequest_region
  decide +kernel

/-- The client's own request is rejected where the name of an annotation has an underscore. -/
theorem underscore_rejected :
    ModernRequest .ascii (regionSession (lit "my_region")) (lit "tools/call") regionPayload
        modernVersions (regionSchemas (lit "my_region")) modernProtocolVersion ∧
      validateRequestMetadata .ascii (.pairs (headerItems
          ((regionSession (lit "my_region")).sendRaw .ascii (lit "tools/call") regionPayload
            Dict.empty (lit "1")).headers))
        ((regionSession (lit "my_region")).sendRaw .ascii (lit "tools/call") regionPayload
          Dict.empty (lit "1")).body modernVersions (regionSchemas (lit "my_region")) false ≠
        .ok modernProtocolVersion := by
  constructor
  · apply modernRequest_region
    decide +kernel
  · decide +kernel

end CosaiMcp.Session
