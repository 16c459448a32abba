import CosaiMcp.Py.Except
import CosaiMcp.Py.Url
import CosaiMcp.Catalog.TemplateExpansion
import CosaiMcp.Transport.Network

/-!
# The check of adversarial probes

Before a probe runs, `checkNoExternalEndpoints` goes through every string value of its definition
and refuses URLs of other hosts, and of addresses that lead back to the machine itself
(`rejectIfExternalUrl_of_nested`, `of_rejectIfExternalUrl`). Template variables are not expanded yet
when it does.
-/

namespace CosaiMcp.Adversarial

open Py Transport Catalog

variable {φ : Type}

/-- `UnsafeProbeError`. -/
inductive UnsafeProbeError (φ : Type) where
  | stateful (probeId : Json φ)
  | blockedAddress (host : Str)
  | externalUrl (host targetHost : Str)

/-- `_ALWAYS_BLOCKED_NETWORKS`. -/
def alwaysBlockedNetworks : List Block :=
  [.v4 ⟨0x7f000000, 8, no_host_bits_loopback4⟩, .v6 ⟨1, 128, no_host_bits_loopback6⟩,
    .v4 ⟨0, 32, no_host_bits_unspecified4⟩, .v4 ⟨0xa9fe0000, 16, no_host_bits_linkLocal4⟩]

def isBlockedAddress (host : Str) : Bool :=
  match ipAddress host with
  | some addr => alwaysBlockedNetworks.any (·.contains addr)
  | none => false

section

variable (D : UrlData)

/-- The host in lower case; empty where `urlparse` raises. -/
def targetHostOf (targetUrl : Str) : Str :=
  match Url.hostOf D targetUrl with
  | some host => D.lower host
  | none => []

/-- Whether `s.lower().strip()` starts with `http://` or `https://`. No letter outside ASCII has one
of their letters as its lower case. -/
def isHttpUrl (s : Str) : Bool :=
  let lower := strip (s.map asciiLower)
  startsWith lower (lit "http://") || startsWith lower (lit "https://")

def rejectIfExternalUrl (s targetHost : Str) : Except (UnsafeProbeError φ) Unit :=
  if !isHttpUrl s then .ok ()
  else
    match Url.hostOf D s with
    | none => .ok ()
    | some host =>
      let host := D.lower host
      if host = [] then .ok ()
      else if isBlockedAddress host then .error (.blockedAddress host)
      else if host ≠ targetHost then .error (.externalUrl host targetHost)
      else .ok ()

mutual

/-- `_check_dict_for_external_urls`. -/
def checkDictForExternalUrls (targetHost : Str) : Json φ → Except (UnsafeProbeError φ) Unit
  | .str s => rejectIfExternalUrl D s targetHost
  | .obj ms => checkMembers targetHost ms
  | .arr js => checkItems targetHost js
  | .null => .ok ()
  | .bool _ => .ok ()
  | .int _ => .ok ()
  | .float _ => .ok ()
  | .nan => .ok ()

def checkItems (targetHost : Str) : List (Json φ) → Except (UnsafeProbeError φ) Unit
  | [] => .ok ()
  | j :: js => do
    checkDictForExternalUrls targetHost j
    checkItems targetHost js

def checkMembers (targetHost : Str) : List (Str × Json φ) → Except (UnsafeProbeError φ) Unit
  | [] => .ok ()
  | (_, v) :: ms => do
    checkDictForExternalUrls targetHost v
    checkMembers targetHost ms

end

def checkNoExternalEndpoints (probe : List (Str × Json φ)) (targetUrl : Str)
    (allowStateful : Bool) : Except (UnsafeProbeError φ) Unit := do
  let targetHost := targetHostOf D targetUrl
  let mode := ((Json.obj probe).get? (lit "mode")).getD (.str (lit "read-only"))
  if mode.asStr? = some (lit "stateful") ∧ !allowStateful then
    throw (.stateful (((Json.obj probe).get? (lit "id")).getD (.str (lit "<unknown>"))))
  checkDictForExternalUrls D targetHost (.obj probe)

end

/-! ## What is accepted -/

section

variable {D : UrlData} {targetHost : Str}

theorem isHttpUrl_iff (s : Str) :
    isHttpUrl s = true ↔ (Url.afterScheme (strip s)).isSome = true := by
  rw [Url.afterScheme_isSome_iff, isHttpUrl, Bool.or_eq_true, Url.strip_lower]
  simp only [startsWith, List.isPrefixOf_iff_prefix, Url.httpSchemes, List.mem_cons,
    List.not_mem_nil, or_false, exists_eq_or_imp, exists_eq_left]

/-- A URL that passes the check has no host, or that of the target and none of the blocked
addresses. -/
theorem of_rejectIfExternalUrl {s : Str}
    (h : rejectIfExternalUrl (φ := φ) D s targetHost = .ok ()) (hurl : isHttpUrl s = true)
    {host : Str}
    (hhost : Url.hostOf D s = some host) (hne : D.lower host ≠ []) :
    D.lower host = targetHost ∧ isBlockedAddress (D.lower host) = false := by
  unfold rejectIfExternalUrl at h
  simp only [hurl, hhost, hne, Bool.not_true, Bool.false_eq_true, ↓reduceIte] at h
  split at h
  · cases h
  next hblocked =>
  split at h
  · cases h
  next heq => exact ⟨not_not.mp heq, by simpa using hblocked⟩

theorem forall_of_checkItems {js : List (Json φ)} (h : checkItems D targetHost js = .ok ()) :
    ∀ j ∈ js, checkDictForExternalUrls D targetHost j = .ok () := by
  induction js with
  | nil => nofun
  | cons j js ih =>
    rw [checkItems] at h
    obtain ⟨_, hj, h⟩ := bind_eq_ok_iff.mp h
    exact List.forall_mem_cons.mpr ⟨hj, ih h⟩

theorem forall_of_checkMembers {ms : List (Str × Json φ)}
    (h : checkMembers D targetHost ms = .ok ()) :
    ∀ m ∈ ms, checkDictForExternalUrls D targetHost m.2 = .ok () := by
  induction ms with
  | nil => nofun
  | cons m ms ih =>
    rw [checkMembers] at h
    obtain ⟨_, hm, h⟩ := bind_eq_ok_iff.mp h
    exact List.forall_mem_cons.mpr ⟨hm, ih h⟩

/-- The walk leaves no string value out. -/
theorem rejectIfExternalUrl_of_nested {s : Str} {j : Json φ} (hs : Nested (.str s) j)
    (h : checkDictForExternalUrls D targetHost j = .ok ()) :
    rejectIfExternalUrl (φ := φ) D s targetHost = .ok () := by
  induction hs with
  | self => exact h
  | item hmem _ ih => exact ih (forall_of_checkItems h _ hmem)
  | member hmem _ ih => exact ih (forall_of_checkMembers h _ hmem)

theorem check_of_checkNoExternalEndpoints {probe : List (Str × Json φ)} {targetUrl : Str}
    {allowStateful : Bool} (h : checkNoExternalEndpoints D probe targetUrl allowStateful = .ok ()) :
    checkDictForExternalUrls D (targetHostOf D targetUrl) (.obj probe) = .ok () := by
  unfold checkNoExternalEndpoints at h
  dsimp only at h
  split at h
  · cases h
  · exact h

end

end CosaiMcp.Adversarial
