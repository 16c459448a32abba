import CosaiMcp.Py.JsonSame
import CosaiMcp.Scorecard.Signing

/-!
# The fingerprint of a request

`request_fingerprint` of `middleware/state.py`: the method, and the SHA-256 of the parameters a
retry repeats, as canonical JSON. SHA-256 is a parameter. If it is injective, requests have one
fingerprint just when their methods are equal, and so are their parameters as JSON
(`requestFingerprint_eq_iff`).
-/

namespace CosaiMcp.Middleware.State

open Py
open Scorecard (hexOf fromHex fromHex_hexOf)

variable {φ : Type} [FloatText φ]

/-- The members in which a retry differs from the original request. -/
def retryMembers : List Str := [lit "requestState", lit "inputResponses", lit "_meta"]

def salient (params : List (Str × Json φ)) : List (Str × Json φ) :=
  params.filter fun m => m.1 ∉ retryMembers

mutual

/-- `json.dumps` with `allow_nan=False` does not raise: the text of every float is a number. -/
def allowed : Json φ → Bool
  | .float x => FloatText.repr x != lit "Infinity" && FloatText.repr x != lit "-Infinity"
  | .nan => false
  | .arr js => allowedItems js
  | .obj ms => allowedMembers ms
  | .null | .bool _ | .int _ | .str _ => true

def allowedItems : List (Json φ) → Bool
  | [] => true
  | j :: js => allowed j && allowedItems js

def allowedMembers : List (Str × Json φ) → Bool
  | [] => true
  | (_, v) :: ms => allowed v && allowedMembers ms

end

/-- `request_fingerprint`; `none` is `ValueError`. -/
def requestFingerprint (sha256 : Bytes → Bytes) (method : Str) (params : List (Str × Json φ)) :
    Option Str :=
  let body : Json φ := .obj (salient params)
  if allowed body then some (method ++ 58 :: hexOf (sha256 (asciiBytes body.canonical))) else none

/-! ## What the digest is taken of -/

omit [FloatText φ] in
theorem stable_salient {params : List (Str × Json φ)} (h : (Json.obj params).isPlain = true) :
    (Json.obj (salient params)).Stable := by
  obtain ⟨hkeys, hmembers⟩ := Json.stable_of_isPlain h
  refine ⟨hkeys.sublist (List.filter_sublist.map Prod.fst), ?_⟩
  exact Json.stableMembers_iff.mpr fun m hm =>
    Json.stableMembers_iff.mp hmembers m (List.mem_of_mem_filter hm)

theorem allowedMembers_iff {ms : List (Str × Json φ)} :
    allowedMembers ms = true ↔ ∀ m ∈ ms, allowed m.2 = true := by
  induction ms with
  | nil => simp [allowedMembers]
  | cons m ms ih => rw [allowedMembers, Bool.and_eq_true, ih, List.forall_mem_cons]

theorem allowed_salient {params : List (Str × Json φ)} (h : allowed (.obj params) = true) :
    allowed (.obj (salient params)) = true :=
  allowedMembers_iff.mpr fun m hm => allowedMembers_iff.mp h m (List.mem_of_mem_filter hm)

theorem asciiBytes_inj {s t : Str} (hs : isAscii s = true) (ht : isAscii t = true)
    (h : asciiBytes s = asciiBytes t) : s = t :=
  encodeUtf8_inj (encodeUtf8_of_isAscii hs)
    ((encodeUtf8_of_isAscii ht).trans (congrArg some h.symm))

theorem hexOf_injective : Function.Injective hexOf := by
  intro b c h
  have hread := congrArg fromHex h
  rw [fromHex_hexOf, fromHex_hexOf] at hread
  exact Option.some.inj hread

theorem colon_notMem_hexOf (b : Bytes) : 58 ∉ hexOf b := by
  have hdigits : ∀ x : Fin 16, hexDigit x.val ≠ 58 := by decide
  intro h
  obtain ⟨x, -, hx⟩ := List.mem_flatMap.mp h
  rcases List.mem_pair.mp hx with h | h
  · exact hdigits ⟨x.val / 16, by omega⟩ h.symm
  · exact hdigits ⟨x.val % 16, by omega⟩ h.symm

/-- A text is taken apart at its last colon. -/
theorem append_colon_inj {x y s t : Str} (hs : 58 ∉ s) (ht : 58 ∉ t)
    (h : x ++ 58 :: s = y ++ 58 :: t) : x = y ∧ s = t := by
  rcases List.append_eq_append_iff.mp h with ⟨r, hy, hr⟩ | ⟨r, hx, hr⟩
  · cases r with
    | nil => exact ⟨by rw [hy, List.append_nil], (List.cons.inj hr).2⟩
    | cons c r =>
      have hmem : 58 ∈ s := by
        rw [(List.cons.inj hr).2]
        exact List.mem_append_right _ List.mem_cons_self
      exact absurd hmem hs
  · cases r with
    | nil => exact ⟨by rw [hx, List.append_nil], (List.cons.inj hr).2.symm⟩
    | cons c r =>
      have hmem : 58 ∈ t := by
        rw [(List.cons.inj hr).2]
        exact List.mem_append_right _ List.mem_cons_self
      exact absurd hmem ht

/-- The fingerprint separates requests: by their methods, and by their parameters as JSON but for
the members in which a retry differs. -/
theorem requestFingerprint_eq_iff {sha256 : Bytes → Bytes} (hinj : Function.Injective sha256)
    {method method' : Str} {params params' : List (Str × Json φ)}
    (hplain : (Json.obj params).isPlain = true) (hplain' : (Json.obj params').isPlain = true)
    (hfinite : allowed (.obj params) = true) (hfinite' : allowed (.obj params') = true) :
    ∃ fp fp', requestFingerprint sha256 method params = some fp ∧
      requestFingerprint sha256 method' params' = some fp' ∧
      (fp = fp' ↔ method = method' ∧
        (Json.obj (salient params)).Same (.obj (salient params'))) := by
  refine ⟨_, _, if_pos (allowed_salient hfinite), if_pos (allowed_salient hfinite'), ?_⟩
  rw [← Json.canonical_eq_iff (stable_salient hplain) (stable_salient hplain')]
  constructor
  · intro h
    obtain ⟨hmethod, hdigest⟩ :=
      append_colon_inj (colon_notMem_hexOf _) (colon_notMem_hexOf _) h
    have hbytes := hinj (hexOf_injective hdigest)
    exact ⟨hmethod, asciiBytes_inj (isAscii_canonical _) (isAscii_canonical _) hbytes⟩
  · rintro ⟨rfl, hbody⟩
    rw [hbody]

/-- A request, and its retry with the keys in another order and an answer to the server. -/
theorem retry_fingerprint :
    ∃ fp fp', requestFingerprint (φ := WholeFloat) id (lit "tools/call")
        [(lit "name", .str (lit "run")), (lit "arguments", .obj [])] = some fp ∧
      requestFingerprint (φ := WholeFloat) id (lit "tools/call")
        [(lit "arguments", .obj []), (lit "requestState", .str (lit "v1")),
          (lit "name", .str (lit "run"))] = some fp' ∧
      (fp = fp' ↔ lit "tools/call" = lit "tools/call" ∧
        (Json.obj (salient (φ := WholeFloat)
          [(lit "name", .str (lit "run")), (lit "arguments", .obj [])])).Same
        (.obj (salient [(lit "arguments", .obj []), (lit "requestState", .str (lit "v1")),
          (lit "name", .str (lit "run"))]))) :=
  requestFingerprint_eq_iff Function.injective_id (by decide) (by decide) (by decide) (by decide)

end CosaiMcp.Middleware.State
