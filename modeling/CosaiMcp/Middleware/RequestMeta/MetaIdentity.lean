import CosaiMcp.Middleware.Boundary.Detector
import CosaiMcp.Middleware.RequestMeta.Reconcile
import CosaiMcp.Py.Percent

/-!
# Keys that name an identity

The predicates of `meta_identity.py` on a key: the names that it could denote, whether one of its
words is an identity word, and `isIdentityKey`. Words are told apart by separators and by capitals,
so that a key and its lower-case spelling may differ.
-/

namespace CosaiMcp.Middleware.RequestMeta

open Py Percent
open Middleware.Boundary (isAlphanumeric)

/-- What `meta_identity.py` takes from the Unicode database. -/
structure NameData extends UnicodeData where
  casefold : Str → Str
  /-- `unicodedata.normalize("NFKC", s)`. -/
  nfkc : Str → Str
  /-- `unicodedata.normalize("NFKD", s)`. -/
  nfkd : Str → Str
  /-- The category of the character is one of `_INVISIBLE_CATEGORIES`. -/
  isInvisible : CodePoint → Bool
  /-- `c.isalnum()`: the characters that `\w` takes, but for the underscore. -/
  isAlnum : CodePoint → Bool
  casefold_ascii : ∀ s, isAscii s = true → casefold s = s.map asciiLower
  nfkc_ascii : ∀ s, isAscii s = true → nfkc s = s
  nfkd_ascii : ∀ s, isAscii s = true → nfkd s = s
  isInvisible_ascii : ∀ c : CodePoint, c.val < 0x80 →
    isInvisible c = (decide (c.val < 32) || decide (c.val = 127))
  isAlnum_ascii : ∀ c : CodePoint, c.val < 0x80 → isAlnum c = isAlphanumeric c

/-- The behaviour on ASCII text. -/
def NameData.ascii : NameData where
  toUnicodeData := .ascii
  casefold s := s.map asciiLower
  nfkc := id
  nfkd := id
  isInvisible c := decide (c.val < 32) || decide (c.val = 127)
  isAlnum := isAlphanumeric
  casefold_ascii := UnicodeData.ascii.lower_ascii
  nfkc_ascii _ _ := rfl
  nfkd_ascii _ _ := rfl
  isInvisible_ascii _ _ := rfl
  isAlnum_ascii _ _ := rfl

/-! ## Words -/

def identityTokens : List Str :=
  [lit "tenant", lit "tenants", lit "org", lit "orgs", lit "organization", lit "organisation",
    lit "user", lit "users", lit "username", lit "subject", lit "sub", lit "principal", lit "role",
    lit "roles", lit "scope", lit "scopes", lit "admin", lit "email", lit "owner", lit "account",
    lit "actor", lit "acting", lit "impersonate", lit "impersonation", lit "delegate",
    lit "delegated", lit "delegation", lit "sudo", lit "uid", lit "enduser", lit "identity",
    lit "customer", lit "workspace", lit "permission", lit "permissions", lit "entitlement",
    lit "entitlements", lit "superuser", lit "realm", lit "team", lit "teams", lit "project",
    lit "projects", lit "group", lit "groups", lit "caller", lit "authorities", lit "authority",
    lit "elevated", lit "runas", lit "actas", lit "actingas", lit "azp", lit "scp", lit "tid",
    lit "oid", lit "upn", lit "wids", lit "appid", lit "cid", lit "idp", lit "sid",
    lit "nickname", lit "iss", lit "aud"]

def tokenExemptWords : List Str := [lit "root", lit "client", lit "act", lit "id", lit "login"]

/-- `_AFFIX_TOKENS`. -/
def affixTokens : List Str := identityTokens.filter (4 ≤ ·.length)

def affixQualifiers : List Str :=
  [lit "id", lit "ids", lit "uid", lit "uuid", lit "guid", lit "name", lit "names", lit "role",
    lit "roles", lit "handle", lit "email", lit "mail", lit "slug", lit "key", lit "mode",
    lit "type", lit "info", lit "scope", lit "scopes", lit "level", lit "list", lit "ref",
    lit "code", lit "num", lit "number", lit "claim", lit "claims", lit "context", lit "ctx",
    lit "override"]

def affixPrefixes : List Str :=
  [lit "is", lit "super", lit "end", lit "run", lit "runas", lit "act", lit "actas", lit "acting",
    lit "as", lit "my", lit "current", lit "effective", lit "delegated", lit "impersonated",
    lit "on", lit "for", lit "target", lit "real"]

/-- An identity word with a known qualifier, or behind a known prefix. -/
def isCompound (t : Str) : Bool :=
  affixTokens.any fun w =>
    (startsWith t w && t.drop w.length ∈ affixQualifiers) ||
      (endsWith t w && t.take (t.length - w.length) ∈ affixPrefixes)

/-! ## Keys -/

/-- `_views` of a key that was cleaned. -/
def views (pre : Bool) (key : Str) : List Str :=
  if pre = false ∨ 47 ∉ key then [key]
  else
    let labels := ((key.takeWhile (· ≠ 47)).splitOn 46).filter (· ≠ [])
    let name := (key.dropWhile (· ≠ 47)).drop 1
    let kept := if 1 < labels.length then labels.drop 1 else labels
    if kept = [] then [name] else [name, [46].intercalate (kept ++ [name])]

/-- A space between a small letter or a digit and a capital after it. -/
def camelSpaced : Str → Str
  | c :: d :: s =>
    if ((97 ≤ c.val ∧ c.val ≤ 122) ∨ (48 ≤ c.val ∧ c.val ≤ 57)) ∧ 65 ≤ d.val ∧ d.val ≤ 90 then
      c :: 32 :: camelSpaced (d :: s)
    else c :: camelSpaced (d :: s)
  | s => s

/-- `re.split(r"[/.:@=]", view)`. -/
def segments (view : Str) : List Str :=
  view.splitOnP fun c => c = 47 || c = 46 || c = 58 || c = 64 || c = 61

namespace NameData

variable (N : NameData)

/-- `_norm`. -/
def norm (name : Str) : Str := (N.casefold (N.nfkc name)).filter N.isAlnum

/-- `_clean`. -/
def clean (key : Str) : Str := N.nfkc ((N.nfkd key).filter (!N.isInvisible ·))

/-- `_tokens_of`. -/
def tokensOf (name : Str) : List Str :=
  ((N.casefold (camelSpaced name)).splitOnP (!N.isAlnum ·)).filter (· ≠ [])

def nameTokens (pre : Bool) (key : Str) : List Str :=
  (views pre (N.clean key)).flatMap N.tokensOf

/-- The names that a view could denote by its last segments, the last one first. -/
def lastNames : List Str → List Str
  | [] => []
  | last :: before =>
    N.norm last :: (before.head?.toList.map fun p => N.norm (p ++ last)) ++
      if N.lower (last.take 2) ∈ [lit "x-", lit "x_"] then [N.norm (last.drop 2)] else []

def candidateNames (pre : Bool) (key : Str) : List Str :=
  (views pre (N.clean key)).flatMap fun view =>
    N.norm view :: N.lastNames ((segments view).filter (· ≠ [])).reverse

def hasIdentityWord (pre : Bool) (key : Str) : Bool :=
  let toks := N.nameTokens pre key
  let normToks := (toks ++ (views pre (N.clean key)).flatMap segments).map N.norm
  meets toks identityTokens || normToks.any (fun t => t ∈ identityNames && t ∉ tokenExemptWords) ||
    toks.any isCompound

/-- `is_identity_key`. -/
def isIdentityKey (pre : Bool) (key : Str) : Bool :=
  let decoded := unquotePlus key
  meets (N.candidateNames pre decoded) identityNames || N.hasIdentityWord pre decoded

end NameData

/-! ## ASCII keys -/

section Split

variable {p q : CodePoint → Bool} {s : Str}

theorem splitOnP_congr (h : ∀ c ∈ s, p c = q c) : s.splitOnP p = s.splitOnP q := by
  induction s with
  | nil => rfl
  | cons c s ih =>
    obtain ⟨hc, hs⟩ := List.forall_mem_cons.mp h
    rw [List.splitOnP_cons_eq_if_modifyHead, List.splitOnP_cons_eq_if_modifyHead, hc, ih hs]

theorem mem_of_mem_splitOnP {l : Str} (hl : l ∈ s.splitOnP p) {c : CodePoint} (hc : c ∈ l) :
    c ∈ s := by
  induction s generalizing l with
  | nil =>
    rw [List.splitOnP_nil, List.mem_singleton] at hl
    subst hl
    cases hc
  | cons d s ih =>
    rw [List.splitOnP_cons_eq_if_modifyHead] at hl
    split at hl
    · rcases List.mem_cons.mp hl with rfl | hl
      · cases hc
      · exact List.mem_cons_of_mem d (ih hl hc)
    · obtain ⟨first, rest, hsplit⟩ := List.exists_cons_of_ne_nil (List.splitOnP_ne_nil p s)
      rw [hsplit, List.modifyHead_cons] at hl
      rcases List.mem_cons.mp hl with rfl | hl
      · rcases List.mem_cons.mp hc with rfl | hc
        · exact List.mem_cons_self
        · exact List.mem_cons_of_mem d (ih (hsplit ▸ List.mem_cons_self) hc)
      · exact List.mem_cons_of_mem d (ih (hsplit ▸ List.mem_cons_of_mem first hl) hc)

theorem isAscii_of_subset {t : Str} (hs : isAscii s = true) (h : ∀ c ∈ t, c ∈ s) :
    isAscii t = true :=
  List.all_eq_true.mpr fun c hc => List.all_eq_true.mp hs c (h c hc)

theorem isAscii_segments {view segment : Str} (h : isAscii view = true)
    (hsegment : segment ∈ segments view) : isAscii segment = true :=
  isAscii_of_subset h fun _ => mem_of_mem_splitOnP hsegment

theorem isAscii_camelSpaced (h : isAscii s = true) : isAscii (camelSpaced s) = true := by
  fun_induction camelSpaced s with
  | case1 c d s hcamel ih =>
    rw [isAscii, List.all_cons, Bool.and_eq_true] at h
    exact Bool.and_eq_true_iff.mpr ⟨h.1, Bool.and_eq_true_iff.mpr ⟨rfl, ih h.2⟩⟩
  | case2 c d s hcamel ih =>
    rw [isAscii, List.all_cons, Bool.and_eq_true] at h
    exact Bool.and_eq_true_iff.mpr ⟨h.1, ih h.2⟩
  | case3 s hs => exact h

theorem isAscii_intercalate {xs : List Str} (h : ∀ x ∈ xs, isAscii x = true) :
    isAscii ([46].intercalate xs) = true := by
  induction xs with
  | nil => rfl
  | cons x xs ih =>
    obtain ⟨hx, hxs⟩ := List.forall_mem_cons.mp h
    cases xs with
    | nil => rwa [List.intercalate_singleton]
    | cons y xs =>
      rw [List.intercalate_cons_cons, isAscii_append, isAscii_append, hx, ih hxs]
      rfl

theorem isAscii_views {pre : Bool} {key view : Str} (h : isAscii key = true)
    (hview : view ∈ views pre key) : isAscii view = true := by
  have hname : isAscii ((key.dropWhile (· ≠ 47)).drop 1) = true :=
    isAscii_of_subset h fun c hc => List.dropWhile_subset _ (List.drop_subset _ _ hc)
  have hlabels : ∀ label ∈ ((key.takeWhile (· ≠ 47)).splitOn 46).filter (· ≠ []),
      isAscii label = true := fun label hlabel =>
    isAscii_of_subset h fun c hc => (List.takeWhile_prefix _).subset
      (mem_of_mem_splitOnP (List.mem_filter.mp hlabel).1 hc)
  unfold views at hview
  split at hview
  · rwa [List.mem_singleton.mp hview]
  obtain ⟨kept, hkept, hview⟩ : ∃ kept : List Str, (∀ label ∈ kept, isAscii label = true) ∧
      view ∈ if kept = [] then [(key.dropWhile (· ≠ 47)).drop 1] else
        [(key.dropWhile (· ≠ 47)).drop 1,
          [46].intercalate (kept ++ [(key.dropWhile (· ≠ 47)).drop 1])] := by
    refine ⟨_, fun label hlabel => ?_, hview⟩
    split at hlabel
    · exact hlabels label (List.drop_subset _ _ hlabel)
    · exact hlabels label hlabel
  split at hview
  · rwa [List.mem_singleton.mp hview]
  rcases List.mem_cons.mp hview with rfl | hview
  · exact hname
  · rw [List.mem_singleton.mp hview]
    exact isAscii_intercalate (List.forall_mem_append.mpr
      ⟨hkept, List.forall_mem_singleton.mpr hname⟩)

end Split

namespace NameData

variable (N : NameData) {s key : Str}

theorem filter_isAlnum_ascii (h : isAscii s = true) :
    s.filter N.isAlnum = s.filter isAlphanumeric :=
  List.filter_congr fun c hc => N.isAlnum_ascii c (of_decide_eq_true (List.all_eq_true.mp h c hc))

theorem norm_ascii (h : isAscii s = true) : N.norm s = ascii.norm s := by
  rw [norm, N.nfkc_ascii s h, N.casefold_ascii s h,
    N.filter_isAlnum_ascii (s := s.map asciiLower) (isAscii_lower .ascii h)]
  rfl

theorem clean_ascii (h : isAscii key = true) :
    N.clean key = ascii.clean key ∧ isAscii (ascii.clean key) = true := by
  have hfilter : key.filter (!N.isInvisible ·) = ascii.clean key :=
    List.filter_congr fun c hc => by
      rw [N.isInvisible_ascii c (of_decide_eq_true (List.all_eq_true.mp h c hc))]
      rfl
  have hclean : isAscii (ascii.clean key) = true :=
    isAscii_of_subset h fun _ hc => (List.mem_filter.mp hc).1
  refine ⟨?_, hclean⟩
  rw [clean, N.nfkd_ascii key h, hfilter, N.nfkc_ascii _ hclean]

theorem tokensOf_ascii (h : isAscii s = true) : N.tokensOf s = ascii.tokensOf s := by
  have hspaced := isAscii_camelSpaced h
  rw [tokensOf, N.casefold_ascii _ hspaced, splitOnP_congr fun c hc => ?_]
  · rfl
  · have hlower := List.all_eq_true.mp (isAscii_lower .ascii hspaced) c hc
    rw [N.isAlnum_ascii c (of_decide_eq_true hlower)]
    rfl

theorem isAscii_tokensOf (h : isAscii s = true) {token : Str} (htoken : token ∈ ascii.tokensOf s) :
    isAscii token = true :=
  isAscii_of_subset (isAscii_lower .ascii (isAscii_camelSpaced h)) fun _ =>
    mem_of_mem_splitOnP (List.mem_filter.mp htoken).1

theorem lastNames_ascii {parts : List Str} (h : ∀ p ∈ parts, isAscii p = true) :
    N.lastNames parts = ascii.lastNames parts := by
  cases parts with
  | nil => rfl
  | cons last before =>
    obtain ⟨hlast, hbefore⟩ := List.forall_mem_cons.mp h
    have hdrop : isAscii (last.drop 2) = true :=
      isAscii_of_subset hlast fun _ hc => List.drop_subset _ _ hc
    have htake : isAscii (last.take 2) = true :=
      isAscii_of_subset hlast fun _ hc => List.take_subset _ _ hc
    have hlower : N.lower (last.take 2) = ascii.lower (last.take 2) := N.lower_ascii _ htake
    have hjoined : before.head?.toList.map (fun p => N.norm (p ++ last)) =
        before.head?.toList.map fun p => ascii.norm (p ++ last) := by
      refine List.map_congr_left fun p hp => N.norm_ascii ?_
      rw [isAscii_append, hbefore p (List.mem_of_head? (Option.mem_toList.mp hp)), hlast]
      rfl
    rw [lastNames, lastNames, N.norm_ascii hlast, N.norm_ascii hdrop, hlower, hjoined]

theorem candidateNames_ascii (pre : Bool) (h : isAscii key = true) :
    N.candidateNames pre key = ascii.candidateNames pre key := by
  obtain ⟨hclean, hascii⟩ := N.clean_ascii h
  rw [candidateNames, candidateNames, hclean]
  refine List.flatMap_congr fun view hview => ?_
  have hv := isAscii_views hascii hview
  rw [N.norm_ascii hv, N.lastNames_ascii fun p hp => ?_]
  exact isAscii_segments hv (List.mem_filter.mp (List.mem_reverse.mp hp)).1

theorem hasIdentityWord_ascii (pre : Bool) (h : isAscii key = true) :
    N.hasIdentityWord pre key = ascii.hasIdentityWord pre key := by
  obtain ⟨hclean, hascii⟩ := N.clean_ascii h
  have htokens : N.nameTokens pre key = ascii.nameTokens pre key := by
    rw [nameTokens, nameTokens, hclean]
    exact List.flatMap_congr fun view hview => N.tokensOf_ascii (isAscii_views hascii hview)
  have hwords : ∀ word ∈ ascii.nameTokens pre key ++
      (views pre (ascii.clean key)).flatMap segments, N.norm word = ascii.norm word := by
    refine List.forall_mem_append.mpr ⟨fun word hword => ?_, fun word hword => ?_⟩
    · obtain ⟨view, hview, hword⟩ := List.mem_flatMap.mp hword
      exact N.norm_ascii (isAscii_tokensOf (isAscii_views hascii hview) hword)
    · obtain ⟨view, hview, hword⟩ := List.mem_flatMap.mp hword
      exact N.norm_ascii (isAscii_segments (isAscii_views hascii hview) hword)
  rw [hasIdentityWord, hasIdentityWord, htokens, hclean, List.map_congr_left hwords]

end NameData

open Protocol in
/-- The predicates on keys as the walk through `_meta` takes them. -/
def NameData.keyNames (N : NameData) (isPrintable : CodePoint → Bool) : KeyNames where
  candidateNames := N.candidateNames
  hasIdentityWord := N.hasIdentityWord
  isPrintable := isPrintable
  selfReported key hkey := by
    have hascii : isAscii key = true := by
      have hall : [metaClientInfo, metaClientCapabilities].all isAscii = true := by decide
      exact List.all_eq_true.mp hall key hkey
    have hall : [metaClientInfo, metaClientCapabilities].all (fun key =>
        !meets (ascii.candidateNames true key) identityNames &&
          !ascii.hasIdentityWord true key) = true := by
      decide +kernel
    have hnone := List.all_eq_true.mp hall key hkey
    rw [N.candidateNames_ascii true hascii, N.hasIdentityWord_ascii true hascii]
    simpa using hnone

/-- On a key that is not encoded, the walk asks what `isIdentityKey` does. -/
theorem keyNames_isIdentityKey (N : NameData) (isPrintable : CodePoint → Bool) {key : Str}
    (hpercent : 37 ∉ key) (hplus : 43 ∉ key) :
    (N.keyNames isPrintable).isIdentityKey key = N.isIdentityKey false key := by
  have hreplace : replaceChar key 43 32 = key := by
    have hself : ∀ c ∈ key, (if c = 43 then 32 else c) = c := fun c hc =>
      if_neg fun heq : c = 43 => hplus (heq ▸ hc)
    rw [replaceChar, List.map_congr_left hself, List.map_id']
  rw [NameData.isIdentityKey, unquotePlus, hreplace, unquote, if_neg hpercent]
  rfl

end CosaiMcp.Middleware.RequestMeta
