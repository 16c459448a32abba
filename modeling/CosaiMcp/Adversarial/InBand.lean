import CosaiMcp.Adversarial.UrlHeads
import CosaiMcp.Catalog.TemplateTokens

/-!
# Probes that stay in-band

The check reads the strings of a probe as they are written, the target sees them with their
variables expanded. A payload stays in-band if the host of every URL in it is settled once the URL
of the target is in its place, and the check accepts what is written then
(`staysInBand_iff_settled`). Otherwise a value, or text that is joined to the URL of the target,
moves the host. Values before a scheme matter by the letters of it that they bring in, so that a
text is settled if it is with any of these (`Fixed`).
-/

namespace CosaiMcp.Adversarial

open Py Transport Catalog Expand

variable {φ : Type}

/-! ## URLs off the target -/

def unspecified : List Block :=
  [.v4 ⟨0, 32, no_host_bits_unspecified4⟩, .v6 ⟨0, 128, by decide⟩]

/-- A loopback, link-local or unspecified address. -/
def isLocalAddress (host : Str) : Bool :=
  match ipAddress host with
  | some addr => (loopback ++ linkLocal ++ unspecified).any (·.contains addr)
  | none => false

section

variable (D : UrlData) (targetUrl : Str)

/-- `s` is an `http` or `https` URL, case and surrounding white space aside, of another host than
the target, or of an address of the machine itself. -/
def OffTarget (s : Str) : Prop :=
  ∃ host, NamesHost D s host ∧ (host ≠ targetHostOf D targetUrl ∨ isLocalAddress host = true)

/-- The check sees a URL in `s` where `urlparse` does, and reads the same host with and without the
white space around it. -/
structure Reads (s : Str) : Prop where
  scheme : ∀ host, NamesHost D s host → isHttpUrl s = true
  host : isHttpUrl s = true → Url.hostOf D s = Url.hostOf D (strip s)

/-- If the host of `s` is a local address, it is one that is blocked. -/
def LocalBlocked (s : Str) : Prop :=
  ∀ host, NamesHost D s host → isLocalAddress host = true → isBlockedAddress host = true

/-- The check accepts `s`, and has read the host of it. -/
structure Passes (s : Str) : Prop where
  accepted : rejectIfExternalUrl (φ := Empty) D s (targetHostOf D targetUrl) = .ok ()
  reads : Reads D s
  blocked : LocalBlocked D s

/-! ## Strings whose host is settled -/

/-- The text before the first variable, and whether there is one. -/
def textHead (s : Str) : Str × Bool :=
  match cut? openBraces s with
  | some (p, _) => (p, true)
  | none => (s, false)

/-- The string has no variable, or the host of its URL ends before the first one. -/
def HostWritten (s : Str) : Prop := (textHead s).2 = true → hostEnds (textHead s).1 = true

/-- The string with the URL of the target in its place. -/
def withTarget (s : Str) : Str := replaceStr s (token (lit "target_url")) targetUrl

/-- The host of a text does not depend on the values of its variables, or it never is a URL. -/
inductive Fixed : Str → Prop
  /-- The host is written out, and the check accepts what is written. -/
  | written {s : Str} (hends : HostWritten s) (hpasses : Passes D targetUrl s) : Fixed s
  /-- The text before the first variable begins no URL. -/
  | never {s : Str} (hnever : neverUrl (textHead s).1 = true) : Fixed s
  /-- At most `htt` is before the first variable, and with any letters of a scheme in its place the
  text is fixed. No brace is there for a value to make a new variable with. -/
  | spelled {s p rest name rest' : Str} (htarget : ¬ [123] <:+ targetUrl)
      (hopen : cut? openBraces s = some (p, rest))
      (hclose : cut? closeBraces rest = some (name, rest')) (hp : isShort p = true)
      (hhead : ¬ [123] <+: rest')
      (hall : ∀ x, x <:+: lit "https" → Fixed (p ++ (x ++ rest'))) : Fixed s

/-- A string whose host is written out, and has been read by the check, or that is fixed with the
URL of the target in its place. -/
inductive Settled (s : Str) : Prop
  | written (hends : HostWritten s) (hreads : Reads D s) (hblocked : LocalBlocked D s)
  | placed (hfixed : Fixed D targetUrl (withTarget targetUrl s))

/-- No values get the string through the substitution. -/
def Refused (s : Str) : Prop :=
  ¬ Tokenized allowedNames s ∨ openBraces <:+: targetUrl ∨ closeBraces <:+: targetUrl

/-- A text that may stay in-band although it is not fixed. -/
inductive Unclear : Str → Prop
  /-- Its host is written out, but the check does not read it as `urlparse` does. -/
  | unread {s : Str} (hends : HostWritten s) (hreads : ¬ Reads D s) : Unclear s
  /-- `urlparse` refuses what a value can make of the host. -/
  | refused {s : Str} (hends : ¬ HostWritten s) (c : CodePoint) (hc : c = 97 ∨ c = 98)
      (hnetloc : D.netlocValid
        ((Url.afterScheme (Url.stem (textHead s).1)).getD [] ++ [64, c]) = false) : Unclear s
  /-- At most `htt` is before the first variable, and with any letters in the places of that it is
  fixed or unclear. -/
  | spelled {s p rest name rest' : Str} (hopen : cut? openBraces s = some (p, rest))
      (hclose : cut? closeBraces rest = some (name, rest')) (hp : isShort p = true)
      (hall : ∀ x, x <:+: lit "https" →
        ¬ Fixed D targetUrl (p ++ (x ++ replaceStr rest' (token name) x)) →
          Unclear (p ++ (x ++ replaceStr rest' (token name) x))) : Unclear s

end

/-! ## Payloads -/

def HasKey (key : Str) (payload : Json φ) : Prop :=
  ∃ ms v, Nested (.obj ms) payload ∧ (key, v) ∈ ms

/-- The strings of a payload: its string values and its keys. -/
def HasString (s : Str) (payload : Json φ) : Prop := Nested (.str s) payload ∨ HasKey s payload

/-- The variables as the substitution takes them: the target, and others without a scheme. -/
structure Assigns (vars : Dict Str Str) (targetUrl : Str) : Prop where
  names : ∀ m ∈ vars.items, m.1 ∈ allowedNames
  target : (lit "target_url", targetUrl) ∈ vars.items
  others : ∀ m ∈ vars.items, m.1 ≠ lit "target_url" → hasNoScheme m.2

section

variable (D : UrlData) (targetUrl : Str) (payload : Json φ)

/-- No values take a string of the payload off the target. -/
def StaysInBand : Prop :=
  ∀ vars, Assigns (bareNames vars) targetUrl → ∀ resolved,
    substituteProbePayload vars payload = .ok resolved →
      ∀ s, HasString s resolved → ¬ OffTarget D targetUrl s

/-- The payload is not substituted at all, or all hosts in it are settled. -/
def SettledPayload : Prop :=
  (∃ s, Nested (.str s) payload ∧ Refused targetUrl s) ∨
    (∀ s, Nested (.str s) payload → Settled D targetUrl s) ∧
      ∀ key, HasKey key payload → Passes D targetUrl key

/-- The strings of the payload are settled or not unclear, its keys are read as they are, and the
URL of the target does not end with a brace, which might make a new variable with the text after
it. -/
structure Clear : Prop where
  target : ¬ [123] <:+ targetUrl
  strings : ∀ s, Nested (.str s) payload →
    Settled D targetUrl s ∨ ¬ Unclear D targetUrl (withTarget targetUrl s)
  keys : ∀ key, HasKey key payload → Reads D key

end

/-! ## What the check makes sure of -/

section Checked

variable {D : UrlData} {targetUrl s : Str}

theorem not_offTarget_of_checked
    (haccept : rejectIfExternalUrl (φ := φ) D s (targetHostOf D targetUrl) = .ok ())
    (hreads : Reads D s) (hblocked : LocalBlocked D s) : ¬ OffTarget D targetUrl s := by
  rintro ⟨host, hnames, hoff⟩
  have hurl := hreads.scheme host hnames
  obtain ⟨-, h, hhost, rfl, hne⟩ := id hnames
  rw [← hreads.host hurl] at hhost
  obtain ⟨hsame, hno⟩ := of_rejectIfExternalUrl haccept hurl hhost hne
  have hlocal := hoff.resolve_left fun hdiff => hdiff hsame
  rw [hblocked _ hnames hlocal] at hno
  cases hno

theorem isLocalAddress_of_blocked {host : Str} (h : isBlockedAddress host = true) :
    isLocalAddress host = true := by
  have hsub : ∀ b ∈ alwaysBlockedNetworks, b ∈ loopback ++ linkLocal ++ unspecified := by
    simp [alwaysBlockedNetworks, loopback, linkLocal, unspecified]
  rw [isBlockedAddress] at h
  rw [isLocalAddress]
  cases haddr : ipAddress host with
  | none =>
    rw [haddr] at h
    cases h
  | some addr =>
    rw [haddr] at h
    obtain ⟨b, hb, hin⟩ := List.any_eq_true.mp h
    exact List.any_eq_true.mpr ⟨b, hsub b hb, hin⟩

/-- What is read and on target is accepted. -/
theorem passes_of_reads (hreads : Reads D s) (hon : ¬ OffTarget D targetUrl s) :
    Passes D targetUrl s := by
  have hoff {host : Str} (hnames : NamesHost D s host) :
      host = targetHostOf D targetUrl ∧ isLocalAddress host = false := by
    constructor
    · by_contra hne
      exact hon ⟨host, hnames, .inl hne⟩
    · rw [Bool.eq_false_iff]
      exact fun hlocal => hon ⟨host, hnames, .inr hlocal⟩
  refine ⟨?_, hreads, fun host hnames hlocal => ?_⟩
  · unfold rejectIfExternalUrl
    split
    · rfl
    next hurl =>
    have hurl : isHttpUrl s = true := by simpa using hurl
    rw [hreads.host hurl]
    split
    · rfl
    next h hhost =>
    dsimp only
    split
    · rfl
    next hne =>
    obtain ⟨rest, hrest⟩ := Option.isSome_iff_exists.mp
      (Url.afterScheme_clean ((isHttpUrl_iff s).mp hurl))
    obtain ⟨hsame, hlocal⟩ :=
      hoff ⟨(Url.splitScheme_of_afterScheme hrest).1, h, hhost, rfl, hne⟩
    rw [if_neg fun hblocked => ?_, if_neg (not_not.mpr hsame)]
    rw [isLocalAddress_of_blocked hblocked] at hlocal
    cases hlocal
  · rw [(hoff hnames).2] at hlocal
    cases hlocal

theorem passes_of_hasNoScheme (h : hasNoScheme s) : Passes D targetUrl s := by
  have hno (host : Str) : ¬ NamesHost D s host := by
    rintro ⟨hscheme, -⟩
    rw [show Url.schemeOf (strip s) = [] from h] at hscheme
    exact absurd hscheme (by decide)
  have hurl : isHttpUrl s = false := by
    rw [Bool.eq_false_iff]
    intro hurl
    obtain ⟨rest, hrest⟩ := Option.isSome_iff_exists.mp
      (Url.afterScheme_clean ((isHttpUrl_iff s).mp hurl))
    have hscheme := (Url.splitScheme_of_afterScheme hrest).1
    rw [show (Url.splitScheme (Url.clean (strip s))).1 = [] from h] at hscheme
    exact absurd hscheme (by decide)
  refine passes_of_reads ⟨fun host hnames => absurd hnames (hno host), fun htrue => ?_⟩ ?_
  · rw [hurl] at htrue
    cases htrue
  · rintro ⟨host, hnames, -⟩
    exact hno host hnames

end Checked

/-! ## Expansions of a settled string -/

section Expansions

variable {D : UrlData} {targetUrl : Str} {vars : Dict Str Str} {s t : Str}

theorem textHead_eq (s : Str) : (cut? openBraces s = none ∧ textHead s = (s, false)) ∨
    ∃ p rest, cut? openBraces s = some (p, rest) ∧ textHead s = (p, true) := by
  unfold textHead
  cases hcut : cut? openBraces s with
  | none => exact .inl ⟨rfl, rfl⟩
  | some q => exact .inr ⟨q.1, q.2, rfl, rfl⟩

/-- The text before the first variable of a string is at the head of its expansion, and is all of it
where there is none. -/
theorem append_textHead {s' : Str} (h : Follows 123 s' t) :
    ∃ u, t = (textHead s').1 ++ u ∧ ((textHead s').2 = false → u = []) := by
  rcases textHead_eq s' with ⟨hnone, hhead⟩ | ⟨p, rest, hsome, hhead⟩
  · refine ⟨[], ?_, fun _ => rfl⟩
    rw [hhead, List.append_nil]
    exact h.eq_of_not_infix (not_infix_of_cut?_eq_none hnone)
  · rw [cut?_eq_some hsome] at h
    obtain ⟨u, rfl, -⟩ := h.of_append (not_infix_of_cut? hsome)
    exact ⟨u, by rw [hhead], fun hfalse => by rw [hhead] at hfalse; cases hfalse⟩

/-- So the host that is written out stays. -/
theorem namesHost_expanded {s' host : Str} (h : Follows 123 s' t) (hends : HostWritten s') :
    NamesHost D t host ↔ NamesHost D s' host := by
  obtain ⟨u, rfl, hu⟩ := append_textHead h
  obtain ⟨u', hs', hu'⟩ := append_textHead (Follows.refl s' : Follows 123 s' s')
  cases hmore : (textHead s').2 with
  | false =>
    conv_rhs => rw [hs']
    rw [hu hmore, hu' hmore]
  | true =>
    conv_rhs => rw [hs']
    rw [namesHost_append (hends hmore), namesHost_append (hends hmore)]

theorem offTarget_expanded {s' : Str} (h : Follows 123 s' t) (hends : HostWritten s') :
    OffTarget D targetUrl t ↔ OffTarget D targetUrl s' :=
  exists_congr fun _ => and_congr_left fun _ => namesHost_expanded h hends

theorem plain_spelled {x : Str} (hx : x <:+: lit "https") : ¬ openBraces <:+: x ++ [123] := by
  have hall : ∀ x ∈ spellings, ¬ openBraces <:+: x ++ [123] := by
    decide +kernel
  exact hall x (mem_spellings hx)

/-- A short text and a value come before all that follows them, unless that begins with a brace. -/
theorem not_infix_short {p v u : Str} (hp : isShort p = true) (hv : ¬ openBraces <:+: v)
    (hu : ¬ [123] <+: u) : ¬ openBraces <:+: (p ++ v) ++ u.take 1 := by
  have hbrace : (123 : CodePoint) ∉ p := not_mem_of_isShort (.inr rfl) hp
  have htake : ¬ openBraces <:+: u.take 1 := by
    intro hin
    have hlen := hin.length_le
    rw [List.length_take] at hlen
    exact absurd (hlen.trans (Nat.min_le_left 1 _)) (by decide)
  rw [List.append_assoc]
  refine not_infix_append (not_infix_of_not_mem hbrace) (not_infix_append hv htake (.inr ?_))
    (.inl fun hsuf => hbrace (hsuf.subset List.mem_cons_self))
  exact fun hpre => hu (hpre.trans (List.take_prefix 1 u))

/-- No values take a fixed text off the target. -/
theorem Fixed.not_offTarget (hassigns : Assigns vars targetUrl)
    (hvalues : ∀ m ∈ vars.items, ¬ openBraces <:+: m.2) {names : List Str}
    (hnames : ∀ name ∈ names, name ≠ lit "target_url" ∧ name ∈ vars.keys) {y : Str}
    (h : Fixed D targetUrl y) (ht : Follows 123 y t)
    (hy : ¬ [123] <:+ targetUrl →
      Tokenized names y ∧ Follows 123 (expand (rules vars.items) y) t) :
    ¬ OffTarget D targetUrl t := by
  have hmarked := marked_rules vars.nodup hassigns.names
  induction h generalizing t with
  | written hends hpasses =>
    rw [offTarget_expanded ht hends]
    exact not_offTarget_of_checked hpasses.accepted hpasses.reads hpasses.blocked
  | never hnever =>
    obtain ⟨u, rfl, -⟩ := append_textHead ht
    rintro ⟨host, hhost, -⟩
    exact not_namesHost_of_neverUrl hnever u hhost
  | @spelled s p rest name rest' htarget hopen hclose hp hhead _ ih =>
    obtain ⟨htokens, hexpand⟩ := hy htarget
    obtain ⟨hname, hrest⟩ := htokens.of_cuts hopen hclose
    obtain ⟨htargetName, hkey⟩ := hnames name hname
    obtain ⟨v, hv⟩ := Dict.mem_keys_iff.mp hkey
    rw [expand_cuts hmarked hopen hclose hv, ← List.append_assoc] at hexpand
    have hnext : ¬ [123] <+: expand (rules vars.items) rest' :=
      (follows_expand hmarked rest').head_ne hhead
    obtain ⟨u, rfl, hu⟩ := hexpand.of_append (not_infix_short hp (hvalues _ hv) hnext)
    rintro ⟨host, hhost, hoff⟩
    rw [List.append_assoc] at hhost
    obtain ⟨x, hx, hhost⟩ := exists_spelled hp (hassigns.others _ hv htargetName) hhost
    have hplain := plain_spelled hx
    refine ih x hx (((follows_expand hmarked rest').trans hu).append_left x |>.append_left p)
      (fun _ => ⟨(hrest.append_left hplain).append_left (not_infix_of_cut? hopen), ?_⟩)
      ⟨host, hhost, hoff⟩
    rw [expand_append_plain hmarked (not_infix_of_cut? hopen), expand_append_plain hmarked hplain]
    exact (hu.append_left x).append_left p

/-- A settled string that was checked is not taken off the target by any values. -/
theorem not_offTarget_of_settled (hassigns : Assigns vars targetUrl)
    (h : substituteStr vars s = .ok t)
    (hchecked : rejectIfExternalUrl (φ := φ) D s (targetHostOf D targetUrl) = .ok ())
    (hsettled : Settled D targetUrl s) : ¬ OffTarget D targetUrl t := by
  have hfollows := follows_of_substituteStr hassigns.names h
  cases hsettled with
  | written hends hreads hblocked =>
    have hwritten := (follows_expand (marked_rules vars.nodup hassigns.names) s).trans hfollows
    rw [offTarget_expanded hwritten hends]
    exact not_offTarget_of_checked hchecked hreads hblocked
  | placed hfixed =>
    have hvalues := (substituteStr_eq_ok h).2.1
    have htokens := tokenized_of_substituteStr hassigns.names h
    have hnames : ∀ name ∈ vars.keys.filter (· ≠ lit "target_url"),
        name ≠ lit "target_url" ∧ name ∈ vars.keys := by
      intro name hname
      obtain ⟨hkey, hne⟩ := List.mem_filter.mp hname
      exact ⟨by simpa using hne, hkey⟩
    refine hfixed.not_offTarget hassigns hvalues hnames
      (follows_replaceStr hassigns.names h hassigns.target) fun htarget => ?_
    have hplain := plain_of_not_suffix (hvalues _ hassigns.target) htarget
    have hexpand := expand_replaceStr vars.nodup hassigns.names hassigns.target hplain htokens
    refine ⟨htokens.replaceStr (m := (lit "target_url", targetUrl)) ?_ List.mem_cons_self hplain,
      ?_⟩
    · exact List.forall_mem_map.mpr hassigns.names
    · exact hexpand.symm ▸ hfollows

theorem not_refused (hassigns : Assigns vars targetUrl) (h : substituteStr vars s = .ok t) :
    ¬ Refused targetUrl s := by
  obtain hvalues := (replaceable_of_ok h).values _ hassigns.target
  rintro (htokens | hopen | hclose)
  · refine htokens ((tokenized_of_substituteStr hassigns.names h).mono fun name hname _ => ?_)
    obtain ⟨value, hmem⟩ := Dict.mem_keys_iff.mp hname
    exact hassigns.names _ hmem
  · exact hvalues.1 hopen
  · exact hvalues.2 hclose

end Expansions

/-! ## Values that take a string off the target -/

/-- The variables apart from the target. -/
def otherNames : List Str := [lit "session_id", lit "tool_name", lit "canary"]

/-- The target, and values for all other variables. -/
def assigned (targetUrl : Str) (values : Str → Str) : Dict Str Str :=
  Dict.ofList ((lit "target_url", targetUrl) :: otherNames.map fun name => (name, values name))

section Values

variable {D : UrlData} {targetUrl value : Str} {values : Str → Str}

theorem items_assigned (targetUrl : Str) (values : Str → Str) : (assigned targetUrl values).items =
    (lit "target_url", targetUrl) :: otherNames.map fun name => (name, values name) :=
  rfl

theorem bareNames_assigned (targetUrl : Str) (values : Str → Str) :
    bareNames (assigned targetUrl values) = assigned targetUrl values :=
  Dict.ext rfl

theorem mem_assigned_iff {m : Str × Str} : m ∈ (assigned targetUrl values).items ↔
    m = (lit "target_url", targetUrl) ∨ m.1 ∈ otherNames ∧ m.2 = values m.1 := by
  rw [items_assigned, List.mem_cons, List.mem_map]
  refine or_congr_right ⟨?_, fun ⟨hname, hvalue⟩ => ⟨m.1, hname, Prod.ext rfl hvalue.symm⟩⟩
  rintro ⟨name, hname, rfl⟩
  exact ⟨hname, rfl⟩

/-- A value that passes the checks and brings in neither a variable nor a scheme. -/
structure Harmless (value : Str) : Prop where
  noOpen : (123 : CodePoint) ∉ value
  noClose : ¬ closeBraces <:+: value
  noScheme : hasNoScheme value

theorem Harmless.plain (h : Harmless value) : ¬ openBraces <:+: value ++ [123] :=
  plain_of_not_suffix (not_infix_of_not_mem h.noOpen) fun hsuf =>
    h.noOpen (hsuf.subset List.mem_cons_self)

theorem plainValues (h : ∀ name, Harmless (values name))
    (htarget : ¬ openBraces <:+: targetUrl ++ [123]) :
    PlainValues (assigned targetUrl values).items where
  nodup := (assigned targetUrl values).nodup
  names m hm := by
    have hall : ∀ name ∈ otherNames, name ∈ allowedNames := by decide
    rcases mem_assigned_iff.mp hm with rfl | ⟨hname, -⟩
    · exact List.mem_cons_self
    · exact hall _ hname
  all name hname := by
    have hall : ∀ name ∈ allowedNames, name = lit "target_url" ∨ name ∈ otherNames := by decide
    rcases hall name hname with rfl | hother
    · exact ⟨targetUrl, List.mem_cons_self⟩
    · exact ⟨values name, mem_assigned_iff.mpr (.inr ⟨hother, rfl⟩)⟩
  plain m hm := by
    rcases mem_assigned_iff.mp hm with rfl | ⟨-, hvalue⟩
    · exact htarget
    · exact hvalue ▸ (h m.1).plain

theorem assigns (h : ∀ name, Harmless (values name)) :
    Assigns (assigned targetUrl values) targetUrl where
  names m hm := by
    have hall : ∀ name ∈ otherNames, name ∈ allowedNames := by decide
    rcases mem_assigned_iff.mp hm with rfl | ⟨hname, -⟩
    · exact List.mem_cons_self
    · exact hall _ hname
  target := List.mem_cons_self
  others m hm hname := by
    rcases mem_assigned_iff.mp hm with rfl | ⟨-, hvalue⟩
    · exact absurd rfl hname
    · exact hvalue ▸ (h m.1).noScheme

theorem harmless_completion {tail : Str} (htail : tail <:+ lit "://") {c : CodePoint}
    (hc : c = 97 ∨ c = 98) : Harmless (tail ++ [64, c, 47]) := by
  have hall : ∀ tail ∈ (lit "://").tails, ∀ text ∈ [[64, 97, 47], [64, 98, 47]],
      (123 : CodePoint) ∉ tail ++ text ∧ ¬ closeBraces <:+: tail ++ text ∧
        hasNoScheme (tail ++ text) := by
    decide +kernel
  have htext : [64, c, 47] ∈ [[64, 97, 47], [64, 98, 47]] := by
    rcases hc with rfl | rfl
    · exact List.mem_cons_self
    · exact List.mem_cons_of_mem _ List.mem_cons_self
  obtain ⟨hopen, hclose, hscheme⟩ := hall tail ((List.mem_tails _ _).mpr htail) _ htext
  exact ⟨hopen, hclose, hscheme⟩

theorem harmless_nil : Harmless [] := ⟨List.not_mem_nil, by decide, by decide⟩

theorem harmless_spelled {x : Str} (hx : x <:+: lit "https") : Harmless x := by
  have hall : ∀ x ∈ spellings,
      (123 : CodePoint) ∉ x ∧ ¬ closeBraces <:+: x ∧ hasNoScheme x := by
    decide +kernel
  obtain ⟨hopen, hclose, hscheme⟩ := hall x (mem_spellings hx)
  exact ⟨hopen, hclose, hscheme⟩

theorem exists_other_letter (host : Str) : ∃ c : CodePoint, (c = 97 ∨ c = 98) ∧ [c] ≠ host := by
  by_cases ha : [97] = host
  · exact ⟨98, .inr rfl, by rw [← ha]; decide⟩
  · exact ⟨97, .inl rfl, ha⟩

/-- A text that a value is put behind, and of which a few characters more make a URL, is made one of
another host. -/
theorem exists_completion {y p rest name rest' tail w x : Str}
    (htarget : ¬ openBraces <:+: targetUrl ++ [123]) (hname : name ∈ otherNames)
    (hopen : cut? openBraces y = some (p, rest))
    (hclose : cut? closeBraces rest = some (name, rest')) (htail : tail <:+ lit "://") (hw : w.map asciiLower ∈ Url.httpSchemes)
    (hstem : Url.stem p ++ tail = w ++ x) (hx : x.any Url.endsNetloc = false)
    (hvalid : ∀ c, c = 97 ∨ c = 98 → D.netlocValid (x ++ [64, c]) = true) :
    ∃ values : Str → Str, (∀ name, Harmless (values name)) ∧
      OffTarget D targetUrl (expand (rules (assigned targetUrl values).items) y) := by
  obtain ⟨c, hc, hother⟩ := exists_other_letter (targetHostOf D targetUrl)
  have hvalue := harmless_completion htail hc
  have hplain := plainValues (fun _ => hvalue) htarget
  refine ⟨fun _ => tail ++ [64, c, 47], fun _ => hvalue, [c], ?_, .inl hother⟩
  have hmem : (name, tail ++ [64, c, 47]) ∈
      (assigned targetUrl fun _ => tail ++ [64, c, 47]).items :=
    mem_assigned_iff.mpr (.inr ⟨hname, rfl⟩)
  rw [expand_cuts (marked_rules hplain.nodup hplain.names) hopen hclose hmem]
  exact namesHost_completed hc hstem hw htail hx (hvalid c hc) _

theorem harmless_update (h : ∀ name, Harmless (values name)) {x : Str} (hx : x <:+: lit "https")
    (name name' : Str) : Harmless (Function.update values name x name') := by
  by_cases heq : name' = name
  · rw [heq, Function.update_self]
    exact harmless_spelled hx
  · rw [Function.update_of_ne heq]
    exact h name'

/-- What values do to a text with letters in the places of its first variable, they do to the text,
the letters being the value of that. -/
theorem expand_update {y p rest name rest' x : Str} {names : List Str}
    (htarget : ¬ openBraces <:+: targetUrl ++ [123]) (h : ∀ name, Harmless (values name))
    (hnames : ∀ name ∈ names, name ∈ otherNames) (hname : name ∈ names)
    (hopen : cut? openBraces y = some (p, rest))
    (hclose : cut? closeBraces rest = some (name, rest')) (hrest : Tokenized names rest') (hx : x <:+: lit "https") :
    expand (rules (assigned targetUrl (Function.update values name x)).items) y =
      expand (rules (assigned targetUrl values).items)
        (p ++ (x ++ replaceStr rest' (token name) x)) := by
  have hplain := plainValues h htarget
  have hplain' := plainValues (harmless_update h hx name) htarget
  have hmarked := marked_rules hplain.nodup hplain.names
  have hmarked' := marked_rules hplain'.nodup hplain'.names
  have hmem : (name, x) ∈ (assigned targetUrl (Function.update values name x)).items :=
    mem_assigned_iff.mpr (.inr ⟨hnames name hname, by simp⟩)
  have hallowed : ∀ name ∈ names, name ∈ allowedNames := fun name hname =>
    List.mem_cons_of_mem _ (hnames name hname)
  have hreplaced := hrest.replaceStr (m := (name, x)) hallowed (hallowed name hname)
    (plain_spelled hx)
  have hkeys : Tokenized ((assigned targetUrl (Function.update values name x)).items.map Prod.fst)
      rest' := hrest.mono fun name' hname' _ => by
    obtain ⟨value, hvalue⟩ := hplain'.all name' (hallowed name' hname')
    exact List.mem_map_of_mem hvalue
  rw [expand_append_plain hmarked (not_infix_of_cut? hopen),
    expand_append_plain hmarked (plain_spelled hx), expand_cuts hmarked' hopen hclose hmem,
    ← expand_replaceStr hplain'.nodup hplain'.names hmem (plain_spelled hx) hkeys,
    expand_congr_of_tokenized hmarked' hmarked hreplaced fun name' hname' => ?_]
  obtain ⟨hmem', hne⟩ := List.mem_filter.mp hname'
  have hne : name' ≠ name := by simpa using hne
  refine ⟨values name', mem_assigned_iff.mpr (.inr ⟨hnames name' hmem', ?_⟩),
    mem_assigned_iff.mpr (.inr ⟨hnames name' hmem', rfl⟩)⟩
  exact (Function.update_of_ne hne ..).symm

/-- A host that is written out, and that the check reads, is another where the text is not fixed. -/
theorem offTarget_of_not_fixed {y : Str} (hends : HostWritten y) (hclear : ¬ Unclear D targetUrl y)
    (hnot : ¬ Fixed D targetUrl y) : OffTarget D targetUrl y := by
  by_contra hon
  have hreads : Reads D y := by
    by_contra hreads
    exact hclear (.unread hends hreads)
  exact hnot (.written hends (passes_of_reads hreads hon))

/-- Some letters of a scheme for the first variable keep a text clear and not fixed. -/
theorem exists_spelling {y p rest name rest' : Str} (hclear : ¬ Unclear D targetUrl y)
    (hopen : cut? openBraces y = some (p, rest))
    (hclose : cut? closeBraces rest = some (name, rest')) (hshort : isShort p = true) :
    ∃ x, x <:+: lit "https" ∧
      ¬ Fixed D targetUrl (p ++ (x ++ replaceStr rest' (token name) x)) ∧
        ¬ Unclear D targetUrl (p ++ (x ++ replaceStr rest' (token name) x)) := by
  by_contra hnone
  refine hclear (.spelled hopen hclose hshort fun x hx hfixed => ?_)
  by_contra hunclear
  exact hnone ⟨x, hx, hfixed, hunclear⟩

/-- A text that is not fixed, and of which that is clear, is taken off the target by values. -/
theorem exists_offTarget (htarget : ¬ openBraces <:+: targetUrl ++ [123]) {y : Str}
    {names : List Str} (hnames : ∀ name ∈ names, name ∈ otherNames) (hy : Tokenized names y)
    (hclear : ¬ Unclear D targetUrl y) (hnot : ¬ Fixed D targetUrl y) :
    ∃ values : Str → Str, (∀ name, Harmless (values name)) ∧
      OffTarget D targetUrl (expand (rules (assigned targetUrl values).items) y) := by
  by_cases hends : HostWritten y
  · have hplain := plainValues (fun _ => harmless_nil) htarget
    have hfollows := follows_expand (marked_rules hplain.nodup hplain.names) y
    exact ⟨fun _ => [], fun _ => harmless_nil,
      (offTarget_expanded hfollows hends).mpr (offTarget_of_not_fixed hends hclear hnot)⟩
  cases hy with
  | text hopen =>
    refine absurd (fun hmore => ?_) hends
    rw [textHead, hopen] at hmore
    cases hmore
  | @token _ p rest name rest' hopen hclose hname hrest =>
    have hhead : textHead y = (p, true) := by rw [textHead, hopen]
    rcases completed_or p with hnever | hshort | hwritten | ⟨tail, w, htail, hw, hstem, hx⟩
    · exact absurd (.never (by rw [hhead]; exact hnever)) hnot
    · -- one variable less
      obtain ⟨x, hx, hfixed, hunclear⟩ := exists_spelling hclear hopen hclose hshort
      have hallowed : ∀ name ∈ names, name ∈ allowedNames := fun name hname =>
        List.mem_cons_of_mem _ (hnames name hname)
      have hreplaced := hrest.replaceStr (m := (name, x)) hallowed (hallowed name hname)
        (plain_spelled hx)
      have hless : ∀ name' ∈ names.filter (· ≠ name), name' ∈ otherNames := fun name' hname' =>
        hnames name' (List.mem_of_mem_filter hname')
      obtain ⟨values, hvalues, hoff⟩ := exists_offTarget htarget hless
        ((hreplaced.append_left (plain_spelled hx)).append_left (not_infix_of_cut? hopen))
        hunclear hfixed
      refine ⟨Function.update values name x, harmless_update hvalues hx name, ?_⟩
      rw [expand_update htarget hvalues hnames hname hopen hclose hrest hx]
      exact hoff
    · exact absurd (fun _ => by rw [hhead]; exact hwritten) hends
    · refine exists_completion htarget (hnames name hname) hopen hclose htail hw hstem hx
        fun c hc => Bool.eq_true_of_not_eq_false fun hnetloc => hclear (.refused hends c hc ?_)
      rw [hhead]
      exact hnetloc
termination_by names.length
decreasing_by
  exact List.length_filter_lt_length_iff_exists.mpr ⟨name, hname, by simp⟩

end Values

/-! ## Payloads that stay in-band -/

section StaysInBand

variable {D : UrlData} {targetUrl : Str} {payload : Json φ}

/-- A string or key of the result comes from one of the payload. -/
theorem HasString.of_substituteValue {vars : Dict Str Str} {resolved : Json φ} {t : Str}
    (ht : HasString t resolved) (h : substituteValue vars payload = .ok resolved) :
    (∃ s, Nested (.str s) payload ∧ substituteStr vars s = .ok t) ∨ HasKey t payload := by
  rcases ht with hnested | ⟨ns, v, hnested, hmem⟩
  · obtain ⟨u, hu, hsub⟩ := hnested.of_substituteValue h
    obtain ⟨s, rfl, hstr⟩ := (Catalog.of_substituteValue hsub).1 t rfl
    exact .inl ⟨s, hu, hstr⟩
  · obtain ⟨u, hu, hsub⟩ := hnested.of_substituteValue h
    obtain ⟨ms, rfl, hms⟩ := (Catalog.of_substituteValue hsub).2.2 _ rfl
    obtain ⟨m, hm, rfl, -⟩ := hms _ hmem
    exact .inr ⟨ms, m.2, hu, hm⟩

theorem HasKey.substituted {vars : Dict Str Str} {resolved : Json φ} {key : Str}
    (hkey : HasKey key payload) (h : substituteValue vars payload = .ok resolved) :
    HasKey key resolved := by
  obtain ⟨ms, v, hnested, hmem⟩ := hkey
  obtain ⟨w, hw, hsub⟩ := hnested.substituted h
  obtain ⟨-, rfl⟩ := substituteValue_obj.mp hsub
  exact ⟨_, _, hw, List.mem_map_of_mem hmem⟩

/-- The strings of a payload none of which is refused take any values. -/
theorem substitutes {values : Str → Str} (h : ∀ name, Harmless (values name))
    (htarget : ¬ [123] <:+ targetUrl) {s : Str} (hno : ¬ Refused targetUrl s) :
    substituteStr (assigned targetUrl values) s =
      .ok (expand (rules (assigned targetUrl values).items) s) := by
  rw [Refused, not_or, not_or, not_not] at hno
  obtain ⟨htokens, hopen, hclose⟩ := hno
  have hplain := plainValues h (plain_of_not_suffix hopen htarget)
  refine substituteStr_of_tokenized hplain (fun m hm => ?_) htokens
  rcases mem_assigned_iff.mp hm with rfl | ⟨-, hvalue⟩
  · exact hclose
  · exact hvalue ▸ (h m.1).noClose

theorem exists_resolved {values : Str → Str} (h : ∀ name, Harmless (values name))
    (htarget : ¬ [123] <:+ targetUrl)
    (hnone : ∀ s, Nested (.str s) payload → ¬ Refused targetUrl s) :
    ∃ resolved, substituteValue (assigned targetUrl values) payload = .ok resolved :=
  substituteValue_of_strings fun s hs => ⟨_, substitutes h htarget (hnone s hs)⟩

theorem StaysInBand.assigned (hin : StaysInBand D targetUrl payload) {values : Str → Str}
    (h : ∀ name, Harmless (values name)) {resolved : Json φ}
    (hresolved : substituteValue (assigned targetUrl values) payload = .ok resolved) :
    ∀ s, HasString s resolved → ¬ OffTarget D targetUrl s := by
  refine hin (Adversarial.assigned targetUrl values) ?_ resolved ?_
  · rw [bareNames_assigned]
    exact assigns h
  · rw [← bareNames_assigned] at hresolved
    exact hresolved

theorem fixed_of_staysInBand (htarget : ¬ [123] <:+ targetUrl)
    (hnone : ∀ s, Nested (.str s) payload → ¬ Refused targetUrl s)
    (hin : StaysInBand D targetUrl payload) {s : Str} (hs : Nested (.str s) payload)
    (hclear : ¬ Unclear D targetUrl (withTarget targetUrl s)) :
    Fixed D targetUrl (withTarget targetUrl s) := by
  by_contra hnot
  obtain ⟨htokens, hopen, -⟩ : Tokenized allowedNames s ∧ ¬ openBraces <:+: targetUrl ∧
      ¬ closeBraces <:+: targetUrl := by
    have hno := hnone s hs
    rwa [Refused, not_or, not_or, not_not] at hno
  have hplain := plain_of_not_suffix hopen htarget
  have hplaced := htokens.replaceStr (m := (lit "target_url", targetUrl)) (fun _ hname => hname)
    List.mem_cons_self hplain
  have hothers : ∀ name ∈ allowedNames.filter (· ≠ lit "target_url"), name ∈ otherNames := by decide
  obtain ⟨values, hvalues, hoff⟩ := exists_offTarget hplain hothers hplaced hclear hnot
  have hitems := plainValues hvalues hplain
  have hkeys : Tokenized ((Adversarial.assigned targetUrl values).items.map Prod.fst) s :=
    htokens.mono fun name hname _ => by
      obtain ⟨value, hvalue⟩ := hitems.all name hname
      exact List.mem_map_of_mem hvalue
  have hmem : (lit "target_url", targetUrl) ∈ (Adversarial.assigned targetUrl values).items :=
    List.mem_cons_self
  have hexpand := expand_replaceStr hitems.nodup hitems.names hmem hplain hkeys
  rw [hexpand] at hoff
  obtain ⟨resolved, hresolved⟩ := exists_resolved hvalues htarget hnone
  obtain ⟨w, hw, hsub⟩ := hs.substituted hresolved
  rw [substituteValue, substitutes hvalues htarget (hnone s hs)] at hsub
  cases hsub
  exact hin.assigned hvalues hresolved _ (.inl hw) hoff

theorem settled_of_staysInBand (hclear : Clear D targetUrl payload)
    (hin : StaysInBand D targetUrl payload) : SettledPayload D targetUrl payload := by
  by_cases hsome : ∃ s, Nested (.str s) payload ∧ Refused targetUrl s
  · exact .inl hsome
  have hnone (s : Str) (hs : Nested (.str s) payload) : ¬ Refused targetUrl s :=
    fun href => hsome ⟨s, hs, href⟩
  refine .inr ⟨fun s hs => ?_, fun key hkey => ?_⟩
  · rcases hclear.strings s hs with hsettled | hclearS
    · exact hsettled
    · exact .placed (fixed_of_staysInBand hclear.target hnone hin hs hclearS)
  · obtain ⟨resolved, hresolved⟩ := exists_resolved (fun _ => harmless_nil) hclear.target hnone
    exact passes_of_reads (hclear.keys key hkey)
      (hin.assigned (fun _ => harmless_nil) hresolved key (.inr (hkey.substituted hresolved)))

/-- Where the hosts of a payload are settled, or it is not substituted at all, no values take a
string of it off the target; and where that is clear of its strings, only there. -/
theorem staysInBand_iff_settled (D : UrlData) (probe : List (Str × Json φ)) (targetUrl : Str)
    (allowStateful : Bool)
    (haccept : checkNoExternalEndpoints D probe targetUrl allowStateful = .ok ())
    (payload : Json φ) (hpayload : Nested payload (.obj probe)) :
    (SettledPayload D targetUrl payload → StaysInBand D targetUrl payload) ∧
      (Clear D targetUrl payload →
        (StaysInBand D targetUrl payload ↔ SettledPayload D targetUrl payload)) := by
  have hsettled : SettledPayload D targetUrl payload → StaysInBand D targetUrl payload := by
    intro h vars hvars resolved hresolved t ht
    rcases h with ⟨s, hs, href⟩ | ⟨hstrings, hkeys⟩
    · obtain ⟨w, -, hsub⟩ := hs.substituted hresolved
      obtain ⟨t', hstr, -⟩ := bind_eq_ok_iff.mp hsub
      exact absurd href (not_refused hvars hstr)
    rcases ht.of_substituteValue hresolved with ⟨s, hs, hstr⟩ | hkey
    · exact not_offTarget_of_settled hvars hstr (rejectIfExternalUrl_of_nested (hs.trans hpayload)
        (check_of_checkNoExternalEndpoints haccept)) (hstrings s hs)
    · have hpasses := hkeys t hkey
      exact not_offTarget_of_checked hpasses.accepted hpasses.reads hpasses.blocked
  exact ⟨hsettled, fun hclear => ⟨settled_of_staysInBand hclear, hsettled⟩⟩

theorem Fixed.of_text {D : UrlData} {targetUrl s : Str} (hopen : cut? openBraces s = none)
    (hscheme : hasNoScheme s) : Fixed D targetUrl s := by
  refine .written (fun hmore => ?_) (passes_of_hasNoScheme hscheme)
  rw [textHead, hopen] at hmore
  cases hmore

/-- Two variables with a blank between them do not make a URL. -/
theorem fixed_twoNames : Fixed asciiUrls (lit "http://target.com")
    (token (lit "tool_name") ++ lit " " ++ token (lit "canary")) := by
  have hopen : cut? openBraces (token (lit "tool_name") ++ lit " " ++ token (lit "canary")) =
      some ([], lit "tool_name" ++ closeBraces ++ (lit " " ++ token (lit "canary"))) := by
    decide +kernel
  have hclose : cut? closeBraces
      (lit "tool_name" ++ closeBraces ++ (lit " " ++ token (lit "canary"))) =
        some (lit "tool_name", lit " " ++ token (lit "canary")) := cut?_name (by decide) _
  refine .spelled (by decide) hopen hclose (by decide +kernel) (by decide) fun x hx => ?_
  by_cases hnil : x = []
  · subst hnil
    have hopen : cut? openBraces ([] ++ ([] ++ (lit " " ++ token (lit "canary")))) =
        some (lit " ", lit "canary" ++ closeBraces ++ []) := by decide +kernel
    have hclose : cut? closeBraces (lit "canary" ++ closeBraces ++ []) = some (lit "canary", []) :=
      cut?_name (by decide) _
    refine .spelled (by decide) hopen hclose (by decide +kernel) (by decide) fun x hx => ?_
    have hall : ∀ x ∈ spellings, cut? openBraces (lit " " ++ (x ++ [])) = none ∧
        hasNoScheme (lit " " ++ (x ++ [])) := by
      decide +kernel
    obtain ⟨hnone, hscheme⟩ := hall x (mem_spellings hx)
    exact .of_text hnone hscheme
  · have hall : ∀ x ∈ spellings, x ≠ [] →
        neverUrl (textHead ([] ++ (x ++ (lit " " ++ token (lit "canary"))))).1 = true := by
      decide +kernel
    exact .never (hall x (mem_spellings hx) hnil)

/-- A payload with variables of its own and a URL of the target. -/
theorem staysInBand_iff_settled_fetch :
    StaysInBand asciiUrls (lit "http://target.com") (Json.obj (φ := Empty)
      [(lit "name", .str (token (lit "tool_name") ++ lit " " ++ token (lit "canary"))),
        (lit "url", .str (lit "http://target.com/x"))]) := by
  refine (staysInBand_iff_settled (φ := Empty) asciiUrls [(lit "payload", .obj
      [(lit "name", .str (token (lit "tool_name") ++ lit " " ++ token (lit "canary"))),
        (lit "url", .str (lit "http://target.com/x"))])]
    (lit "http://target.com") false rfl _ (.member List.mem_cons_self .self)).1 (.inr ⟨?_, ?_⟩)
  · intro s hs
    cases hs with
    | member hmem hs =>
      simp only [List.mem_cons, List.not_mem_nil, or_false] at hmem
      rcases hmem with rfl | rfl
      · cases hs
        have hplaced : withTarget (lit "http://target.com")
            (token (lit "tool_name") ++ lit " " ++ token (lit "canary")) =
              token (lit "tool_name") ++ lit " " ++ token (lit "canary") := by decide +kernel
        exact .placed (hplaced ▸ fixed_twoNames)
      · cases hs
        have hhost (host : Str) (hnames : NamesHost asciiUrls (lit "http://target.com/x") host) :
            host = lit "target.com" := by
          obtain ⟨-, h, hh, hlower, -⟩ := hnames
          have hread : Url.hostOf asciiUrls (strip (lit "http://target.com/x")) =
              some (lit "target.com") := by decide +kernel
          rw [hread] at hh
          cases hh
          rw [← hlower]
          decide +kernel
        refine .written (fun hmore => ?_) ⟨fun _ _ => by decide +kernel, fun _ => by decide +kernel⟩
          fun host hnames hlocal => ?_
        · have hnone : (textHead (lit "http://target.com/x")).2 = false := by decide +kernel
          rw [hnone] at hmore
          cases hmore
        · rw [hhost host hnames] at hlocal
          exact absurd hlocal (by decide +kernel)
  · rintro key ⟨ms, v, hms, hmem⟩
    cases hms with
    | self =>
      simp only [List.mem_cons, List.not_mem_nil, or_false] at hmem
      rcases hmem with hmem | hmem
      · cases hmem
        exact passes_of_hasNoScheme (by decide)
      · cases hmem
        exact passes_of_hasNoScheme (by decide)
    | member hin hms =>
      simp only [List.mem_cons, List.not_mem_nil, or_false] at hin
      rcases hin with rfl | rfl
      · cases hms
      · cases hms

theorem not_staysInBand_of_string {D : UrlData} {targetUrl key s t : Str}
    (hs : substituteStr (assigned targetUrl fun _ => []) s = .ok t)
    (hoff : OffTarget D targetUrl t) :
    ¬ StaysInBand D targetUrl (Json.obj (φ := φ) [(key, .str s)]) := by
  intro hin
  have hresolved : substituteValue (assigned targetUrl fun _ => [])
      (Json.obj (φ := φ) [(key, .str s)]) = .ok (.obj [(key, .str t)]) := by
    rw [substituteValue, substituteMembers, substituteMembers, substituteValue, hs]
    rfl
  exact hin.assigned (fun _ => harmless_nil) hresolved t
    (.inl (.member List.mem_cons_self .self)) hoff

/-- The host of the target becomes a user name, or a tab is in the scheme. -/
theorem accepted_off_target :
    (checkNoExternalEndpoints (φ := Empty) asciiUrls
        [(lit "payload", .obj [(lit "url", .str (token (lit "target_url") ++ lit "@evil.com/"))])]
        (lit "http://target.com") false = .ok () ∧
      ¬ StaysInBand asciiUrls (lit "http://target.com") (Json.obj (φ := Empty)
        [(lit "url", .str (token (lit "target_url") ++ lit "@evil.com/"))])) ∧
    checkNoExternalEndpoints (φ := Empty) asciiUrls
        [(lit "payload", .obj [(lit "url", .str (lit "ht\ttp://evil.com/cb"))])]
        (lit "http://target.com") false = .ok () ∧
      ¬ StaysInBand asciiUrls (lit "http://target.com") (Json.obj (φ := Empty)
        [(lit "url", .str (lit "ht\ttp://evil.com/cb"))]) := by
  refine ⟨⟨rfl, ?_⟩, rfl, ?_⟩
  · refine not_staysInBand_of_string (t := lit "http://target.com@evil.com/")
      (eq_ok_of_toOption (by decide +kernel)) ⟨lit "evil.com", ?_, .inl (by decide +kernel)⟩
    exact ⟨by decide +kernel, lit "evil.com", by decide +kernel, by decide +kernel, by decide⟩
  · refine not_staysInBand_of_string (t := lit "ht\ttp://evil.com/cb")
      (eq_ok_of_toOption (by decide +kernel)) ⟨lit "evil.com", ?_, .inl (by decide +kernel)⟩
    exact ⟨by decide +kernel, lit "evil.com", by decide +kernel, by decide +kernel, by decide⟩

end StaysInBand

end CosaiMcp.Adversarial
