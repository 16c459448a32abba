import CosaiMcp.Py.JsonRoundTrip
import CosaiMcp.Scorecard.Signing

/-!
# Does a signed scorecard verify after it was stored?

A scorecard that is signed, written as JSON, read and parsed has its signature and its texts, but
`ControlVerdict.fromDict` reads an empty digest as none. The bytes that the signature covers are the
same exactly if the report has no such digest (`roundTrips_iff`).
-/

namespace CosaiMcp.Scorecard

open Py Assurance

variable {φ κ : Type}

/-! ## What comes back -/

theorem mergePairs_eq_nil {s : Str} : mergePairs s = [] ↔ s = [] := by
  refine ⟨fun h => ?_, fun h => by rw [h]; rfl⟩
  unfold mergePairs at h
  split at h
  · rfl
  · cases h
  · split at h <;> cases h

namespace ControlVerdict

theorem collapsed_reloaded (v : Assurance.ControlVerdict) :
    v.reloaded.collapsed = v.collapsed.reloaded := by
  have hevidence : (v.evidenceSha256.map mergePairs).filter (· ≠ []) =
      (v.evidenceSha256.filter (· ≠ [])).map mergePairs := by
    cases v.evidenceSha256 with
    | none => rfl
    | some s =>
      by_cases hs : s = []
      · subst hs; rfl
      · have hmerged : mergePairs s ≠ [] := fun h => hs (mergePairs_eq_nil.mp h)
        simp [Option.filter, hs, hmerged]
  exact congrArg (fun e => { v.reloaded with evidenceSha256 := e }) hevidence

end ControlVerdict

theorem collapsed_reloaded_report (r : AssuranceReport (Json φ)) :
    r.reloaded.collapsed = r.collapsed.reloaded := by
  have hcontrols : (r.controls.map Assurance.ControlVerdict.reloaded).map
      Assurance.ControlVerdict.collapsed =
        (r.controls.map Assurance.ControlVerdict.collapsed).map
          Assurance.ControlVerdict.reloaded := by
    rw [List.map_map, List.map_map]
    exact List.map_congr_left fun v _ => ControlVerdict.collapsed_reloaded v
  exact congrArg (fun cs => { r.reloaded with controls := cs }) hcontrols

theorem collapsed_reloaded (s : Scorecard φ) : s.reloaded.collapsed = s.collapsed.reloaded := by
  have hassurance : (s.assurance.map AssuranceReport.reloaded).map AssuranceReport.collapsed =
      (s.assurance.map AssuranceReport.collapsed).map AssuranceReport.reloaded := by
    rw [Option.map_map, Option.map_map]
    exact congrArg (fun f => s.assurance.map f) (funext collapsed_reloaded_report)
  exact congrArg (fun a => { s.reloaded with assurance := a }) hassurance

theorem NativeScope.collapsed {s : Scorecard φ} (h : s.NativeScope) : s.collapsed.NativeScope := by
  intro r hr
  obtain ⟨r', hr', rfl⟩ := Option.map_eq_some_iff.mp hr
  exact h r' hr'

theorem reload_signableDict {s : Scorecard φ} (h : s.NativeScope) :
    (signableDict s).reload = signableDict s.reloaded := by
  rw [signableDict_eq, signableDict_eq]
  have hmembers := Scorecard.reload_members h [] (.inl rfl)
  rwa [List.append_nil, List.map_nil, List.append_nil] at hmembers

theorem keysStable_signableDict {s : Scorecard φ} (h : s.NativeScope) :
    (signableDict s).KeysStable := by
  rw [signableDict_eq]
  refine keysStable_record (nodup_signable s) (by cases s.assurance <;> rfl) ?_
  have hcategories : (Json.arr (s.categories.map CategoryResult.toDict) : Json φ).KeysStable := by
    refine .arr fun j hj => ?_
    obtain ⟨c, -, rfl⟩ := List.mem_map.mp hj
    exact c.keysStable_toDict
  intro m hm
  rcases List.mem_append.mp hm with hm | hm
  · have hhead : ∀ m ∈ s.head, m.2.KeysStable := by
      simp only [Scorecard.head, List.forall_mem_cons]
      exact ⟨.str _, .str _, .str _, .str _, .str _, hcategories, .str _, List.forall_mem_nil _⟩
    exact hhead m hm
  · cases hr : s.assurance with
    | none => rw [hr] at hm; cases hm
    | some r =>
      rw [hr] at hm
      cases List.mem_singleton.mp hm
      exact AssuranceReport.keysStable_toDict (h r hr)

/-! ## The bytes -/

/-- Documents of one canonical text have the same under a key that both have. -/
theorem sorted_member {ms ns : List (Str × Json φ)} (hms : (ms.map Prod.fst).Nodup)
    (hns : (ns.map Prod.fst).Nodup) (h : (Json.obj ms).sorted = (Json.obj ns).sorted) {k : Str}
    {v w : Json φ} (hv : (Json.obj ms).get? k = some v) (hw : (Json.obj ns).get? k = some w) :
    v.sorted = w.sorted := by
  have hk := (Json.sorted_obj_eq_iff hms hns).mp h k
  rw [hv, hw] at hk
  exact Option.some.inj hk

theorem sorted_toDict_verdict {v w : Assurance.ControlVerdict}
    (h : (v.toDict : Json φ).sorted = w.toDict.sorted) : v.evidenceSha256 = w.evidenceSha256 := by
  have hn : ∀ v : Assurance.ControlVerdict, ∃ ms : List (Str × Json φ), v.toDict = .obj ms ∧
      (ms.map Prod.fst).Nodup ∧
      (Json.obj ms).get? (lit "evidence_sha256") = some (optText v.evidenceSha256) := by
    intro v
    exact ⟨_, rfl, by simp only [List.map_cons, List.map_nil]; decide, rfl⟩
  obtain ⟨ms, hms, hmsn, hget⟩ := hn v
  obtain ⟨ns, hns, hnsn, hget'⟩ := hn w
  rw [hms, hns] at h
  have hsorted := sorted_member hmsn hnsn h hget hget'
  cases hv : v.evidenceSha256 <;> cases hw : w.evidenceSha256 <;> rw [hv, hw] at hsorted
  all_goals first | rfl | cases hsorted
  rfl

theorem sorted_toDict_report {r r' : AssuranceReport (Json φ)}
    (h : r.toDict.sorted = r'.toDict.sorted) :
    r.controls.map Assurance.ControlVerdict.evidenceSha256 =
      r'.controls.map Assurance.ControlVerdict.evidenceSha256 := by
  have hn : ∀ r : AssuranceReport (Json φ), ∃ ms : List (Str × Json φ), r.toDict = .obj ms ∧
      (ms.map Prod.fst).Nodup ∧ (Json.obj ms).get? (lit "controls") =
        some (.arr (r.controls.map Assurance.ControlVerdict.toDict)) := by
    intro r
    exact ⟨_, rfl, by simp only [List.map_cons, List.map_nil]; decide, rfl⟩
  obtain ⟨ms, hms, hmsn, hget⟩ := hn r
  obtain ⟨ns, hns, hnsn, hget'⟩ := hn r'
  rw [hms, hns] at h
  have hsorted := sorted_member hmsn hnsn h hget hget'
  rw [Json.sorted, Json.sorted, Json.sortedItems_eq, Json.sortedItems_eq, Json.arr.injEq,
    List.map_map, List.map_map] at hsorted
  rw [← List.forall₂_eq_eq_eq, List.forall₂_map_left_iff, List.forall₂_map_right_iff] at hsorted ⊢
  exact hsorted.imp fun v w hvw => sorted_toDict_verdict hvw

variable [PyFloat φ]

/-- The bytes without the empty digests. -/
theorem canonical_collapsed_iff {s : Scorecard φ} (h : s.NativeScope) :
    (signableDict s.collapsed).canonical = (signableDict s).canonical ↔
      ∀ r ∈ s.assurance, ∀ c ∈ r.controls, c.evidenceSha256 ≠ some [] := by
  constructor
  · intro hcanonical r hr c hc hempty
    have hsorted := reload_sorted_of_canonical_eq hcanonical
    rw [(keysStable_signableDict h.collapsed).reload_sorted,
      (keysStable_signableDict h).reload_sorted, reload_signableDict h.collapsed,
      reload_signableDict h, signableDict_eq, signableDict_eq] at hsorted
    have hget : ∀ s : Scorecard φ, s.assurance = some r → (Json.obj (s.reloaded.head ++
        assuranceMember s.reloaded.assurance)).get? (lit "assurance") =
          some r.reloaded.toDict := by
      intro s hs
      rw [Scorecard.reloaded, hs]
      rfl
    have hget' : (Json.obj (s.collapsed.reloaded.head ++
        assuranceMember s.collapsed.reloaded.assurance)).get? (lit "assurance") =
          some r.collapsed.reloaded.toDict := by
      rw [Scorecard.collapsed, Scorecard.reloaded, hr]
      rfl
    have hreports := sorted_toDict_report (sorted_member (nodup_signable _) (nodup_signable _)
      hsorted hget' (hget s hr))
    -- the digest of `c` is gone on one side only
    rw [AssuranceReport.reloaded, AssuranceReport.collapsed, AssuranceReport.reloaded,
      List.map_map, List.map_map, List.map_map, List.map_inj_left] at hreports
    have hdigest := hreports c hc
    simp only [Function.comp_apply, Assurance.ControlVerdict.reloaded,
      Assurance.ControlVerdict.collapsed, hempty] at hdigest
    cases hdigest
  · intro hdigests
    have hcollapsed : s.collapsed = s := by
      have hassurance : s.assurance.map AssuranceReport.collapsed = s.assurance := by
        cases hr : s.assurance with
        | none => rfl
        | some r =>
          have hcontrols : r.controls.map Assurance.ControlVerdict.collapsed = r.controls := by
            refine (List.map_congr_left fun c hc => ?_).trans (List.map_id _)
            have hc' := hdigests r hr c hc
            have hevidence : c.evidenceSha256.filter (· ≠ []) = c.evidenceSha256 := by
              cases he : c.evidenceSha256 with
              | none => rfl
              | some e =>
                have hne : e ≠ [] := fun h0 => hc' (he.trans (congrArg some h0))
                simp [Option.filter, hne]
            exact congrArg (fun e => { c with evidenceSha256 := e }) hevidence
          exact congrArg some (congrArg (fun cs => { r with controls := cs }) hcontrols)
      exact congrArg (fun a => { s with assurance := a }) hassurance
    rw [hcollapsed]

/-! ## The round trip -/

/-- What comes back of a signed scorecard has the bytes that were signed, and is accepted under the
signer's key. -/
structure RoundTrips (E : Ed25519 κ) (B : Builtins φ) (k : κ) (s : Scorecard φ) (d : Json φ)
    (s' : Scorecard φ) : Prop where
  reads : loads (signWith E k s).toDict.text = some d
  parsed : Scorecard.fromDict B d = .ok s'
  bytes : canonicalBytes (signableDict s') = canonicalBytes (signableDict s)
  accepted : verifyAgainst E (.ok (some (E.publicBytes k))) s' = .ok ()

theorem isScalar_hexOf (b : Bytes) : isScalar (hexOf b) = true := by
  refine isScalar_of_isAscii (List.all_eq_true.mpr fun c hc => ?_)
  obtain ⟨x, -, hx⟩ := List.mem_flatMap.mp hc
  have hdigits : ∀ n : Fin 16, decide ((hexDigit n.val).val < 0x80) = true := by decide
  rcases List.mem_cons.mp hx with rfl | hx
  · exact hdigits ⟨x.val / 16, by omega⟩
  · cases List.mem_singleton.mp hx
    exact hdigits ⟨x.val % 16, by omega⟩

theorem mergePairs_hexOf (b : Bytes) : mergePairs (hexOf b) = hexOf b :=
  mergePairs_eq_self (noPair_of_isScalar (isScalar_hexOf b))

theorem hexOf_ne_nil {b : Bytes} (h : 0 < b.length) : (hexOf b).isEmpty = false := by
  obtain ⟨x, b, rfl⟩ := List.exists_cons_of_length_pos h
  rfl

/-- What is read of a signed scorecard. -/
theorem read_signed (E : Ed25519 κ) (B : Builtins φ) (k : κ) {s : Scorecard φ}
    (h : s.NativeScope) :
    loads (signWith E k s).toDict.text = some (signWith E k s).reloaded.toDict ∧
    Scorecard.fromDict B (signWith E k s).reloaded.toDict =
      .ok (signWith E k s).reloaded.collapsed := by
  have hnative : (signWith E k s).NativeScope := h
  refine ⟨?_, Scorecard.fromDict_toDict B _⟩
  rw [loads_text, Scorecard.reload_toDict hnative]

/-- Its bytes are those without the empty digests. -/
theorem canonical_read (E : Ed25519 κ) (k : κ) {s : Scorecard φ} (h : s.NativeScope) :
    (signableDict (signWith E k s).reloaded.collapsed).canonical =
      (signableDict s.collapsed).canonical := by
  have hsame : signableDict (signWith E k s).reloaded.collapsed =
      signableDict s.collapsed.reloaded := by
    rw [signableDict_eq, signableDict_eq, ← Scorecard.collapsed_reloaded]
    rfl
  rw [hsame, ← reload_signableDict h.collapsed,
    (keysStable_signableDict h.collapsed).canonical_reload]

theorem roundTrips_iff_canonical (E : Ed25519 κ) (B : Builtins φ) (k : κ) {s : Scorecard φ}
    (h : s.NativeScope) :
    (∃ d s', RoundTrips E B k s d s') ↔
      (signableDict s.collapsed).canonical = (signableDict s).canonical := by
  obtain ⟨hreads, hparsed⟩ := read_signed E B k h
  rw [← canonical_read E k h]
  constructor
  · rintro ⟨d, s', hr⟩
    cases hreads.symm.trans hr.reads
    cases hparsed.symm.trans hr.parsed
    exact canonicalBytes_inj.mp hr.bytes
  · intro hcanonical
    have hbytes := canonicalBytes_inj.mpr hcanonical
    refine ⟨_, _, hreads, hparsed, hbytes, verifyAgainst_eq_ok_iff.mpr ⟨?_, ?_, ?_⟩⟩
    · have hpublic : (mergePairs (hexOf (E.publicBytes k))).isEmpty = false := by
        rw [mergePairs_hexOf]
        exact hexOf_ne_nil (by rw [E.length_publicBytes]; decide)
      have hsignature : (mergePairs (hexOf (E.sign k (canonicalBytes (signableDict s))))).isEmpty =
          false := by
        rw [mergePairs_hexOf]
        exact hexOf_ne_nil (by rw [E.length_sign]; decide)
      have hsigned : (signWith E k s).reloaded.collapsed.isSigned =
          (!(mergePairs (hexOf (E.sign k (canonicalBytes (signableDict s))))).isEmpty &&
            !(mergePairs (hexOf (E.publicBytes k))).isEmpty) := rfl
      rw [hsigned, hpublic, hsignature]
      rfl
    · exact (congrArg fromHex (mergePairs_hexOf _)).trans (fromHex_hexOf _)
    · refine ⟨E.sign k (canonicalBytes (signableDict s)), ?_, ?_⟩
      · exact (congrArg fromHex (mergePairs_hexOf _)).trans (fromHex_hexOf _)
      · rw [hbytes]
        exact E.verify_sign k _

/-- A signed scorecard comes back with the bytes that were signed, and verifies, exactly if no
control of its report has an empty digest of its evidence. -/
theorem roundTrips_iff (E : Ed25519 κ) (B : Builtins φ) (k : κ) (s : Scorecard φ)
    (h : s.NativeScope) :
    (∃ d s', RoundTrips E B k s d s') ↔
      ∀ r ∈ s.assurance, ∀ c ∈ r.controls, c.evidenceSha256 ≠ some [] :=
  (roundTrips_iff_canonical E B k h).trans (canonical_collapsed_iff h)

section Example

def scheme : Ed25519 Unit :=
  { publicBytes := fun _ => List.replicate 32 0
    sign := fun _ _ => List.replicate 64 0
    verify := fun _ _ _ => true
    verify_sign := fun _ _ => rfl
    length_publicBytes := fun _ => rfl
    length_sign := fun _ _ => rfl }

/-- A report with one control, attested with this digest. -/
private def attested (sha256 : Str) : AssuranceReport (Json WholeFloat) :=
  ⟨1, .metWithAttestation, [],
    [⟨lit "AU-01", [], [], some .must, .attested, [], [], some sha256⟩], Dict.empty⟩

private def card (sha256 : Str) : Scorecard WholeFloat :=
  ⟨[], lit "http://t", [], [], [], [], .insufficientCoverage, [], [], some (attested sha256)⟩

private theorem nativeScope_card (sha256 : Str) : (card sha256).NativeScope := by
  intro r hr
  cases hr
  exact .obj List.nodup_nil nofun nofun

theorem roundTrips_iff_attested :
    (∃ d s', RoundTrips scheme textBuiltins () (card (lit "e3b0")) d s') ↔
      ∀ r ∈ (card (lit "e3b0")).assurance, ∀ c ∈ r.controls, c.evidenceSha256 ≠ some [] :=
  roundTrips_iff scheme textBuiltins () (card (lit "e3b0")) (nativeScope_card _)

/-- A scorecard with an empty digest is not accepted after it was stored. -/
theorem empty_digest_changes_bytes :
    ¬ ∀ (result : Scan.ScanResult WholeFloat Unit Unit) (s : Scorecard WholeFloat),
      buildScorecard [] none result = .ok s → s.NativeScope →
        ∃ d s', RoundTrips scheme textBuiltins () s d s' := by
  intro h
  let result : Scan.ScanResult WholeFloat Unit Unit :=
    ⟨lit "http://t", [], [], [], [], [], 0, some (attested [])⟩
  obtain ⟨s, hs, hassurance⟩ : ∃ s, buildScorecard [] none result = .ok s ∧
      s.assurance = some (attested []) := ⟨_, rfl, rfl⟩
  have hnative : s.NativeScope := by
    intro r hr
    cases hassurance.symm.trans hr
    exact .obj List.nodup_nil nofun nofun
  have hdigests := (canonical_collapsed_iff hnative).mp
    ((roundTrips_iff_canonical scheme textBuiltins () hnative).mp (h result s hs hnative))
  exact hdigests _ hassurance _ List.mem_cons_self rfl

end Example

end CosaiMcp.Scorecard
