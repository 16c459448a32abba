import CosaiMcp.Scorecard.RoundTrip
import CosaiMcp.Scorecard.Written

/-!
# Does a signature bind the file?

The signature of a scorecard is checked over what `fromDict` made of the file, written again. So a
file that verifies is the document that was signed exactly if it has the form that `toDict` writes
(`NormalCard`): no other keys, no value that is converted, defaulted or recomputed.
-/

namespace CosaiMcp.Scorecard

open Py Assurance

variable {φ κ : Type} (B : Builtins φ)

/-! ## Verdicts -/

def verdictKeys : List Str :=
  [lit "control_id", lit "dimension", lit "title", lit "strength", lit "verdict", lit "reason",
    lit "linked_results", lit "evidence_sha256"]

/-- A verdict as it is written. -/
structure NormalVerdict (d : Json φ) : Prop where
  keys : OnlyKeys d verdictKeys
  controlId : HasText d (lit "control_id")
  dimension : HasText d (lit "dimension")
  title : HasText d (lit "title")
  strength : HasOptText d (lit "strength")
  reason : HasText d (lit "reason")
  linkedResults : HasTexts d (lit "linked_results")
  evidence : HasOptText d (lit "evidence_sha256")

theorem isScalar_strength (s : Strength) : isScalar s.value = true := by
  cases s <;> rfl

theorem isScalar_verdict (v : Verdict) : isScalar v.value = true := by
  cases v <;> rfl

theorem same_verdict_iff [PyFloat φ] {d : Json φ} (hd : d.Stable) {v : ControlVerdict}
    (h : ControlVerdict.fromDict B d = .ok v) : Same d v.toDict ↔ NormalVerdict d := by
  unfold ControlVerdict.fromDict at h
  obtain ⟨strength, hstrength, h⟩ := bind_eq_ok_iff.mp h
  obtain ⟨controlId, hcontrolId, h⟩ := bind_eq_ok_iff.mp h
  obtain ⟨dimension, hdimension, h⟩ := bind_eq_ok_iff.mp h
  obtain ⟨title, htitle, h⟩ := bind_eq_ok_iff.mp h
  obtain ⟨strength', hstrength', h⟩ := bind_eq_ok_iff.mp h
  obtain ⟨verdict, hverdict, h⟩ := bind_eq_ok_iff.mp h
  obtain ⟨verdict', hverdict', h⟩ := bind_eq_ok_iff.mp h
  obtain ⟨reason, hreason, h⟩ := bind_eq_ok_iff.mp h
  obtain ⟨linked, hlinked, h⟩ := bind_eq_ok_iff.mp h
  obtain ⟨linked', hlinked', h⟩ := bind_eq_ok_iff.mp h
  obtain ⟨evidence, hevidence, h⟩ := bind_eq_ok_iff.mp h
  cases h
  have icontrolId := member_text_iff B hd (reads_of_subscript hcontrolId)
  have idimension := member_text_iff B hd (reads_of_getDefault hdimension)
  have ititle := member_text_iff B hd (reads_of_getDefault htitle)
  have istrength := member_optEnum_iff isScalar_strength hd (reads_of_getDefault hstrength)
    hstrength'
  have ireason := member_text_iff B hd (reads_of_getDefault hreason)
  have ilinked := member_texts_iff B hd (reads_of_getDefault hlinked) hlinked'
  have ievidence := member_optText_iff B hd (reads_of_getDefault hevidence)
  rw [ControlVerdict.toDict, same_record_iff hd (exists_obj_of_getDefault hstrength)
    (by simp only [List.map_cons, List.map_nil]; decide) rfl]
  simp only [List.forall_mem_cons]
  constructor
  · rintro ⟨hkeys, h1, h2, h3, h4, -, h6, h7, h8, -⟩
    exact ⟨hkeys, icontrolId.mp h1, idimension.mp h2, ititle.mp h3, istrength.mp h4, ireason.mp h6,
      ilinked.mp h7, ievidence.mp h8⟩
  · intro hn
    exact ⟨hn.keys, icontrolId.mpr hn.controlId, idimension.mpr hn.dimension,
      ititle.mpr hn.title, istrength.mpr hn.strength,
      member_enum isScalar_verdict hverdict hverdict', ireason.mpr hn.reason,
      ilinked.mpr hn.linkedResults, ievidence.mpr hn.evidence, List.forall_mem_nil _⟩

/-! ## Reports -/

/-- `j` has the text `s` under `key`. -/
def hasText (j : Json φ) (key s : Str) : Bool :=
  match j.get? key with
  | some (.str t) => t = s
  | _ => false

/-- The verdicts of this value among the controls that are musts. -/
def countIn (js : List (Json φ)) (verdict : Str) : Nat :=
  js.countP fun j => hasText j (lit "strength") (lit "must") && hasText j (lit "verdict") verdict

/-- The counts are those of the controls that the file lists. -/
structure NormalCounts (js : List (Json φ)) (d : Json φ) : Prop where
  obj : ∃ ms, d = .obj ms
  keys : OnlyKeys d (counted.map Verdict.value)
  counts : ∀ v ∈ counted, d.get? v.value = some (.int (countIn js v.value))

def reportKeys : List Str :=
  [lit "claimed_level", lit "result", lit "profile_version", lit "must_counts", lit "scope",
    lit "controls"]

/-- A report as it is written. -/
structure NormalReport (d : Json φ) : Prop where
  keys : OnlyKeys d reportKeys
  claimedLevel : HasInt d (lit "claimed_level")
  profileVersion : HasText d (lit "profile_version")
  scope : HasObject d (lit "scope")
  controls : HasArray d (lit "controls") NormalVerdict
  mustCounts : ∀ js, d.get? (lit "controls") = some (.arr js) →
    ∃ w, d.get? (lit "must_counts") = some w ∧ NormalCounts js w

theorem hasText_of_subscript {d x : Json φ} {key s : Str} (h : subscript d key = .ok x) :
    hasText d key s = true ↔ x = .str s := by
  cases d with
  | obj ms =>
    unfold hasText
    rw [subscript] at h
    split at h
    · cases h
    · next v hv =>
      rw [hv, ← Except.ok.inj h]
      cases v <;> simp
  | _ => cases h

theorem hasText_of_getDefault {d x : Json φ} {key s : Str} (h : getDefault d key .null = .ok x) :
    hasText d key s = true ↔ x = .str s := by
  cases d with
  | obj ms =>
    cases h
    unfold hasText
    cases (Json.obj ms).get? key with
    | none => exact ⟨nofun, nofun⟩
    | some v => cases v <;> simp
  | _ => cases h

theorem enumMember_eq_ok_iff {α : Type} {members : List α} {value : α → Str} {x : Json φ} {a b : α}
    (hinj : ∀ a b, value a = value b → a = b)
    (h : enumMember members value x = .ok a) : a = b ↔ x = .str (value b) := by
  unfold enumMember at h
  split at h
  · next s =>
    split at h
    · cases h
    · next c hc =>
      cases h
      have hs : value a = s := of_decide_eq_true (List.find?_some hc :)
      rw [← hs, Json.str.injEq]
      exact ⟨congrArg value, hinj a b⟩
  · cases h

theorem strength_value_inj (s t : Strength) (h : s.value = t.value) : s = t := by
  cases s <;> cases t <;> first | rfl | exact absurd (lit_inj.mp h) (by decide)

theorem verdict_value_inj (v w : Verdict) (h : v.value = w.value) : v = w := by
  cases v <;> cases w <;> first | rfl | exact absurd (lit_inj.mp h) (by decide)

theorem isMust_iff [PyFloat φ] {x : Json φ} {s : Option Strength}
    (h : ifTruthy x (enumMember [.must, .should] Strength.value) = .ok s) :
    s = some .must ↔ x = .str (lit "must") := by
  unfold ifTruthy at h
  by_cases ht : x.truthy = true
  · rw [if_pos ht] at h
    cases hm : enumMember [.must, .should] Strength.value x with
    | error e => rw [hm] at h; cases h
    | ok b =>
      rw [hm] at h
      cases h
      rw [Option.some.injEq]
      exact enumMember_eq_ok_iff strength_value_inj hm
  · rw [if_neg ht] at h
    cases h
    refine ⟨nofun, fun hx => ?_⟩
    rw [hx] at ht
    exact absurd rfl ht

/-- A control is counted by what the file says of it. -/
theorem isCounted_eq [PyFloat φ] {d : Json φ} {c : ControlVerdict}
    (h : ControlVerdict.fromDict B d = .ok c) (v : Verdict) :
    (hasText d (lit "strength") (lit "must") && hasText d (lit "verdict") v.value) =
      (decide (c.verdict = v) && c.isMust) := by
  unfold ControlVerdict.fromDict at h
  obtain ⟨strength, hstrength, h⟩ := bind_eq_ok_iff.mp h
  obtain ⟨controlId, -, h⟩ := bind_eq_ok_iff.mp h
  obtain ⟨dimension, -, h⟩ := bind_eq_ok_iff.mp h
  obtain ⟨title, -, h⟩ := bind_eq_ok_iff.mp h
  obtain ⟨strength', hstrength', h⟩ := bind_eq_ok_iff.mp h
  obtain ⟨verdict, hverdict, h⟩ := bind_eq_ok_iff.mp h
  obtain ⟨verdict', hverdict', h⟩ := bind_eq_ok_iff.mp h
  obtain ⟨reason, -, h⟩ := bind_eq_ok_iff.mp h
  obtain ⟨linked, -, h⟩ := bind_eq_ok_iff.mp h
  obtain ⟨linked', -, h⟩ := bind_eq_ok_iff.mp h
  obtain ⟨evidence, -, h⟩ := bind_eq_ok_iff.mp h
  cases h
  rw [Bool.eq_iff_iff, Bool.and_eq_true, Bool.and_eq_true, hasText_of_getDefault hstrength,
    hasText_of_subscript hverdict, ← isMust_iff hstrength', decide_eq_true_eq,
    enumMember_eq_ok_iff verdict_value_inj hverdict', ControlVerdict.isMust, decide_eq_true_eq]
  exact and_comm

theorem countMust_eq [PyFloat φ] {js : List (Json φ)} {cs : List ControlVerdict}
    (h : js.mapM (ControlVerdict.fromDict B) = .ok cs) (v : Verdict) :
    (countMust cs v : Json φ) = .int (countIn js v.value) := by
  have hcount : cs.countP (fun c => decide (c.verdict = v) && c.isMust) = countIn js v.value := by
    rw [countIn]
    induction js generalizing cs with
    | nil => cases h; rfl
    | cons j js ih =>
      rw [List.mapM_cons] at h
      obtain ⟨c, hc, h⟩ := bind_eq_ok_iff.mp h
      obtain ⟨cs', hcs, h⟩ := bind_eq_ok_iff.mp h
      cases h
      rw [List.countP_cons, List.countP_cons, ih hcs, isCounted_eq B hc v]
  rw [countMust, List.countP_filter, hcount]

theorem same_counts_iff [PyFloat φ] {d : Json φ} {js : List (Json φ)} {cs : List ControlVerdict}
    (hd : d.Stable) (h : js.mapM (ControlVerdict.fromDict B) = .ok cs) :
    Same d (.obj (counted.map fun v => (v.value, countMust cs v))) ↔ NormalCounts js d := by
  have hkeys : (counted.map fun v => (v.value, (countMust cs v : Json φ))).map Prod.fst =
      counted.map Verdict.value := by
    rw [List.map_map]
    rfl
  have hrecord : (∃ ms, d = .obj ms) →
      (Same d (.obj (counted.map fun v => (v.value, countMust cs v))) ↔ NormalCounts js d) := by
    intro hobj
    rw [same_record_iff hd hobj (AssuranceReport.nodup_counts cs) rfl, hkeys, List.forall_mem_map]
    simp only [countMust_eq B h, same_int]
    constructor
    · rintro ⟨honly, hcounts⟩
      refine ⟨hobj, honly, fun v hv => ?_⟩
      obtain ⟨w, hw, rfl⟩ := hcounts v hv
      exact hw
    · exact fun hn => ⟨hn.keys, fun v hv => ⟨_, hn.counts v hv, rfl⟩⟩
  constructor
  · intro hs
    have hs' := hs
    rw [Same, Json.sorted_obj] at hs'
    exact (hrecord (sorted_eq_obj hs')).mp hs
  · exact fun hn => (hrecord hn.obj).mpr hn

theorem isScalar_levelResult (l : LevelResult) : isScalar l.value = true := by
  cases l <;> rfl

theorem same_report_iff [PyFloat φ] {d : Json φ} (hd : d.Stable) {r : AssuranceReport (Json φ)}
    (h : AssuranceReport.fromDict B d = .ok r) : Same d r.toDict ↔ NormalReport d := by
  unfold AssuranceReport.fromDict at h
  obtain ⟨level, hlevel, h⟩ := bind_eq_ok_iff.mp h
  obtain ⟨level', hlevel', h⟩ := bind_eq_ok_iff.mp h
  obtain ⟨result, hresult, h⟩ := bind_eq_ok_iff.mp h
  obtain ⟨result', hresult', h⟩ := bind_eq_ok_iff.mp h
  obtain ⟨version, hversion, h⟩ := bind_eq_ok_iff.mp h
  obtain ⟨controls, hcontrols, h⟩ := bind_eq_ok_iff.mp h
  obtain ⟨js, hjs, h⟩ := bind_eq_ok_iff.mp h
  obtain ⟨cs, hcs, h⟩ := bind_eq_ok_iff.mp h
  obtain ⟨scope, hscope, h⟩ := bind_eq_ok_iff.mp h
  obtain ⟨scope', hscope', h⟩ := bind_eq_ok_iff.mp h
  cases h
  have ilevel := member_int_iff B hd (reads_of_subscript hlevel) hlevel'
  have iversion := member_text_iff B hd (reads_of_getDefault hversion)
  have iscope := member_dict_iff B hd (reads_of_getDefault hscope) hscope'
  have icontrols := member_array_iff hd (reads_of_getDefault hcontrols) hjs hcs
    fun j hj b hb => same_verdict_iff B hj hb
  -- the counts are not read; the controls that were read are those of the file
  have icounts : ∀ is, d.get? (lit "controls") = some (.arr is) →
      ((∃ w, d.get? (lit "must_counts") = some w ∧
        Same w (.obj (counted.map fun v => (v.value, countMust cs v)))) ↔
          ∃ w, d.get? (lit "must_counts") = some w ∧ NormalCounts is w) := by
    intro is his
    have hread := reads_of_getDefault hcontrols _ his
    rw [hread] at hjs
    cases hjs
    exact exists_congr fun w => and_congr_right fun hw =>
      same_counts_iff B (stable_of_get? hd hw) hcs
  rw [AssuranceReport.toDict, same_record_iff hd (exists_obj_of_subscript hlevel)
    (by simp only [List.map_cons, List.map_nil]; decide) rfl]
  simp only [List.forall_mem_cons]
  constructor
  · rintro ⟨hkeys, h1, -, h3, h4, h5, h6, -⟩
    exact ⟨hkeys, ilevel.mp h1, iversion.mp h3, iscope.mp h5, icontrols.mp h6,
      fun is his => (icounts is his).mp h4⟩
  · intro hn
    obtain ⟨is, his, -⟩ := hn.controls
    exact ⟨hn.keys, ilevel.mpr hn.claimedLevel, member_enum isScalar_levelResult hresult hresult',
      iversion.mpr hn.profileVersion, (icounts is his).mpr (hn.mustCounts is his),
      iscope.mpr hn.scope, icontrols.mpr hn.controls, List.forall_mem_nil _⟩

theorem nativeScope_of_fromDict [PyFloat φ] {d : Json φ} (hd : d.Stable)
    {r : AssuranceReport (Json φ)} (h : AssuranceReport.fromDict B d = .ok r)
    (hobj : HasObject d (lit "scope")) : r.NativeScope := by
  unfold AssuranceReport.fromDict at h
  obtain ⟨level, -, h⟩ := bind_eq_ok_iff.mp h
  obtain ⟨level', -, h⟩ := bind_eq_ok_iff.mp h
  obtain ⟨result, -, h⟩ := bind_eq_ok_iff.mp h
  obtain ⟨result', -, h⟩ := bind_eq_ok_iff.mp h
  obtain ⟨version, -, h⟩ := bind_eq_ok_iff.mp h
  obtain ⟨controls, -, h⟩ := bind_eq_ok_iff.mp h
  obtain ⟨js, -, h⟩ := bind_eq_ok_iff.mp h
  obtain ⟨cs, -, h⟩ := bind_eq_ok_iff.mp h
  obtain ⟨scope, hscope, h⟩ := bind_eq_ok_iff.mp h
  obtain ⟨scope', hscope', h⟩ := bind_eq_ok_iff.mp h
  cases h
  obtain ⟨ms, hms⟩ := hobj
  have hstable := stable_of_get? hd hms
  rw [reads_of_getDefault hscope _ hms] at hscope'
  rw [AssuranceReport.NativeScope, items_of_dict B hstable.1 hscope']
  exact hstable.keysStable

/-! ## Categories -/

def mappingKeys : List Str := [lit "owasp_mcp_top10", lit "nist_ai_rmf"]

structure NormalMapping (d : Json φ) : Prop where
  keys : OnlyKeys d mappingKeys
  owaspMcpTop10 : HasText d (lit "owasp_mcp_top10")
  nistAiRmf : HasTexts d (lit "nist_ai_rmf")

def categoryKeys : List Str :=
  [lit "category", lit "grade", lit "probe_count", lit "finding_count", lit "critical_count",
    lit "high_count", lit "coverage_engine", lit "inconclusive_count", lit "compliance_mapping"]

/-- A category as it is written. -/
structure NormalCategory (d : Json φ) : Prop where
  keys : OnlyKeys d categoryKeys
  category : HasText d (lit "category")
  probeCount : HasInt d (lit "probe_count")
  findingCount : HasInt d (lit "finding_count")
  criticalCount : HasInt d (lit "critical_count")
  highCount : HasInt d (lit "high_count")
  coverageEngine : HasText d (lit "coverage_engine")
  inconclusiveCount : HasInt d (lit "inconclusive_count")
  complianceMapping : ∃ w, d.get? (lit "compliance_mapping") = some w ∧
    (w = .null ∨ NormalMapping w)

theorem same_mapping_iff {d : Json φ} (hd : d.Stable) {m : ComplianceMapping}
    (h : ComplianceMapping.fromDict B d = .ok m) : Same d m.toDict ↔ NormalMapping d := by
  unfold ComplianceMapping.fromDict at h
  obtain ⟨owasp, howasp, h⟩ := bind_eq_ok_iff.mp h
  obtain ⟨nist, hnist, h⟩ := bind_eq_ok_iff.mp h
  obtain ⟨nist', hnist', h⟩ := bind_eq_ok_iff.mp h
  cases h
  have iowasp := member_text_iff B hd (reads_of_getDefault howasp)
  have inist := member_texts_iff B hd (reads_of_getDefault hnist) hnist'
  rw [ComplianceMapping.toDict, same_record_iff hd (exists_obj_of_getDefault howasp)
    (by simp only [List.map_cons, List.map_nil]; decide) rfl]
  simp only [List.forall_mem_cons]
  constructor
  · rintro ⟨hkeys, h1, h2, -⟩
    exact ⟨hkeys, iowasp.mp h1, inist.mp h2⟩
  · exact fun hn => ⟨hn.keys, iowasp.mpr hn.owaspMcpTop10, inist.mpr hn.nistAiRmf,
      List.forall_mem_nil _⟩

/-- What was read in place of `None` is in the file if it is not false. -/
theorem exists_get?_of_truthy [PyFloat φ] {d x : Json φ} {key : Str}
    (hx : getDefault d key .null = .ok x) (ht : x.truthy = true) : ∃ w, d.get? key = some w := by
  cases d with
  | obj ms =>
    cases hget : (Json.obj ms).get? key with
    | none =>
      rw [getDefault, hget] at hx
      cases hx
      cases ht
    | some w => exact ⟨w, rfl⟩
  | _ => cases hx

/-- A value with a member is not false. -/
theorem truthy_of_get? [PyFloat φ] {d w : Json φ} {key : Str} (h : d.get? key = some w) :
    d.truthy = true := by
  cases d with
  | obj ms =>
    cases ms with
    | nil => cases h
    | cons m ms => rfl
  | _ => cases h

theorem same_optMapping_iff [PyFloat φ] {x : Json φ} (hx : x.Stable) {m : Option ComplianceMapping}
    (h : ifTruthy x (ComplianceMapping.fromDict B) = .ok m) :
    Same x (optMapping m) ↔ x = .null ∨ NormalMapping x := by
  unfold ifTruthy at h
  by_cases ht : x.truthy = true
  · rw [if_pos ht] at h
    cases hm : ComplianceMapping.fromDict B x with
    | error e => rw [hm] at h; cases h
    | ok b =>
      rw [hm] at h
      cases h
      refine (same_mapping_iff B hx hm).trans (or_iff_right fun hnull => ?_).symm
      rw [hnull] at ht
      cases ht
  · rw [if_neg ht] at h
    cases h
    constructor
    · exact fun hnull => Or.inl (sorted_eq_null hnull)
    · rintro (rfl | hn)
      · rfl
      · obtain ⟨s, hs⟩ := hn.owaspMcpTop10
        exact absurd (truthy_of_get? hs) ht

theorem isScalar_grade (g : Grade) : isScalar g.value = true := by
  cases g <;> rfl

theorem same_category_iff [PyFloat φ] {d : Json φ} (hd : d.Stable) {c : CategoryResult}
    (h : CategoryResult.fromDict B d = .ok c) : Same d c.toDict ↔ NormalCategory d := by
  unfold CategoryResult.fromDict at h
  obtain ⟨mapping, hmapping, h⟩ := bind_eq_ok_iff.mp h
  obtain ⟨category, hcategory, h⟩ := bind_eq_ok_iff.mp h
  obtain ⟨grade, hgrade, h⟩ := bind_eq_ok_iff.mp h
  obtain ⟨grade', hgrade', h⟩ := bind_eq_ok_iff.mp h
  obtain ⟨probes, hprobes, h⟩ := bind_eq_ok_iff.mp h
  obtain ⟨probes', hprobes', h⟩ := bind_eq_ok_iff.mp h
  obtain ⟨findings, hfindings, h⟩ := bind_eq_ok_iff.mp h
  obtain ⟨findings', hfindings', h⟩ := bind_eq_ok_iff.mp h
  obtain ⟨mapping', hmapping', h⟩ := bind_eq_ok_iff.mp h
  obtain ⟨critical, hcritical, h⟩ := bind_eq_ok_iff.mp h
  obtain ⟨critical', hcritical', h⟩ := bind_eq_ok_iff.mp h
  obtain ⟨high, hhigh, h⟩ := bind_eq_ok_iff.mp h
  obtain ⟨high', hhigh', h⟩ := bind_eq_ok_iff.mp h
  obtain ⟨engine, hengine, h⟩ := bind_eq_ok_iff.mp h
  obtain ⟨inconclusive, hinconclusive, h⟩ := bind_eq_ok_iff.mp h
  obtain ⟨inconclusive', hinconclusive', h⟩ := bind_eq_ok_iff.mp h
  cases h
  have icategory := member_text_iff B hd (reads_of_subscript hcategory)
  have iprobes := member_int_iff B hd (reads_of_subscript hprobes) hprobes'
  have ifindings := member_int_iff B hd (reads_of_subscript hfindings) hfindings'
  have icritical := member_int_iff B hd (reads_of_getDefault hcritical) hcritical'
  have ihigh := member_int_iff B hd (reads_of_getDefault hhigh) hhigh'
  have iengine := member_text_iff B hd (reads_of_getDefault hengine)
  have iinconclusive := member_int_iff B hd (reads_of_getDefault hinconclusive) hinconclusive'
  have imapping := member_iff (P := fun w => w = .null ∨ NormalMapping w) hd
    (reads_of_getDefault hmapping) fun hx => same_optMapping_iff B hx hmapping'
  rw [CategoryResult.toDict, same_record_iff hd (exists_obj_of_getDefault hmapping)
    (by simp only [List.map_cons, List.map_nil]; decide) rfl]
  simp only [List.forall_mem_cons]
  constructor
  · rintro ⟨hkeys, h1, -, h3, h4, h5, h6, h7, h8, h9, -⟩
    exact ⟨hkeys, icategory.mp h1, iprobes.mp h3, ifindings.mp h4, icritical.mp h5, ihigh.mp h6,
      iengine.mp h7, iinconclusive.mp h8, imapping.mp h9⟩
  · intro hn
    exact ⟨hn.keys, icategory.mpr hn.category, member_enum isScalar_grade hgrade hgrade',
      iprobes.mpr hn.probeCount, ifindings.mpr hn.findingCount, icritical.mpr hn.criticalCount,
      ihigh.mpr hn.highCount, iengine.mpr hn.coverageEngine,
      iinconclusive.mpr hn.inconclusiveCount, imapping.mpr hn.complianceMapping,
      List.forall_mem_nil _⟩

/-! ## Scorecards -/

/-- A file without its key and signature. -/
def unsigned (d : Json φ) : Json φ :=
  match d with
  | .obj ms => .obj (ms.filter fun m => m.1 ≠ lit "public_key" && m.1 ≠ lit "signature")
  | d => d

def cardKeys : List Str :=
  [lit "scan_id", lit "target_url", lit "scan_timestamp", lit "catalog_hash", lit "tool_version",
    lit "categories", lit "conformance_level", lit "assurance"]

/-- A scorecard as it is written, with or without its signature. -/
structure NormalCard (d : Json φ) : Prop where
  keys : OnlyKeys (unsigned d) cardKeys
  scanId : HasText d (lit "scan_id")
  targetUrl : HasText d (lit "target_url")
  scanTimestamp : HasText d (lit "scan_timestamp")
  catalogHash : HasText d (lit "catalog_hash")
  toolVersion : HasText d (lit "tool_version")
  categories : HasArray d (lit "categories") NormalCategory
  assurance : ∀ w, d.get? (lit "assurance") = some w → NormalReport w

theorem stable_unsigned {d : Json φ} (hd : d.Stable) : (unsigned d).Stable := by
  cases d with
  | obj ms =>
    refine ⟨hd.1.sublist (List.filter_sublist.map _), Json.stableMembers_iff.mpr fun m hm => ?_⟩
    exact Json.stableMembers_iff.mp hd.2 m (List.mem_filter.mp hm).1
  | _ => exact hd

/-- The key and the signature are gone, and nothing else. -/
theorem get?_unsigned {d : Json φ} (hd : d.Stable) {key : Str} (h₁ : key ≠ lit "public_key")
    (h₂ : key ≠ lit "signature") : (unsigned d).get? key = d.get? key := by
  cases d with
  | obj ms =>
    refine Option.ext fun w => ?_
    have hn : (ms.filter fun m => m.1 ≠ lit "public_key" && m.1 ≠ lit "signature").map
        Prod.fst |>.Nodup := hd.1.sublist (List.filter_sublist.map _)
    rw [unsigned, Json.get?_eq_some_iff hn, Json.get?_eq_some_iff hd.1, List.mem_filter]
    exact and_iff_left (by simp [h₁, h₂])
  | _ => rfl

theorem isScalar_level (l : ConformanceLevel) : isScalar l.value = true := by
  cases l <;> rfl

/-- The report of the file, if what was read is written without one or with one. -/
theorem same_assurance_iff [PyFloat φ] {d x : Json φ} (hd : d.Stable)
    (hx : getDefault d (lit "assurance") .null = .ok x) {r : Option (AssuranceReport (Json φ))}
    (h : ifTruthy x (AssuranceReport.fromDict B) = .ok r) :
    ((∀ w, d.get? (lit "assurance") = some w → r ≠ none) ∧
      ∀ e ∈ assuranceMember r, ∃ w, d.get? e.1 = some w ∧ Same w e.2) ↔
        ∀ w, d.get? (lit "assurance") = some w → NormalReport w := by
  unfold ifTruthy at h
  by_cases ht : x.truthy = true
  · rw [if_pos ht] at h
    cases hr : AssuranceReport.fromDict B x with
    | error e => rw [hr] at h; cases h
    | ok report =>
      rw [hr] at h
      cases h
      obtain ⟨w, hw⟩ := exists_get?_of_truthy hx ht
      cases reads_of_getDefault hx w hw
      have hsame := same_report_iff B (stable_of_get? hd hw) hr
      rw [assuranceMember, List.forall_mem_singleton, hw]
      constructor
      · rintro ⟨-, w, hw', hs⟩ w' hw''
        cases hw'
        cases hw''
        exact hsame.mp hs
      · exact fun hn => ⟨fun _ _ => Option.some_ne_none _, x, rfl, hsame.mpr (hn x rfl)⟩
  · rw [if_neg ht] at h
    cases h
    constructor
    · exact fun hs w hw => absurd rfl (hs.1 w hw)
    · intro hn
      refine ⟨fun w hw => ?_, List.forall_mem_nil _⟩
      obtain ⟨n, hn'⟩ := (hn w hw).claimedLevel
      rw [reads_of_getDefault hx w hw] at ht
      exact absurd (truthy_of_get? hn') ht

theorem onlyKeys_iff {d : Json φ} (hd : d.Stable) (c : Scorecard φ) :
    OnlyKeys (unsigned d) ((c.head ++ assuranceMember c.assurance).map Prod.fst) ↔
      OnlyKeys (unsigned d) cardKeys ∧
        ∀ w, d.get? (lit "assurance") = some w → c.assurance ≠ none := by
  have hget : (unsigned d).get? (lit "assurance") = d.get? (lit "assurance") :=
    get?_unsigned hd (by decide) (by decide)
  cases hr : c.assurance with
  | some r =>
    have hkeys : (c.head ++ assuranceMember (some r)).map Prod.fst = cardKeys := rfl
    rw [hkeys]
    exact (and_iff_left fun _ _ => Option.some_ne_none _).symm
  | none =>
    have hkeys : (c.head ++ assuranceMember none).map Prod.fst ++ [lit "assurance"] = cardKeys :=
      rfl
    constructor
    · intro h
      refine ⟨fun key hkey => ?_, fun w hw => ?_⟩
      · rw [← hkeys]
        exact List.mem_append_left _ (h key hkey)
      · rw [← hget] at hw
        have hmem := h (lit "assurance") (by rw [hw]; exact Option.some_ne_none _)
        exact absurd hmem (by
          simp only [Scorecard.head, assuranceMember, List.append_nil, List.map_cons, List.map_nil]
          decide)
    · rintro ⟨h, hnone⟩ key hkey
      have hmem := h key hkey
      rw [← hkeys] at hmem
      rcases List.mem_append.mp hmem with hmem | hmem
      · exact hmem
      · cases List.mem_singleton.mp hmem
        obtain ⟨w, hw⟩ := Option.ne_none_iff_exists'.mp hkey
        exact absurd rfl (hnone w (hget ▸ hw))

theorem mem_cardKeys (c : Scorecard φ) {e : Str × Json φ}
    (h : e ∈ c.head ++ assuranceMember c.assurance) : e.1 ∈ cardKeys := by
  have hkeys : c.head.map Prod.fst ++ [lit "assurance"] = cardKeys := rfl
  rw [← hkeys, List.mem_append]
  rcases List.mem_append.mp h with h | h
  · exact Or.inl (List.mem_map_of_mem h)
  · cases hr : c.assurance with
    | none => rw [hr] at h; cases h
    | some r =>
      rw [hr] at h
      cases List.mem_singleton.mp h
      exact Or.inr List.mem_cons_self

/-- The members that are written are looked for in the file itself. -/
theorem forall_members_iff {d : Json φ} (hd : d.Stable) {c : Scorecard φ}
    {P : Json φ → Json φ → Prop} :
    (∀ e ∈ c.head ++ assuranceMember c.assurance,
      ∃ w, (unsigned d).get? e.1 = some w ∧ P w e.2) ↔
        ∀ e ∈ c.head ++ assuranceMember c.assurance, ∃ w, d.get? e.1 = some w ∧ P w e.2 := by
  have hne : ∀ key ∈ cardKeys, key ≠ lit "public_key" ∧ key ≠ lit "signature" := by decide
  refine forall₂_congr fun e he => ?_
  obtain ⟨h₁, h₂⟩ := hne e.1 (mem_cardKeys c he)
  rw [get?_unsigned hd h₁ h₂]

/-- What the signature covers is the file exactly if the file is in the form that is written. -/
theorem same_card_iff [PyFloat φ] {d : Json φ} (hd : d.Stable) {c : Scorecard φ}
    (h : Scorecard.fromDict B d = .ok c) :
    Same (unsigned d) (signableDict c) ↔ NormalCard d := by
  unfold Scorecard.fromDict at h
  obtain ⟨scanId, hscanId, h⟩ := bind_eq_ok_iff.mp h
  obtain ⟨targetUrl, htargetUrl, h⟩ := bind_eq_ok_iff.mp h
  obtain ⟨timestamp, htimestamp, h⟩ := bind_eq_ok_iff.mp h
  obtain ⟨catalogHash, hcatalogHash, h⟩ := bind_eq_ok_iff.mp h
  obtain ⟨toolVersion, htoolVersion, h⟩ := bind_eq_ok_iff.mp h
  obtain ⟨categories, hcategories, h⟩ := bind_eq_ok_iff.mp h
  obtain ⟨js, hjs, h⟩ := bind_eq_ok_iff.mp h
  obtain ⟨cs, hcs, h⟩ := bind_eq_ok_iff.mp h
  obtain ⟨level, hlevel, h⟩ := bind_eq_ok_iff.mp h
  obtain ⟨level', hlevel', h⟩ := bind_eq_ok_iff.mp h
  obtain ⟨publicKey, -, h⟩ := bind_eq_ok_iff.mp h
  obtain ⟨signature, -, h⟩ := bind_eq_ok_iff.mp h
  obtain ⟨assurance, hassurance, h⟩ := bind_eq_ok_iff.mp h
  obtain ⟨report, hreport, h⟩ := bind_eq_ok_iff.mp h
  cases h
  have iscanId := member_text_iff B hd (reads_of_subscript hscanId)
  have itargetUrl := member_text_iff B hd (reads_of_subscript htargetUrl)
  have itimestamp := member_text_iff B hd (reads_of_subscript htimestamp)
  have icatalogHash := member_text_iff B hd (reads_of_subscript hcatalogHash)
  have itoolVersion := member_text_iff B hd (reads_of_getDefault htoolVersion)
  have icategories := member_array_iff hd (reads_of_getDefault hcategories) hjs hcs
    fun j hj b hb => same_category_iff B hj hb
  have iassurance := same_assurance_iff B hd hassurance hreport
  obtain ⟨ms, rfl⟩ := exists_obj_of_subscript hscanId
  rw [signableDict_eq, same_record_iff (stable_unsigned hd) ⟨_, rfl⟩ (nodup_signable _)
    (by cases report <;> rfl), onlyKeys_iff hd, forall_members_iff hd, List.forall_mem_append]
  simp only [Scorecard.head, List.forall_mem_cons]
  constructor
  · rintro ⟨⟨hkeys, hnone⟩, ⟨h1, h2, h3, h4, h5, h6, -, -⟩, hreport⟩
    exact ⟨hkeys, iscanId.mp h1, itargetUrl.mp h2, itimestamp.mp h3, icatalogHash.mp h4,
      itoolVersion.mp h5, icategories.mp h6, iassurance.mp ⟨hnone, hreport⟩⟩
  · intro hn
    obtain ⟨hnone, hreport⟩ := iassurance.mpr hn.assurance
    exact ⟨⟨hn.keys, hnone⟩, ⟨iscanId.mpr hn.scanId, itargetUrl.mpr hn.targetUrl,
      itimestamp.mpr hn.scanTimestamp, icatalogHash.mpr hn.catalogHash,
      itoolVersion.mpr hn.toolVersion, icategories.mpr hn.categories,
      member_enum isScalar_level hlevel hlevel', List.forall_mem_nil _⟩, hreport⟩

theorem nativeScope_of_normal [PyFloat φ] {d : Json φ} (hd : d.Stable) {c : Scorecard φ}
    (h : Scorecard.fromDict B d = .ok c) (hn : NormalCard d) : c.NativeScope := by
  unfold Scorecard.fromDict at h
  obtain ⟨scanId, -, h⟩ := bind_eq_ok_iff.mp h
  obtain ⟨targetUrl, -, h⟩ := bind_eq_ok_iff.mp h
  obtain ⟨timestamp, -, h⟩ := bind_eq_ok_iff.mp h
  obtain ⟨catalogHash, -, h⟩ := bind_eq_ok_iff.mp h
  obtain ⟨toolVersion, -, h⟩ := bind_eq_ok_iff.mp h
  obtain ⟨categories, -, h⟩ := bind_eq_ok_iff.mp h
  obtain ⟨js, -, h⟩ := bind_eq_ok_iff.mp h
  obtain ⟨cs, -, h⟩ := bind_eq_ok_iff.mp h
  obtain ⟨level, -, h⟩ := bind_eq_ok_iff.mp h
  obtain ⟨level', -, h⟩ := bind_eq_ok_iff.mp h
  obtain ⟨publicKey, -, h⟩ := bind_eq_ok_iff.mp h
  obtain ⟨signature, -, h⟩ := bind_eq_ok_iff.mp h
  obtain ⟨x, hx, h⟩ := bind_eq_ok_iff.mp h
  obtain ⟨report, hreport, h⟩ := bind_eq_ok_iff.mp h
  cases h
  intro r hr
  cases hr
  obtain ⟨ht, hread⟩ := ifTruthy_eq_some_iff.mp hreport
  obtain ⟨w, hw⟩ := exists_get?_of_truthy hx ht
  cases reads_of_getDefault hx w hw
  exact nativeScope_of_fromDict B (stable_of_get? hd hw) hread (hn.assurance _ hw).scope

variable [PyFloat φ]

theorem canonical_unsigned_iff {d : Json φ} (hd : d.Stable) {c : Scorecard φ}
    (h : Scorecard.fromDict B d = .ok c) :
    (unsigned d).canonical = (signableDict c).canonical ↔ NormalCard d := by
  have hstable := (stable_unsigned hd).keysStable
  constructor
  · intro hcanonical
    refine (same_card_iff B hd h).mp ?_
    have hsorted := reload_sorted_of_canonical_eq hcanonical
    rwa [hstable.reload_sorted, (unsigned d).reload_eq_self (stable_unsigned hd)] at hsorted
  · intro hn
    have hsame := (same_card_iff B hd h).mpr hn
    have hkeys := (keysStable_signableDict (nativeScope_of_normal B hd h hn)).sorted
    rw [Json.canonical, hsame, hkeys.text_reload, Json.canonical]

/-- No signature was forged: if the one of the scorecard verifies, its bytes are those of a
scorecard that was signed. -/
def Unforged (E : Ed25519 κ) (key : Bytes) (signed : Scorecard φ → Prop) (c : Scorecard φ) : Prop :=
  ∀ signature, fromHex c.signature = some signature →
    E.verify key signature (canonicalBytes (signableDict c)) = true →
      ∃ s, signed s ∧ canonicalBytes (signableDict s) = canonicalBytes (signableDict c)

/-- The file, without key and signature, is the document whose signature was verified. -/
def IsSignedDocument (signed : Scorecard φ → Prop) (d : Json φ) (c : Scorecard φ) : Prop :=
  ∃ s, signed s ∧ canonicalBytes (signableDict s) = canonicalBytes (signableDict c) ∧
    (unsigned d).canonical = (signableDict s).canonical

/-- A file that verifies is the document that was signed exactly if it has the form that is
written. -/
theorem verified_is_signed_iff (E : Ed25519 κ) (B : Builtins φ) (key : Bytes)
    (signed : Scorecard φ → Prop) {d : Json φ} {c : Scorecard φ} (hd : d.Stable)
    (hparsed : Scorecard.fromDict B d = .ok c)
    (hverified : verifyAgainst E (.ok (some key)) c = .ok ())
    (hunforged : Unforged E key signed c) : IsSignedDocument signed d c ↔ NormalCard d := by
  rw [← canonical_unsigned_iff B hd hparsed]
  constructor
  · rintro ⟨s, -, hbytes, hcanonical⟩
    exact hcanonical.trans (canonicalBytes_inj.mp hbytes)
  · intro hcanonical
    obtain ⟨-, -, signature, hsignature, hverify⟩ := verifyAgainst_eq_ok_iff.mp hverified
    obtain ⟨s, hs, hbytes⟩ := hunforged signature hsignature hverify
    exact ⟨s, hs, hbytes, hcanonical.trans (canonicalBytes_inj.mp hbytes).symm⟩

section Example

private def trusting : Ed25519 Unit :=
  { publicBytes := fun _ => List.replicate 32 0
    sign := fun _ _ => List.replicate 64 0
    verify := fun _ _ _ => true
    verify_sign := scheme.verify_sign
    length_publicBytes := scheme.length_publicBytes
    length_sign := scheme.length_sign }

/-- A scorecard of a server that failed a control, as it was signed. -/
private def failing : Scorecard WholeFloat :=
  ⟨[], lit "http://t", [], [], [], [], .insufficientCoverage, [], [],
    some ⟨1, .notMet, [], [⟨lit "AU-01", [], [], some .must, .fail, [], [], none⟩], Dict.empty⟩⟩

private def signedFailing : Scorecard WholeFloat := signWith trusting () failing

/-- Its file, with these counts. -/
private def fileWith (counts : List (Str × Json WholeFloat)) : Json WholeFloat :=
  .obj (signedFailing.head ++
    [(lit "public_key", .str (hexOf (List.replicate 32 0))),
      (lit "signature", .str (hexOf (List.replicate 64 0))),
      (lit "assurance", .obj [(lit "claimed_level", .int 1), (lit "result", .str (lit "not_met")),
        (lit "profile_version", .str []), (lit "must_counts", .obj counts), (lit "scope", .obj []),
        (lit "controls", .arr [.obj [(lit "control_id", .str (lit "AU-01")),
          (lit "dimension", .str []), (lit "title", .str []), (lit "strength", .str (lit "must")),
          (lit "verdict", .str (lit "fail")), (lit "reason", .str []),
          (lit "linked_results", .arr []), (lit "evidence_sha256", .null)]])])])

private theorem fromDict_fileWith (counts : List (Str × Json WholeFloat)) :
    Scorecard.fromDict textBuiltins (fileWith counts) = .ok signedFailing := by
  rfl

/-- Counts without the failed control. -/
private def cleared : List (Str × Json WholeFloat) :=
  counted.map fun v => (v.value, .int 0)

private theorem stable_cleared : (fileWith cleared).Stable := Json.stable_of_isPlain (by decide)

private theorem verified_signedFailing :
    verifyAgainst trusting (.ok (some (List.replicate 32 0))) signedFailing = .ok () :=
  verifyAgainst_eq_ok_iff.mpr ⟨rfl, fromHex_hexOf _, _, fromHex_hexOf _, rfl⟩

private theorem unforged_signedFailing :
    Unforged trusting (List.replicate 32 0) (· = signedFailing) signedFailing :=
  fun _ _ _ => ⟨signedFailing, rfl, rfl⟩

theorem verified_is_signed_iff_cleared :
    IsSignedDocument (· = signedFailing) (fileWith cleared) signedFailing ↔
      NormalCard (fileWith cleared) :=
  verified_is_signed_iff trusting textBuiltins (List.replicate 32 0) (· = signedFailing)
    stable_cleared (fromDict_fileWith cleared) verified_signedFailing unforged_signedFailing

/-- A file whose counts were set to zero verifies as the one that was signed. -/
theorem cleared_counts_verify :
    ∃ (d : Json WholeFloat) (c : Scorecard WholeFloat), d.Stable ∧
      Scorecard.fromDict textBuiltins d = .ok c ∧
      verifyAgainst trusting (.ok (some (List.replicate 32 0))) c = .ok () ∧
      Unforged trusting (List.replicate 32 0) (· = signedFailing) c ∧
      ¬ ∃ s, s = signedFailing ∧ (unsigned d).canonical = (signableDict s).canonical := by
  refine ⟨fileWith cleared, signedFailing, stable_cleared, fromDict_fileWith cleared,
    verified_signedFailing, unforged_signedFailing, ?_⟩
  rintro ⟨s, rfl, hcanonical⟩
  have hnormal := (canonical_unsigned_iff textBuiltins stable_cleared
    (fromDict_fileWith cleared)).mp hcanonical
  obtain ⟨w, hw, hcounts⟩ := (hnormal.assurance _ rfl).mustCounts _ rfl
  cases hw
  have hfail := hcounts.counts .fail (by decide)
  cases hfail

end Example

end CosaiMcp.Scorecard
