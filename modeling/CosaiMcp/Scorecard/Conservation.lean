import CosaiMcp.Scorecard.Builder
import Mathlib.Algebra.BigOperators.Group.List.Basic

/-!
# Does a scorecard count every finding?

A finding belongs to the category of the number in its threat id, with the severity of its own
threat. The scorecard books it under what the last threat of the catalog that defines a probe of the
same id says (`get?_probeMeta`); the counts are right after every number of results exactly if the
two agree (`scorecard_loses_nothing_iff`).
-/

namespace CosaiMcp.Scorecard

open Py Catalog Scan

variable {φ ρ δ : Type}

/-! ## Counters -/

/-- What the severity of a finding makes of it in the counts. -/
inductive Bucket where
  | critical
  | high
  | lower
deriving DecidableEq

def bucketOf (sev : Str) : Bucket :=
  if Ir.sevRankOf sev ≥ 4 then .critical else if Ir.sevRankOf sev ≥ 3 then .high else .lower

/-- The three counts that findings go into. -/
inductive Counter where
  | finding
  | critical
  | high

/-- Whether a finding goes into the count. -/
def Counter.takes : Counter → Bucket → Bool
  | .finding, _ => true
  | .critical, b => b = .critical
  | .high, b => b = .high

def CatStats.count (s : CatStats) : Counter → Nat
  | .finding => s.findingCount
  | .critical => s.criticalCount
  | .high => s.highCount

def CategoryResult.count (c : CategoryResult) : Counter → Int
  | .finding => c.findingCount
  | .critical => c.criticalCount
  | .high => c.highCount

/-- Findings that agree on the counts they go into are in one bucket. -/
theorem eq_of_takes {b c : Bucket} (h : ∀ k : Counter, k.takes b = k.takes c) : b = c := by
  have hcritical := h .critical
  have hhigh := h .high
  cases b <;> cases c <;> simp_all [Counter.takes]

theorem count_categoryResult (cat : Str) (stats : CatStats) (k : Counter) :
    (categoryResult cat stats).count k = stats.count k := by
  cases k <;> rfl

/-! ## What a scorecard counts -/

def isFinding (r : ProbeResult δ) : Bool :=
  r.inconclusiveReason.isNone && (!r.passed && r.error.isNone)

/-- Where a result is booked. -/
def bookedCategory (threats : List (ThreatDefinition φ ρ)) (r : ProbeResult δ) : Str :=
  resultCategory ((probeMeta threats).get? r.probeId) r.threatId

def bookedBucket (threats : List (ThreatDefinition φ ρ)) (r : ProbeResult δ) : Bucket :=
  bucketOf (resultSeverity ((probeMeta threats).get? r.probeId))

theorem count_zero (k : Counter) : CatStats.zero.count k = 0 := by
  cases k <;> rfl

theorem count_add (s : CatStats) (r : ProbeResult δ) (sev : Str) (k : Counter) :
    (s.add r sev).count k =
      s.count k + if (isFinding r && k.takes (bucketOf sev)) = true then 1 else 0 := by
  have hcritical : Ir.sevRankOf (lit "critical") = 4 := by decide
  have hhigh : Ir.sevRankOf (lit "high") = 3 := by decide
  unfold CatStats.add isFinding bucketOf
  rw [hcritical, hhigh]
  cases r.inconclusiveReason with
  | some reason => cases k <;> rfl
  | none =>
    cases r.passed with
    | true => cases k <;> rfl
    | false =>
      cases r.error with
      | some e => cases k <;> rfl
      | none =>
        by_cases h4 : Ir.sevRankOf sev ≥ 4
        · cases k <;> simp [h4, CatStats.count, Counter.takes]
        · by_cases h3 : Ir.sevRankOf sev ≥ 3
          · cases k <;> simp [h4, h3, CatStats.count, Counter.takes]
          · cases k <;> simp [h4, h3, CatStats.count, Counter.takes]

/-- A field of the counts that each result adds one to, or nothing, counts the results booked in the
category that add to it. -/
theorem field_catStats (field : CatStats → Nat) (adds : ProbeResult δ → Str → Bool)
    (hzero : field .zero = 0)
    (hadd : ∀ s r sev, field (s.add r sev) = field s + if adds r sev = true then 1 else 0)
    (threats : List (ThreatDefinition φ ρ)) (results : List (ProbeResult δ)) (cat : Str) :
    field (((catStats threats results).get? cat).getD .zero) =
      results.countP fun r => decide (bookedCategory threats r = cat) &&
        adds r (resultSeverity ((probeMeta threats).get? r.probeId)) := by
  have hfold : ∀ d : Dict Str CatStats,
      field ((results.foldl (fun stats pr => stats.set (bookedCategory threats pr)
          (((stats.get? (bookedCategory threats pr)).getD .zero).add pr
            (resultSeverity ((probeMeta threats).get? pr.probeId)))) d).get? cat |>.getD .zero) =
        field ((d.get? cat).getD .zero) +
          results.countP fun r => decide (bookedCategory threats r = cat) &&
            adds r (resultSeverity ((probeMeta threats).get? r.probeId)) := by
    induction results with
    | nil => exact fun _ => rfl
    | cons r results ih =>
      intro d
      rw [List.foldl_cons, ih, List.countP_cons, Dict.get?_set]
      by_cases hcat : bookedCategory threats r = cat
      · rw [if_pos hcat.symm, Option.getD_some, hadd, decide_eq_true hcat, Bool.true_and, hcat]
        omega
      · rw [if_neg (Ne.symm hcat), decide_eq_false hcat]
        rfl
  rw [catStats]
  refine (hfold .empty).trans ?_
  rw [Dict.get?_empty, Option.getD_none, hzero, Nat.zero_add]

/-- The counts of a category are those of the findings booked in it. -/
theorem count_catStats (threats : List (ThreatDefinition φ ρ)) (results : List (ProbeResult δ))
    (cat : Str) (k : Counter) :
    (((catStats threats results).get? cat).getD .zero).count k =
      results.countP fun r => decide (bookedCategory threats r = cat) &&
        (isFinding r && k.takes (bookedBucket threats r)) :=
  field_catStats (·.count k) (fun r sev => isFinding r && k.takes (bucketOf sev)) (count_zero k)
    (fun s r sev => count_add s r sev k) threats results cat

/-! ## What a catalog says about a probe -/

/-- The last threat that defines a probe of this id. -/
def lastDefining (threats : List (ThreatDefinition φ ρ)) (probeId : Str) :
    Option (ThreatDefinition φ ρ) :=
  threats.reverse.find? fun t => t.probes.any (·.id = probeId)

theorem get?_ofList_concat {ν : Type} (l : List (Str × ν)) (p : Str × ν) (k : Str) :
    (Dict.ofList (l ++ [p])).get? k = if k = p.1 then some p.2 else (Dict.ofList l).get? k := by
  rw [Dict.ofList, List.foldl_append, List.foldl_cons, List.foldl_nil, Dict.get?_set]
  rfl

/-- The pairs that one threat adds. -/
theorem get?_ofList_append_map {ν α : Type} (key : α → Str) (l : List (Str × ν)) (v : ν)
    (ps : List α) (k : Str) :
    (Dict.ofList (l ++ ps.map fun p => (key p, v))).get? k =
      if (ps.any fun p => key p = k) = true then some v else (Dict.ofList l).get? k := by
  induction ps using List.reverseRecOn with
  | nil => rw [List.map_nil, List.append_nil]; rfl
  | append_singleton ps p ih =>
    rw [List.map_append, List.map_singleton, ← List.append_assoc, get?_ofList_concat, ih,
      List.any_append]
    by_cases hk : k = key p
    · rw [if_pos hk, if_pos (by simp [hk])]
    · have hp : decide (key p = k) = false := decide_eq_false (Ne.symm hk)
      rw [if_neg hk, List.any_cons, hp, List.any_nil, Bool.or_false, Bool.or_false]

theorem get?_probeMeta (threats : List (ThreatDefinition φ ρ)) (probeId : Str) :
    (probeMeta threats).get? probeId =
      (lastDefining threats probeId).map fun t => ⟨t.severity.value, t.category⟩ := by
  induction threats using List.reverseRecOn with
  | nil => rfl
  | append_singleton threats t ih =>
    rw [probeMeta, List.flatMap_append, List.flatMap_singleton,
      get?_ofList_append_map Probe.id, ← probeMeta, ih, lastDefining, lastDefining,
      List.reverse_append, List.reverse_singleton, List.singleton_append]
    rw [List.find?_cons]
    cases t.probes.any fun p => decide (p.id = probeId) with
    | true => rfl
    | false => rfl

/-! ## Threat ids and categories -/

def twoDigits (n : Nat) : Str := if n < 10 then 48 :: natText n else natText n

/-- `T01` to `T12`, alone or before something that is no digit. -/
structure IsThreatId (threatId : Str) (n : Nat) : Prop where
  least : 1 ≤ n
  most : n ≤ 12
  text : ∃ rest, EndsDigits rest ∧ threatId = 84 :: (twoDigits n ++ rest)

/-- `re.search("^T[0-9]+$", category)`: `$` is also before a line feed at the end. -/
def MatchesCategory (category : Str) : Prop :=
  ∃ ds, ds ≠ [] ∧ (∀ d ∈ ds, isDigit d = true) ∧
    (category = 84 :: ds ∨ category = 84 :: (ds ++ [10]))

theorem isDigit_of_mem_twoDigits {n : Nat} {c : CodePoint} (h : c ∈ twoDigits n) :
    isDigit c = true := by
  unfold twoDigits at h
  split at h
  · rcases List.mem_cons.mp h with rfl | h
    · rfl
    · exact isDigit_of_mem_natText h
  · exact isDigit_of_mem_natText h

theorem dropWhile_zero_twoDigits {n : Nat} (hn : n ≠ 0) :
    (twoDigits n).dropWhile (· = 48) = natText n := by
  obtain ⟨c, ds, htext, hc⟩ := natText_head hn
  have hdrop : (natText n).dropWhile (· = 48) = natText n := by
    rw [htext, List.dropWhile_cons_of_neg (by simpa using hc)]
  unfold twoDigits
  split
  · rw [List.dropWhile_cons, if_pos (decide_eq_true rfl), hdrop]
  · exact hdrop

/-- A threat id is mapped to the category of its number. -/
theorem categoryFromThreatId_eq {threatId : Str} {n : Nat} (h : IsThreatId threatId n) :
    categoryFromThreatId threatId = categoryName n := by
  obtain ⟨hn, -, rest, hrest, rfl⟩ := h
  have hdigits : (twoDigits n ++ rest).takeWhile isDigit = twoDigits n := by
    rw [(takeWhile_isDigit_append hrest _).1]
    exact List.takeWhile_eq_self_iff.mpr fun c hc => isDigit_of_mem_twoDigits hc
  obtain ⟨c, ds, htext, hc⟩ := natText_head (Nat.one_le_iff_ne_zero.mp hn)
  have hdrop := dropWhile_zero_twoDigits (Nat.one_le_iff_ne_zero.mp hn)
  rw [categoryFromThreatId, hdigits]
  cases htwo : twoDigits n with
  | nil =>
    rw [htwo, List.dropWhile_nil] at hdrop
    rw [htext] at hdrop
    cases hdrop
  | cons d es =>
    simp only
    rw [← htwo, hdrop, htext, categoryName, htext]

/-! ## Scans of a catalog -/

/-- A result with the threat whose probe it is of, if it is no check of the manifest. -/
structure Entry (threats : List (ThreatDefinition φ ρ)) (δ : Type) where
  result : ProbeResult δ
  number : Nat
  numbered : IsThreatId result.threatId number
  threat : Option (ThreatDefinition φ ρ)
  own : ∀ t ∈ threat, t ∈ threats ∧ t.id = result.threatId ∧ ∃ p ∈ t.probes, p.id = result.probeId

/-- A scan over catalogs that passed the meta-schema. -/
structure CatalogScan (φ ρ δ : Type) where
  result : ScanResult φ ρ δ
  entries : List (Entry result.threats δ)
  results : result.probeResults = entries.map Entry.result
  categories : ∀ t ∈ result.threats, MatchesCategory t.category

variable {threats : List (ThreatDefinition φ ρ)}

/-- By the severity of the own threat. -/
def Entry.bucket (e : Entry threats δ) : Bucket :=
  match e.threat with
  | none => .lower
  | some t => bucketOf t.severity.value

/-- Whether an entry is to go into a count of the category of number `n`. -/
def Entry.belongs (n : Nat) (k : Counter) (e : Entry threats δ) : Bool :=
  decide (e.number = n) && (isFinding e.result && k.takes e.bucket)

/-- Whether an entry is booked into it. -/
def Entry.booked (n : Nat) (k : Counter) (e : Entry threats δ) : Bool :=
  decide (bookedCategory threats e.result = categoryName n) &&
    (isFinding e.result && k.takes (bookedBucket threats e.result))

/-- After every number of results the counts of each category are those of its findings, and in the
end they add up to all findings. -/
structure LosesNothing (s : CatalogScan φ ρ δ) : Prop where
  counts : ∀ es, es <+: s.entries → ∀ k : Counter,
    (categoryResults s.result.threats (es.map Entry.result)).map (·.count k) =
      numbers.map fun n => (es.countP (Entry.belongs n k) : Int)
  total : ∀ k : Counter,
    ((categoryResults s.result.threats s.result.probeResults).map (·.count k)).sum =
      s.entries.countP fun e => isFinding e.result && k.takes e.bucket

theorem mem_numbers {n : Nat} : n ∈ numbers ↔ 1 ≤ n ∧ n ≤ 12 := by
  rw [numbers, List.mem_range'_1]
  omega

theorem categoryName_inj {m n : Nat} : categoryName m = categoryName n ↔ m = n := by
  refine ⟨fun h => ?_, fun h => h ▸ rfl⟩
  have htext : natText m = natText n := List.append_cancel_left h
  rw [← natOf_natText m, htext, natOf_natText]

/-- Two conditions pick as many elements of each prefix just where they agree. -/
theorem countP_prefix_iff {α : Type} (p q : α → Bool) (l : List α) :
    (∀ l', l' <+: l → l'.countP p = l'.countP q) ↔ ∀ a ∈ l, p a = q a := by
  constructor
  · intro h a ha
    obtain ⟨u, v, rfl⟩ := List.append_of_mem ha
    have hbefore := h u (List.prefix_append u (a :: v))
    have hafter := h (u ++ [a]) ⟨v, by simp⟩
    rw [List.countP_append, List.countP_append, hbefore, List.countP_singleton,
      List.countP_singleton] at hafter
    cases hp : p a <;> cases hq : q a <;> simp_all
  · intro h l' hl'
    exact List.countP_congr fun a ha => by rw [h a (hl'.subset ha)]

/-- The findings of the twelve categories are all findings. -/
theorem sum_countP_belongs (es : List (Entry threats δ)) (k : Counter) :
    (numbers.map fun n => (es.countP (Entry.belongs n k) : Int)).sum =
      es.countP fun e => isFinding e.result && k.takes e.bucket := by
  induction es with
  | nil => rfl
  | cons e es ih =>
    have hone : ∀ m ∈ numbers, ∀ b : Bool, (numbers.map fun n =>
        ((if (decide (m = n) && b) = true then 1 else 0 : Nat) : Int)).sum =
          ((if b = true then 1 else 0 : Nat) : Int) := by decide
    have hnumber : e.number ∈ numbers := mem_numbers.mpr ⟨e.numbered.least, e.numbered.most⟩
    simp only [List.countP_cons, Int.natCast_add]
    rw [List.sum_map_add, ih]
    exact congrArg _ (hone e.number hnumber _)

theorem count_categoryResults (threats : List (ThreatDefinition φ ρ))
    (es : List (Entry threats δ)) (k : Counter) :
    (categoryResults threats (es.map Entry.result)).map (·.count k) =
      numbers.map fun n => (es.countP (Entry.booked n k) : Int) := by
  rw [categoryResults, List.map_map]
  refine List.map_congr_left fun n _ => ?_
  rw [Function.comp_apply, count_categoryResult, count_catStats, List.countP_map]
  rfl

/-- Where an entry is booked as it belongs. -/
theorem booked_eq_belongs_iff (e : Entry threats δ) :
    (∀ k, ∀ n ∈ numbers, e.booked n k = e.belongs n k) ↔
      (isFinding e.result = true → bookedCategory threats e.result = categoryName e.number ∧
        bookedBucket threats e.result = e.bucket) := by
  unfold Entry.booked Entry.belongs
  constructor
  · intro h hfinding
    have hnumber : e.number ∈ numbers := mem_numbers.mpr ⟨e.numbered.least, e.numbered.most⟩
    have hcategory : bookedCategory threats e.result = categoryName e.number := by
      have hcount := h .finding e.number hnumber
      simpa [hfinding, Counter.takes] using hcount
    refine ⟨hcategory, eq_of_takes fun k => ?_⟩
    have hcount := h k e.number hnumber
    simpa [hfinding, hcategory] using hcount
  · intro h k n _
    cases hfinding : isFinding e.result with
    | false => rw [Bool.false_and, Bool.false_and, Bool.and_false, Bool.and_false]
    | true =>
      obtain ⟨hcategory, hbucket⟩ := h hfinding
      rw [hcategory, hbucket]
      exact congrArg (· && _) (decide_eq_decide.mpr categoryName_inj)

theorem losesNothing_iff (s : CatalogScan φ ρ δ) :
    LosesNothing s ↔ ∀ e ∈ s.entries, isFinding e.result = true →
      bookedCategory s.result.threats e.result = categoryName e.number ∧
        bookedBucket s.result.threats e.result = e.bucket := by
  have hcounts : (∀ es, es <+: s.entries → ∀ k : Counter,
      (categoryResults s.result.threats (es.map Entry.result)).map (·.count k) =
        numbers.map fun n => (es.countP (Entry.belongs n k) : Int)) ↔
      ∀ e ∈ s.entries, ∀ k, ∀ n ∈ numbers, e.booked n k = e.belongs n k := by
    simp only [count_categoryResults, List.map_inj_left, Int.natCast_inj]
    constructor
    · intro h e he k n hn
      exact (countP_prefix_iff _ _ _).mp (fun es hes => h es hes k n hn) e he
    · intro h es hes k n hn
      exact (countP_prefix_iff _ _ _).mpr (fun e he => h e he k n hn) es hes
  constructor
  · intro h e he
    exact (booked_eq_belongs_iff e).mp (hcounts.mp h.counts e he)
  · intro h
    have hall := hcounts.mpr fun e he => (booked_eq_belongs_iff e).mpr (h e he)
    refine ⟨hall, fun k => ?_⟩
    rw [s.results, hall s.entries (List.prefix_refl _) k, sum_countP_belongs]

/-- What the last threat that defines a probe of the same id says, is what counts. -/
theorem booked_iff (s : CatalogScan φ ρ δ) {e : Entry s.result.threats δ} :
    (bookedCategory s.result.threats e.result = categoryName e.number ∧
        bookedBucket s.result.threats e.result = e.bucket) ↔
      ∀ t ∈ lastDefining s.result.threats e.result.probeId,
        t.category = categoryName e.number ∧ bucketOf t.severity.value = e.bucket := by
  unfold bookedCategory bookedBucket
  rw [get?_probeMeta]
  cases hlast : lastDefining s.result.threats e.result.probeId with
  | none =>
    -- no threat defines the probe, so the result is of the manifest
    have hbucket : e.bucket = .lower := by
      unfold Entry.bucket
      cases hthreat : e.threat with
      | none => rfl
      | some t =>
        obtain ⟨ht, -, p, hp, hid⟩ := e.own t hthreat
        have hnone := List.find?_eq_none.mp hlast t (List.mem_reverse.mpr ht)
        exact absurd (List.any_eq_true.mpr ⟨p, hp, decide_eq_true hid⟩) hnone
    rw [hbucket]
    exact ⟨fun _ => nofun, fun _ => ⟨categoryFromThreatId_eq e.numbered, rfl⟩⟩
  | some t =>
    have ht : t ∈ s.result.threats := List.mem_reverse.mp (List.mem_of_find?_eq_some hlast)
    have hcategory : resultCategory (some ⟨t.severity.value, t.category⟩) e.result.threatId =
        t.category := by
      obtain ⟨ds, -, -, htext | htext⟩ := s.categories t ht <;> rw [htext] <;> rfl
    rw [Option.map_some, hcategory]
    refine ⟨fun h t' ht' => ?_, fun h => h t rfl⟩
    cases ht'
    exact h

/-- A scorecard loses no finding exactly if, for each finding, the last threat of the catalog that
defines a probe of that id is of the category of the finding's threat id, and of its own threat's
severity as far as the counts tell severities apart. -/
theorem scorecard_loses_nothing_iff (s : CatalogScan φ ρ δ) :
    LosesNothing s ↔ ∀ e ∈ s.entries, isFinding e.result = true →
      ∀ t ∈ lastDefining s.result.threats e.result.probeId,
        t.category = categoryName e.number ∧ bucketOf t.severity.value = e.bucket :=
  (losesNothing_iff s).trans (forall₂_congr fun _ _ => imp_congr Iff.rfl (booked_iff s))

section Example

private def probe : Probe Unit Unit :=
  ⟨lit "p", lit "both", lit "tools/list", [], [], none, .null, none, [], false, none⟩

/-- Its category is written like its id. -/
private def padded : ThreatDefinition Unit Unit :=
  ⟨lit "1.0", lit "T06-001", lit "T06", .critical, [], [], [lit "CWE-345"], [probe], [], [],
    .custom, lit "read-only", .medium⟩

private def failed : ProbeResult Unit :=
  ⟨lit "p", lit "T06-001", false, [], none, [], (), none, false⟩

private def lost : Entry [padded] Unit :=
  { result := failed
    number := 6
    numbered := ⟨by decide, by decide, lit "-001", fun c hc => by cases hc; rfl, rfl⟩
    threat := some padded
    own := by
      intro t ht
      cases ht
      exact ⟨List.mem_singleton_self _, rfl, probe, List.mem_singleton_self _, rfl⟩ }

private def paddedScan : CatalogScan Unit Unit Unit :=
  { result := ⟨lit "http://t", [padded], [failed], [], [], [], 1, none⟩
    entries := [lost]
    results := rfl
    categories := by
      intro t ht
      cases List.mem_singleton.mp ht
      exact ⟨lit "06", by decide, List.all_eq_true.mp rfl, .inl rfl⟩ }

/-- A critical finding that no category counts. -/
theorem padded_category_lost : ¬ ∀ s : CatalogScan Unit Unit Unit, LosesNothing s := by
  intro h
  have hmem : lost ∈ paddedScan.entries := List.mem_singleton_self lost
  have hbooked := (losesNothing_iff paddedScan).mp (h paddedScan) lost hmem rfl
  have hlast : lastDefining [padded] (lit "p") = some padded := rfl
  have hcategory : lit "T06" = categoryName 6 :=
    ((booked_iff paddedScan).mp hbooked padded hlast).1
  revert hcategory
  decide

end Example

end CosaiMcp.Scorecard
