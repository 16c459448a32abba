import CosaiMcp.Catalog.Loader
import CosaiMcp.Py.JsonRead
import CosaiMcp.Scorecard.Signing

/-!
# The files of the catalog

`sign_catalog` writes a signature beside every official file, and `CatalogLoader.load_all` loads the
official files whose signatures verify, the adversarial ones among them if they are asked for, and
the custom ones, which have none. What is signed is the content of a file and not its name: a
directory of the official catalog can be cut down to some of its files, or hold one of them twice
(`loadAll_of_signCatalog`).

The meta-schema is a parameter. A directory is a list of files.
-/

namespace CosaiMcp.Catalog

open Py
open CosaiMcp.Scorecard (Ed25519 fromHex)

variable {φ ρ κ : Type}

/-! ## Files -/

structure CatalogFile where
  name : Str
  content : Bytes
  /-- The content of the `.sig` file beside it. -/
  sidecar : Option Bytes
  /-- A symlink on the way from the root to the file. -/
  isSymlinked : Bool

/-- The JSON files of a catalog. -/
structure CatalogTree where
  official : List CatalogFile
  adversarial : List CatalogFile
  custom : List CatalogFile

inductive CatalogError where
  | traversal
  | noSidecar
  /-- `binascii.Error`, of the sidecar or of `COSAI_PUBKEY`. -/
  | notBase64
  | invalidSignature
  | notJson
  | schema
  | parse (e : LoadError)
  | keyMismatch

/-- `sorted(directory.glob("*.json"))`. -/
def sortedFiles (files : List CatalogFile) : List CatalogFile :=
  files.mergeSort fun a b => strLe a.name b.name

/-! ## Keys -/

theorem byte_le_codePoint : 256 ≤ 0x110000 := by decide

/-- Bytes as the characters that `binascii` reads. -/
def latin1 (b : Bytes) : Str := b.map (Fin.castLE byte_le_codePoint)

/-- `_HARDCODED_PUBLIC_KEY`. -/
def hardcodedPublicKey : Bytes :=
  (fromHex (lit "cecf56fbd9744437e237cc50551e55740eae1a4ebc2ed54c0db101328f91d9ab")).getD []

/-- `get_catalog_public_key`, for this `COSAI_PUBKEY`. -/
def catalogPublicKey (pubkey : Str) : Except CatalogError Bytes :=
  if pubkey = [] then .ok hardcodedPublicKey
  else if !isAscii pubkey then .error .notBase64
  else match a2bBase64 false pubkey with
    | some key => .ok key
    | none => .error .notBase64

variable (E : Ed25519 κ) (pubkey : Str)

/-- `verify_catalog_signature`. A key of another length is malformed. -/
def verifyCatalogSignature (data sig : Bytes) : Except CatalogError Unit := do
  let key ← catalogPublicKey pubkey
  if key.length = 32 ∧ E.verify key sig data = true then return () else throw .invalidSignature

/-! ## Loading -/

/-- `bytes.strip()`. -/
def isByteSpace (b : Byte) : Bool := (9 ≤ b.val && b.val ≤ 13) || b.val = 32

def stripBytes (b : Bytes) : Bytes := (b.dropWhile isByteSpace).rdropWhile isByteSpace

section Load

variable [PyFloat φ] (rt : Runtime φ ρ) (validThreat : Json φ → Bool)

def parseFile (provenance : Provenance) (isCustom allowRegexInCustom : Bool) (content : Bytes) :
    Except CatalogError (ThreatDefinition φ ρ) :=
  match loadsBytes content with
  | none => .error .notJson
  | some data =>
    if validThreat data then
      (parseThreat rt isCustom allowRegexInCustom provenance data).mapError .parse
    else .error .schema

/-- `_load_official`, after `_resolve_safe`. -/
def loadOfficial (file : CatalogFile) : Except CatalogError (ThreatDefinition φ ρ) :=
  if file.isSymlinked then .error .traversal
  else match file.sidecar with
    | none => .error .noSidecar
    | some sidecar =>
      match a2bBase64 false (latin1 (stripBytes sidecar)) with
      | none => .error .notBase64
      | some sig => do
        verifyCatalogSignature E pubkey file.content sig
        parseFile rt validThreat .official false false file.content

/-- `_load_custom`, after `_resolve_safe`. -/
def loadCustom (allowRegexInCustom : Bool) (file : CatalogFile) :
    Except CatalogError (ThreatDefinition φ ρ) :=
  if file.isSymlinked then .error .traversal
  else parseFile rt validThreat .custom true allowRegexInCustom file.content

/-- The files of a directory, where they are asked for. -/
def loadFiles (load : CatalogFile → Except CatalogError (ThreatDefinition φ ρ)) (allowed : Bool)
    (files : List CatalogFile) : Except CatalogError (List (ThreatDefinition φ ρ)) :=
  if allowed then (sortedFiles files).mapM load else .ok []

/-- `CatalogLoader.load_all`. -/
def loadAll (allowCustom allowRegexInCustom allowAdversarial : Bool) (tree : CatalogTree) :
    Except CatalogError (List (ThreatDefinition φ ρ)) := do
  let load := loadOfficial E pubkey rt validThreat
  let official ← loadFiles load true tree.official
  let adversarial ← loadFiles load allowAdversarial tree.adversarial
  let custom ← loadFiles (loadCustom rt validThreat allowRegexInCustom) allowCustom tree.custom
  return official ++ adversarial ++ custom

/-! ## Signing -/

/-- What `sign_catalog` writes beside a file. -/
def sidecarOf (k : κ) (content : Bytes) : Bytes :=
  asciiBytes (b64encode (E.sign k content)) ++ [10]

def withSidecar (k : κ) (file : CatalogFile) : CatalogFile :=
  { file with sidecar := some (sidecarOf E k file.content) }

/-- A file is signed only if it holds JSON. -/
def signFile (k : κ) (file : CatalogFile) : Except CatalogError CatalogFile :=
  match loadsBytes (φ := φ) file.content with
  | none => .error .notJson
  | some _ => .ok (withSidecar E k file)

/-- `sign_catalog`: the files as it leaves them. -/
def signCatalog (k : κ) (tree : CatalogTree) : Except CatalogError CatalogTree := do
  let key ← catalogPublicKey pubkey
  if E.publicBytes k ≠ key then throw .keyMismatch
  let official ← tree.official.mapM (signFile (φ := φ) E k)
  let adversarial ← tree.adversarial.mapM (signFile (φ := φ) E k)
  return { tree with official, adversarial }

end Load

/-! ## The sidecar -/

section Sidecar

theorem latin1_asciiBytes {s : Str} (h : isAscii s = true) : latin1 (asciiBytes s) = s := by
  induction s with
  | nil => rfl
  | cons c s ih =>
    rw [isAscii, List.all_cons, Bool.and_eq_true, decide_eq_true_eq] at h
    have hc : Fin.castLE byte_le_codePoint (Fin.ofNat 256 c.val) = c :=
      Fin.ext (Nat.mod_eq_of_lt (by omega))
    calc latin1 (asciiBytes (c :: s))
        = Fin.castLE byte_le_codePoint (Fin.ofNat 256 c.val) :: latin1 (asciiBytes s) := rfl
      _ = c :: s := by rw [hc, ih h.2]

theorem isByteSpace_of_mem_b64encode {data : Bytes} {b : Byte}
    (h : b ∈ asciiBytes (b64encode data)) : isByteSpace b = false := by
  have hspace : ∀ v : Nat, 33 ≤ v → ((9 ≤ v && v ≤ 13) || decide (v = 32)) = false := by
    intro v hv
    simp
    omega
  obtain ⟨c, hc, hb⟩ := mem_asciiBytes (isAscii_b64encode data) h
  rw [isByteSpace, ← hb]
  apply hspace
  rcases List.mem_append.mp hc with hc | hc
  · obtain ⟨n, hn, rfl⟩ := b64Chars_mem hc
    have hall : ∀ n : Fin 64, 33 ≤ (b64Char n.val).val := by decide
    exact hall ⟨n, hn⟩
  · cases List.eq_of_mem_replicate hc
    decide

theorem stripBytes_sidecarOf (k : κ) (content : Bytes) :
    stripBytes (sidecarOf E k content) = asciiBytes (b64encode (E.sign k content)) := by
  have hspace : ∀ b ∈ asciiBytes (b64encode (E.sign k content)), isByteSpace b = false :=
    fun b hb => isByteSpace_of_mem_b64encode hb
  rw [stripBytes, sidecarOf]
  cases hbytes : asciiBytes (b64encode (E.sign k content)) with
  | nil => rfl
  | cons b bytes =>
    rw [hbytes] at hspace
    have hb : isByteSpace b = false := hspace b List.mem_cons_self
    rw [List.cons_append, List.dropWhile_cons_of_neg (by simp [hb]), ← List.cons_append,
      List.rdropWhile_concat_pos _ _ _ rfl]
    have hlast : isByteSpace ((b :: bytes).getLast (List.cons_ne_nil b bytes)) = false :=
      hspace _ (List.getLast_mem _)
    exact List.rdropWhile_eq_self_iff.mpr fun hne => by simp [hlast]

/-- The signature is read back from the sidecar. -/
theorem a2bBase64_sidecarOf (k : κ) (content : Bytes) :
    a2bBase64 false (latin1 (stripBytes (sidecarOf E k content))) = some (E.sign k content) := by
  rw [stripBytes_sidecarOf, latin1_asciiBytes (isAscii_b64encode _), a2bBase64_b64encode]

end Sidecar

/-! ## What is loaded -/

section Load

variable [PyFloat φ] {E pubkey} {rt : Runtime φ ρ} {validThreat : Json φ → Bool}

theorem verifyCatalogSignature_eq_ok_iff {data sig : Bytes} :
    verifyCatalogSignature E pubkey data sig = .ok () ↔
      ∃ key, catalogPublicKey pubkey = .ok key ∧ key.length = 32 ∧ E.verify key sig data = true := by
  rw [verifyCatalogSignature, bind_eq_ok_iff]
  refine exists_congr fun key => and_congr_right fun _ => ?_
  split
  next h => exact ⟨fun _ => h, fun _ => rfl⟩
  next h => exact ⟨nofun, fun h' => absurd h' h⟩

/-- The file comes with a signature of its content. -/
def IsSigned (E : Ed25519 κ) (pubkey : Str) (file : CatalogFile) : Prop :=
  ∃ sidecar sig, file.sidecar = some sidecar ∧
    a2bBase64 false (latin1 (stripBytes sidecar)) = some sig ∧
    verifyCatalogSignature E pubkey file.content sig = .ok ()

theorem loadOfficial_eq_ok_iff {file : CatalogFile} {t : ThreatDefinition φ ρ} :
    loadOfficial E pubkey rt validThreat file = .ok t ↔ file.isSymlinked = false ∧
      IsSigned E pubkey file ∧ parseFile rt validThreat .official false false file.content = .ok t := by
  rw [loadOfficial, IsSigned]
  cases hsymlinked : file.isSymlinked with
  | true => simp
  | false =>
    cases hsidecar : file.sidecar with
    | none => simp
    | some sidecar =>
      cases hsig : a2bBase64 false (latin1 (stripBytes sidecar)) with
      | none => simp [hsig]
      | some sig =>
        have hload : (loadOfficial E pubkey rt validThreat file = .ok t) ↔
            ∃ u, verifyCatalogSignature E pubkey file.content sig = .ok u ∧
              parseFile rt validThreat .official false false file.content = .ok t := by
          simp only [loadOfficial, hsymlinked, hsidecar, hsig, Bool.false_eq_true, ↓reduceIte]
          exact bind_eq_ok_iff
        rw [loadOfficial, hsymlinked, hsidecar] at hload
        rw [hload]
        constructor
        · rintro ⟨_, hverify, hparse⟩
          exact ⟨rfl, ⟨sidecar, sig, rfl, hsig, hverify⟩, hparse⟩
        · rintro ⟨-, ⟨_, sig', hsome, hsig', hverify⟩, hparse⟩
          cases hsome
          cases hsig.symm.trans hsig'
          exact ⟨(), hverify, hparse⟩

theorem parseThreat_provenance {provenance : Provenance} {isCustom allowRegexInCustom : Bool}
    {data : Json φ} {t : ThreatDefinition φ ρ}
    (h : parseThreat rt isCustom allowRegexInCustom provenance data = .ok t) :
    t.provenance = provenance := by
  simp only [parseThreat, bind_eq_ok_iff] at h
  obtain ⟨_, -, _, -, _, -, _, -, _, -, _, -, _, -, _, -, _, -, _, -, _, -, _, -, _, -, _, -, _, -,
    _, -, _, -, h⟩ := h
  cases h
  rfl

theorem parseFile_provenance {provenance : Provenance} {isCustom allowRegexInCustom : Bool}
    {content : Bytes} {t : ThreatDefinition φ ρ}
    (h : parseFile rt validThreat provenance isCustom allowRegexInCustom content = .ok t) :
    t.provenance = provenance := by
  rw [parseFile] at h
  split at h
  · cases h
  next data _ =>
  split at h
  · cases hparse : parseThreat rt isCustom allowRegexInCustom provenance data with
    | error e => rw [hparse] at h; cases h
    | ok u =>
      rw [hparse] at h
      cases h
      exact parseThreat_provenance hparse
  · cases h

/-- The official files that are loaded. -/
def CatalogTree.loaded (allowAdversarial : Bool) (tree : CatalogTree) : List CatalogFile :=
  sortedFiles tree.official ++ if allowAdversarial then sortedFiles tree.adversarial else []

theorem mem_loaded {allowAdversarial : Bool} {tree : CatalogTree} {file : CatalogFile}
    (h : file ∈ tree.loaded allowAdversarial) : file ∈ tree.official ++ tree.adversarial := by
  rw [List.mem_append]
  rcases List.mem_append.mp h with h | h
  · exact .inl (List.mem_mergeSort.mp h)
  · cases allowAdversarial with
    | false => cases h
    | true => exact .inr (List.mem_mergeSort.mp h)

theorem loadAll_eq_ok_iff {allowCustom allowRegexInCustom allowAdversarial : Bool}
    {tree : CatalogTree} {threats : List (ThreatDefinition φ ρ)} :
    loadAll E pubkey rt validThreat allowCustom allowRegexInCustom allowAdversarial tree = .ok threats ↔
      ∃ official custom, (tree.loaded allowAdversarial).mapM
          (loadOfficial E pubkey rt validThreat) = .ok official ∧
        loadFiles (loadCustom rt validThreat allowRegexInCustom) allowCustom tree.custom = .ok custom ∧
        official ++ custom = threats := by
  have hadversarial : (if allowAdversarial then sortedFiles tree.adversarial else []).mapM
      (loadOfficial E pubkey rt validThreat) =
        loadFiles (loadOfficial E pubkey rt validThreat) allowAdversarial tree.adversarial := by
    cases allowAdversarial <;> rfl
  rw [loadAll, CatalogTree.loaded]
  simp only [mapM_append_eq_ok_iff, hadversarial, bind_eq_ok_iff]
  constructor
  · rintro ⟨official, hofficial, adversarial, hadv, custom, hcustom, h⟩
    cases h
    exact ⟨_, custom, ⟨official, adversarial, hofficial, hadv, rfl⟩, hcustom, rfl⟩
  · rintro ⟨_, custom, ⟨official, adversarial, hofficial, hadv, rfl⟩, hcustom, rfl⟩
    exact ⟨official, hofficial, adversarial, hadv, custom, hcustom, rfl⟩

/-- A threat that is loaded is one of a signed file, unless it comes from a custom file and says
so. -/
theorem provenance_of_loadAll {allowCustom allowRegexInCustom allowAdversarial : Bool}
    {tree : CatalogTree} {threats : List (ThreatDefinition φ ρ)}
    (h : loadAll E pubkey rt validThreat allowCustom allowRegexInCustom allowAdversarial tree = .ok threats)
    {t : ThreatDefinition φ ρ} (ht : t ∈ threats) :
    (t.provenance = .official ∧ ∃ file ∈ tree.official ++ tree.adversarial,
      IsSigned E pubkey file ∧ parseFile rt validThreat .official false false file.content = .ok t) ∨
    (t.provenance = .custom ∧ allowCustom = true ∧ ∃ file ∈ tree.custom,
      parseFile rt validThreat .custom true allowRegexInCustom file.content = .ok t) := by
  obtain ⟨official, custom, hofficial, hcustom, rfl⟩ := loadAll_eq_ok_iff.mp h
  rcases List.mem_append.mp ht with ht | ht
  · obtain ⟨file, hmem, hfile⟩ := mem_of_mapM_eq_ok hofficial ht
    obtain ⟨-, hsigned, hparse⟩ := loadOfficial_eq_ok_iff.mp hfile
    exact .inl ⟨parseFile_provenance hparse, file, mem_loaded hmem, hsigned, hparse⟩
  · cases allowCustom with
    | false => cases hcustom; cases ht
    | true =>
      obtain ⟨file, hmem, hfile⟩ := mem_of_mapM_eq_ok hcustom ht
      rw [loadCustom] at hfile
      split at hfile
      · cases hfile
      · exact .inr ⟨parseFile_provenance hfile, rfl, file, List.mem_mergeSort.mp hmem, hfile⟩

/-! ## A signed catalog -/

theorem sortedFiles_map_withSidecar (k : κ) (files : List CatalogFile) :
    sortedFiles (files.map (withSidecar E k)) = (sortedFiles files).map (withSidecar E k) := by
  rw [sortedFiles, sortedFiles, List.map_mergeSort]
  intro a _ b _
  rfl

theorem eq_map_of_mapM_signFile {k : κ} {files files' : List CatalogFile}
    (h : files.mapM (signFile (φ := φ) E k) = .ok files') : files' = files.map (withSidecar E k) := by
  induction files generalizing files' with
  | nil => cases h; rfl
  | cons file files ih =>
    rw [List.mapM_cons] at h
    obtain ⟨file', hfile, h⟩ := bind_eq_ok_iff.mp h
    obtain ⟨rest, hrest, h⟩ := bind_eq_ok_iff.mp h
    cases h
    rw [signFile] at hfile
    split at hfile
    · cases hfile
    · cases hfile
      rw [ih hrest, List.map_cons]

theorem loaded_signCatalog {k : κ} {tree signed : CatalogTree}
    (h : signCatalog (φ := φ) E pubkey k tree = .ok signed) (allowAdversarial : Bool) :
    catalogPublicKey pubkey = .ok (E.publicBytes k) ∧
      signed.loaded allowAdversarial = (tree.loaded allowAdversarial).map (withSidecar E k) := by
  simp only [signCatalog, bind_eq_ok_iff] at h
  obtain ⟨key, hkey, h⟩ := h
  split at h
  · cases h
  next heq =>
  simp only [bind_eq_ok_iff] at h
  obtain ⟨official, hofficial, adversarial, hadversarial, h⟩ := h
  cases h
  refine ⟨by rw [hkey, not_not.mp heq], ?_⟩
  rw [CatalogTree.loaded, CatalogTree.loaded, eq_map_of_mapM_signFile hofficial,
    eq_map_of_mapM_signFile hadversarial, List.map_append, sortedFiles_map_withSidecar,
    sortedFiles_map_withSidecar]
  cases allowAdversarial <;> rfl

theorem loadOfficial_withSidecar {k : κ} (hkey : catalogPublicKey pubkey = .ok (E.publicBytes k))
    {file : CatalogFile} {t : ThreatDefinition φ ρ} :
    loadOfficial E pubkey rt validThreat (withSidecar E k file) = .ok t ↔ file.isSymlinked = false ∧
      parseFile rt validThreat .official false false file.content = .ok t := by
  have hverify : verifyCatalogSignature E pubkey file.content (E.sign k file.content) = .ok () :=
    verifyCatalogSignature_eq_ok_iff.mpr ⟨_, hkey, E.length_publicBytes k, E.verify_sign k _⟩
  rw [loadOfficial_eq_ok_iff]
  exact and_congr_right fun _ => and_iff_right
    ⟨_, _, rfl, a2bBase64_sidecarOf E k file.content, hverify⟩

/-- No content beside those of the signed files comes with a signature. -/
def Unforged (E : Ed25519 κ) (pubkey : Str) (signed changed : List CatalogFile) : Prop :=
  ∀ file ∈ changed, IsSigned E pubkey file → ∃ original ∈ signed, original.content = file.content

/-- A catalog that was signed loads as what its files define. Whatever is done to it after that, what
is loaded as official is defined by one of the files that were signed. -/
theorem loadAll_of_signCatalog {k : κ} {tree signed changed : CatalogTree}
    (hsign : signCatalog (φ := φ) E pubkey k tree = .ok signed)
    (hunforged : Unforged E pubkey (tree.official ++ tree.adversarial)
      (changed.official ++ changed.adversarial)) :
    (∀ allowAdversarial threats,
      loadAll E pubkey rt validThreat false false allowAdversarial signed = .ok threats ↔
        List.Forall₂ (fun file t => file.isSymlinked = false ∧
          parseFile rt validThreat .official false false file.content = .ok t)
          (tree.loaded allowAdversarial) threats) ∧
    ∀ allowCustom allowRegexInCustom allowAdversarial threats,
      loadAll E pubkey rt validThreat allowCustom allowRegexInCustom allowAdversarial changed = .ok threats →
        ∀ t ∈ threats, (t.provenance = .official ∧ ∃ file ∈ tree.official ++ tree.adversarial,
            parseFile rt validThreat .official false false file.content = .ok t) ∨
          (t.provenance = .custom ∧ allowCustom = true ∧ ∃ file ∈ changed.custom,
            parseFile rt validThreat .custom true allowRegexInCustom file.content = .ok t) := by
  constructor
  · intro allowAdversarial threats
    obtain ⟨hkey, hloaded⟩ := loaded_signCatalog hsign allowAdversarial
    have hmapM {official : List (ThreatDefinition φ ρ)} : ((tree.loaded allowAdversarial).map
        (withSidecar E k)).mapM (loadOfficial E pubkey rt validThreat) = .ok official ↔
          List.Forall₂ (fun file t => file.isSymlinked = false ∧
            parseFile rt validThreat .official false false file.content = .ok t)
            (tree.loaded allowAdversarial) official := by
      rw [mapM_eq_ok_iff, ← List.forall₂_eq_eq_eq, List.forall₂_map_left_iff,
        List.forall₂_map_left_iff, List.forall₂_map_right_iff]
      simp only [loadOfficial_withSidecar hkey]
    rw [loadAll_eq_ok_iff, hloaded]
    constructor
    · rintro ⟨official, custom, hofficial, hcustom, rfl⟩
      cases hcustom
      rw [List.append_nil]
      exact hmapM.mp hofficial
    · intro h
      exact ⟨threats, [], hmapM.mpr h, rfl, List.append_nil threats⟩
  · intro allowCustom allowRegexInCustom allowAdversarial threats h t ht
    refine (provenance_of_loadAll h ht).imp_left fun ⟨hofficial, file, hmem, hsigned, hparse⟩ => ?_
    obtain ⟨original, horiginal, hcontent⟩ := hunforged file hmem hsigned
    exact ⟨hofficial, original, horiginal, hcontent ▸ hparse⟩

end Load

section Example

def plainSignature (m : Bytes) : Bytes := (m ++ List.replicate 64 0).take 64

theorem verify_plainSignature (_ : Unit) (m : Bytes) :
    decide (plainSignature m = plainSignature m) = true := decide_eq_true rfl

theorem length_plainKey (_ : Unit) : (List.replicate 32 (0 : Byte)).length = 32 := rfl

theorem length_plainSignature (_ : Unit) (m : Bytes) : (plainSignature m).length = 64 := by
  simp [plainSignature]

def plainScheme : Ed25519 Unit :=
  { publicBytes := fun _ => List.replicate 32 0
    sign := fun _ m => plainSignature m
    verify := fun _ sig m => decide (sig = plainSignature m)
    verify_sign := verify_plainSignature
    length_publicBytes := length_plainKey
    length_sign := length_plainSignature }

def plainPubkey : Str := b64encode (List.replicate 32 0)

def plainRuntime : Runtime WholeFloat Unit :=
  { str := fun v => v.asStr?.getD []
    strTuple := fun _ => []
    dumps := fun _ => []
    compile := fun _ => none
    search := fun _ _ => false
    unicode := .ascii
    str_str := Json.getD_asStr?_str }

/-- A threat with one probe, that asks for the tools. -/
def plainDocument : Json WholeFloat :=
  .obj [(lit "schema_version", .str (lit "1.2")), (lit "id", .str (lit "T01-001")),
    (lit "category", .str (lit "T1")), (lit "severity", .str (lit "high")),
    (lit "cosai_ref", .str (lit "T1")), (lit "owasp_ref", .str (lit "MCP07:2025")),
    (lit "cwe", .arr [.str (lit "CWE-306")]), (lit "probes", .arr [.obj [(lit "id", .str (lit "T01-001-p1")),
      (lit "transport", .str (lit "http")), (lit "method", .str (lit "tools/list")),
      (lit "payload", .obj []), (lit "assertions", .arr [])]]),
    (lit "remediation", .str []), (lit "references", .arr [])]

def plainThreat : ThreatDefinition WholeFloat Unit :=
  { schemaVersion := lit "1.2", id := lit "T01-001", category := lit "T1", severity := .high,
    cosaiRef := lit "T1", owaspRef := lit "MCP07:2025", cwe := [lit "CWE-306"],
    probes := [⟨lit "T01-001-p1", lit "http", lit "tools/list", [], [], none, .int 1, none, [], false,
      none⟩],
    remediation := [], references := [], provenance := .official, mode := lit "read-only",
    confidence := .medium }

def plainFile (name : Str) : CatalogFile :=
  ⟨name, asciiBytes plainDocument.text, none, false⟩

def plainTree : CatalogTree := ⟨[plainFile (lit "T01-001.json")], [], []⟩

/-- The file, with its signature, under its name and under that of another threat. -/
def copiedTree : CatalogTree :=
  ⟨[withSidecar plainScheme () (plainFile (lit "T01-001.json")),
    withSidecar plainScheme () (plainFile (lit "T01-002.json"))], [], []⟩

theorem loadsBytes_plain : loadsBytes (asciiBytes plainDocument.text) = some plainDocument := by
  have hascii : isAscii plainDocument.text = true := isAscii_of_isGraphic fun _ => isGraphic_of_mem_text
  rw [loadsBytes_encodeUtf8 (encodeUtf8_of_isAscii hascii),
    Json.reload_eq_self _ (Json.stable_of_isPlain rfl)]

theorem parseFile_plain :
    parseFile plainRuntime (fun _ => true) .official false false (asciiBytes plainDocument.text) =
      .ok plainThreat := by
  rw [parseFile, loadsBytes_plain]
  rfl

def signedPlainTree : CatalogTree :=
  ⟨[withSidecar plainScheme () (plainFile (lit "T01-001.json"))], [], []⟩

theorem signCatalog_plain :
    signCatalog (φ := WholeFloat) plainScheme plainPubkey () plainTree = .ok signedPlainTree := by
  have hkey : catalogPublicKey plainPubkey = .ok (plainScheme.publicBytes ()) := by
    have hne : plainPubkey ≠ [] := by simp [plainPubkey, b64encode, b64Chars]
    rw [catalogPublicKey, if_neg hne, plainPubkey, isAscii_b64encode, a2bBase64_b64encode]
    rfl
  have hfile : signFile (φ := WholeFloat) plainScheme () (plainFile (lit "T01-001.json")) =
      .ok (withSidecar plainScheme () (plainFile (lit "T01-001.json"))) := by
    rw [signFile, plainFile, loadsBytes_plain]
  rw [signCatalog, hkey]
  simp [plainTree, hfile]
  rfl

theorem loadAll_plain : loadAll plainScheme plainPubkey plainRuntime (fun _ => true) false false false
    signedPlainTree = .ok [plainThreat] := by
  have hloaded : signedPlainTree.loaded false =
      [withSidecar plainScheme () (plainFile (lit "T01-001.json"))] := by
    simp [CatalogTree.loaded, signedPlainTree, sortedFiles]
  have hkey := (loaded_signCatalog signCatalog_plain false).1
  have hfile : loadOfficial plainScheme plainPubkey plainRuntime (fun _ => true)
      (withSidecar plainScheme () (plainFile (lit "T01-001.json"))) = .ok plainThreat :=
    (loadOfficial_withSidecar hkey).mpr ⟨rfl, parseFile_plain⟩
  refine loadAll_eq_ok_iff.mpr ⟨[plainThreat], [], ?_, rfl, rfl⟩
  rw [hloaded, List.mapM_cons, hfile]
  rfl

theorem loadAll_of_signCatalog_copied :
    signCatalog (φ := WholeFloat) plainScheme plainPubkey () plainTree = .ok signedPlainTree ∧
      loadAll plainScheme plainPubkey plainRuntime (fun _ => true) false false false signedPlainTree =
        .ok [plainThreat] ∧
      ∀ allowCustom allowRegexInCustom allowAdversarial threats, loadAll plainScheme plainPubkey plainRuntime
        (fun _ => true) allowCustom allowRegexInCustom allowAdversarial copiedTree = .ok threats →
          ∀ t ∈ threats, t.provenance = .official := by
  have hunforged : Unforged plainScheme plainPubkey (plainTree.official ++ plainTree.adversarial)
      (copiedTree.official ++ copiedTree.adversarial) := by
    intro file hfile _
    refine ⟨plainFile (lit "T01-001.json"), List.mem_cons_self, ?_⟩
    simp [copiedTree] at hfile
    rcases hfile with rfl | rfl <;> rfl
  obtain ⟨hloads, honly⟩ := @loadAll_of_signCatalog _ _ _ plainScheme plainPubkey _ plainRuntime
    (fun _ => true) _ _ _ _ signCatalog_plain hunforged
  refine ⟨signCatalog_plain, (hloads false [plainThreat]).mpr ?_, ?_⟩
  · have hloaded : plainTree.loaded false = [plainFile (lit "T01-001.json")] := by
      simp [CatalogTree.loaded, plainTree, sortedFiles]
    rw [hloaded]
    exact .cons ⟨rfl, parseFile_plain⟩ .nil
  · intro allowCustom allowRegexInCustom allowAdversarial threats h t ht
    rcases honly _ _ _ threats h t ht with ⟨hofficial, -⟩ | ⟨-, -, file, hfile, -⟩
    · exact hofficial
    · cases hfile

end Example

end CosaiMcp.Catalog
