import CosaiMcp.Inventory.DriftSpec
import CosaiMcp.Inventory.Signing
import CosaiMcp.Scorecard.RoundTrip
import CosaiMcp.Scorecard.Written

/-!
# What a signed inventory tells

An artifact is a text, and what is read of it is the inventory that was written with the surrogate
pairs of its texts joined (`ToolInventory.joined`). A verified artifact yields an inventory that was
signed (`verifyInventory_eq_ok_iff_signed`), and two files that were captured are compared as the
servers listed their tools (`inventoryDiff_captured`).
-/

namespace CosaiMcp.Inventory

open Py ToolRecord
open CosaiMcp.Scorecard (Ed25519 hexOf fromHex fromHex_hexOf canonicalBytes canonicalBytes_inj
  mergePairs_hexOf scheme sorted_eq_str sorted_eq_arr sorted_eq_obj)

variable {φ κ : Type}

/-! ## Values up to the order of keys -/

theorem truthy_sorted [PyFloat φ] (j : Json φ) : j.sorted.truthy = j.truthy := by
  cases j with
  | arr js =>
    rw [Json.sorted, Json.sortedItems_eq, Json.truthy, Json.truthy, List.isEmpty_map]
  | obj ms =>
    rw [Json.sorted_obj, Json.truthy, Json.truthy, List.isEmpty_map, (sortMembers_perm ms).isEmpty_eq]
  | _ => rfl

/-- What is an object up to the order of keys has its values up to the order of keys. -/
theorem exists_of_sorted_eq {x : Json φ} {ns : List (Str × Json φ)} (hx : x.KeysStable)
    (hns : (ns.map Prod.fst).Nodup) (h : x.sorted = (Json.obj ns).sorted) : ∃ ms, x = .obj ms ∧
      ∀ k, ((Json.obj ms).get? k).map Json.sorted = ((Json.obj ns).get? k).map Json.sorted := by
  obtain ⟨ms, rfl⟩ := sorted_eq_obj (h.trans (Json.sorted_obj ns))
  cases hx with
  | obj hn hk hm => exact ⟨ms, rfl, (Json.sorted_obj_eq_iff hn hns).mp h⟩

/-! ## Records of tools -/

namespace ToolRecord

/-- What `ToolRecord.fromDict` makes of a tool. -/
structure IsRecorded (φ : Type) [PyFloat φ] (r : ToolRecord) : Prop where
  name : NoPair r.name
  description : ∀ c ∈ r.description, isControl c = false
  schema : ∃ schema : Json φ, schema.Stable ∧ (schema.truthy = true ∨ schema = .obj []) ∧
    r.inputSchema = schema.canonical

variable [PyFloat φ] {r : ToolRecord}

theorem IsRecorded.isReadable (h : r.IsRecorded φ) : r.IsReadable φ := by
  obtain ⟨schema, hstable, -, hr⟩ := h.schema
  exact ⟨h.name, schema, hstable, hr⟩

theorem truthy_schemaOf (raw : Json φ) :
    (schemaOf raw).truthy = true ∨ schemaOf raw = .obj [] := by
  unfold schemaOf
  split
  · next h => exact Or.inl h
  · split
    · next h => exact Or.inl h
    · exact Or.inr rfl

theorem isControl_of_mem_stripControls {s : Str} {c : CodePoint} (h : c ∈ stripControls s) :
    isControl c = false := by
  have hc := (List.mem_filter.mp h).2
  simpa using hc

theorem isRecorded_fromDict (rt : Runtime φ κ) {raw : Json φ} (h : IsTool raw) :
    (fromDict rt raw).IsRecorded φ := by
  refine ⟨(isReadable_fromDict rt h).1, fun c hc => ?_, ?_⟩
  · exact isControl_of_mem_stripControls hc
  · exact ⟨schemaOf raw, stable_schemaOf h.stable, truthy_schemaOf raw, rfl⟩

omit [PyFloat φ] in
/-- A joined pair is no control character. -/
theorem isControl_joinSurrogates {n m : Nat} (hn : isHighSurrogate n = true)
    (hm : isLowSurrogate m = true) : isControl (joinSurrogates n m) = false := by
  simp only [isHighSurrogate, isLowSurrogate, Bool.and_eq_true, decide_eq_true_eq] at hn hm
  have hval : (joinSurrogates n m).val = 0x10000 + (n - 0xD800) * 0x400 + (m - 0xDC00) := by
    rw [joinSurrogates, Fin.val_ofNat, Nat.mod_eq_of_lt (by omega)]
  simp only [isControl, hval, Bool.or_eq_false_iff, decide_eq_false_iff_not, beq_eq_false_iff_ne]
  omega

theorem isControl_mergePairs {s : Str} (h : ∀ c ∈ s, isControl c = false) :
    ∀ c ∈ mergePairs s, isControl c = false := by
  induction s using mergePairs.induct with
  | case1 => exact h
  | case2 c => exact h
  | case3 a b s hpair ih =>
    have htail := ih fun c hc => h c (List.mem_cons_of_mem a (List.mem_cons_of_mem b hc))
    rw [mergePairs, if_pos hpair]
    intro c hc
    rcases List.mem_cons.mp hc with rfl | hc
    · exact isControl_joinSurrogates hpair.1 hpair.2
    · exact htail c hc
  | case4 a b s hpair ih =>
    have htail := ih fun c hc => h c (List.mem_cons_of_mem a hc)
    rw [mergePairs, if_neg hpair]
    intro c hc
    rcases List.mem_cons.mp hc with rfl | hc
    · exact h c List.mem_cons_self
    · exact htail c hc

theorem IsRecorded.joined (h : r.IsRecorded φ) : r.joined.IsRecorded φ :=
  ⟨h.name, isControl_mergePairs h.description, h.schema⟩

theorem stripControls_eq_self {s : Str} (h : ∀ c ∈ s, isControl c = false) :
    stripControls s = s :=
  List.filter_eq_self.mpr fun c hc => by rw [h c hc]; rfl

theorem asDict_eq_of_inputSchema {schema : Json φ} (h : r.IsReadable φ) (hschema : schema.Stable)
    (hr : r.inputSchema = schema.canonical) :
    r.asDict φ = .obj (r.dictMembers schema.sorted) := by
  obtain ⟨schema', hschema', hr', hdict⟩ := h.asDict_eq
  rw [hdict, sorted_eq_of_canonical_eq hschema hschema' (hr.symm.trans hr')]

/-- A document with the values of a record is read as the record. -/
theorem readTool_of_sorted_eq (rt : Runtime φ Str) {x : Json φ} (h : r.IsRecorded φ)
    (hx : x.KeysStable) (hsame : x.sorted = (r.asDict φ).sorted) : readTool rt x = .ok r := by
  obtain ⟨schema, hschema, htruthy, hr⟩ := h.schema
  rw [asDict_eq_of_inputSchema h.isReadable hschema hr] at hsame
  obtain ⟨ms, rfl, hget⟩ := exists_of_sorted_eq hx (nodup_dictMembers r _) hsame
  have hname : (Json.obj ms).get? (lit "name") = some (.str r.name) := by
    obtain ⟨w, hw, hw'⟩ := Option.map_eq_some_iff.mp (hget (lit "name"))
    rw [hw, sorted_eq_str hw']
  have hdescription : (Json.obj ms).get? (lit "description") = some (.str r.description) := by
    obtain ⟨w, hw, hw'⟩ := Option.map_eq_some_iff.mp (hget (lit "description"))
    rw [hw, sorted_eq_str hw']
  obtain ⟨w, hinput, hw⟩ := Option.map_eq_some_iff.mp (hget (lit "inputSchema"))
  rw [Json.sorted_sorted] at hw
  have hother : (Json.obj ms).get? (lit "input_schema") = none :=
    Option.map_eq_none_iff.mp (hget (lit "input_schema"))
  have hread : (schemaOf (.obj ms)).canonical = r.inputSchema := by
    have hcanonical : w.canonical = r.inputSchema := by
      rw [hr, Json.canonical, Json.canonical, hw]
    unfold schemaOf Json.getOrNull
    rw [hinput, hother]
    by_cases ht : w.truthy = true
    · exact (congrArg Json.canonical (if_pos ht)).trans hcanonical
    · rw [Option.getD_some, if_neg ht, if_neg (by exact Bool.false_ne_true)]
      rw [← truthy_sorted, hw, truthy_sorted] at ht
      rw [hr, htruthy.resolve_left ht]
  rw [readTool, fromDict, hname, hdescription, hread, Option.getD_some, Option.getD_some,
    rt.strOf_str, rt.strOf_str, stripControls_eq_self h.description]

theorem mapM_readTool (rt : Runtime φ Str) {tools : List ToolRecord} {is : List (Json φ)}
    (h : ∀ r ∈ tools, r.IsRecorded φ) (his : ∀ i ∈ is, i.KeysStable)
    (hsame : is.map Json.sorted = (tools.map (asDict φ)).map Json.sorted) :
    is.mapM (readTool rt) = .ok tools := by
  rw [mapM_eq_ok_iff]
  induction tools generalizing is with
  | nil => exact congrArg (List.map (readTool rt)) (List.map_eq_nil_iff.mp hsame)
  | cons r tools ih =>
    cases is with
    | nil => cases hsame
    | cons i is =>
      obtain ⟨hhead, htail⟩ := List.cons.inj hsame
      rw [List.map_cons, List.map_cons, readTool_of_sorted_eq rt (h r List.mem_cons_self)
        (his i List.mem_cons_self) hhead]
      congr 1
      exact ih (fun s hs => h s (List.mem_cons_of_mem r hs))
        (fun j hj => his j (List.mem_cons_of_mem i hj)) htail

end ToolRecord

/-! ## Inventories -/

namespace ToolInventory

/-- The inventory with the surrogate pairs of its texts joined. -/
def joined (inv : ToolInventory Str) : ToolInventory Str :=
  ⟨mergePairs inv.target, mergePairs inv.capturedAt, mergePairs inv.protocolVersion,
    mergePairs inv.serverName, mergePairs inv.serverVersion, inv.tools.map ToolRecord.joined,
    mergePairs inv.contentHash⟩

theorem nodup_members (inv : ToolInventory Str) (tools : List (Json φ)) :
    ((inv.members tools).map Prod.fst).Nodup := by
  have hkeys : [lit "target", lit "captured_at", lit "protocol_version", lit "server_name",
    lit "server_version", lit "tools", lit "content_hash"].Nodup := by decide
  exact hkeys

theorem isScalar_members (inv : ToolInventory Str) (tools : List (Json φ)) :
    ((inv.members tools).map Prod.fst).all isScalar = true := by
  have hkeys : [lit "target", lit "captured_at", lit "protocol_version", lit "server_name",
    lit "server_version", lit "tools", lit "content_hash"].all isScalar = true := by decide
  exact hkeys

variable [PyFloat φ]

/-- Its tools are records of tools. -/
def IsRecorded (φ : Type) [PyFloat φ] (inv : ToolInventory Str) : Prop :=
  ∀ r ∈ inv.tools, r.IsRecorded φ

/-- The document of an inventory whose schemas can be read back. -/
def asDict (φ : Type) [PyFloat φ] (inv : ToolInventory Str) : Json φ :=
  .obj (inv.members (inv.tools.map (ToolRecord.asDict φ)))

variable {inv : ToolInventory Str}

theorem IsRecorded.joined (h : inv.IsRecorded φ) : inv.joined.IsRecorded φ :=
  List.forall_mem_map.mpr fun r hr => (h r hr).joined

theorem IsRecorded.isReadable (h : inv.IsRecorded φ) : ∀ r ∈ inv.tools, r.IsReadable φ :=
  fun r hr => (h r hr).isReadable

theorem IsRecorded.toDict_eq (h : inv.IsRecorded φ) : inv.toDict = some (inv.asDict φ) := by
  rw [toDict, mapM_toDict h.isReadable]
  rfl

theorem IsRecorded.keysStable (h : inv.IsRecorded φ) : (inv.asDict φ).KeysStable := by
  refine keysStable_record (nodup_members inv _) (isScalar_members inv _) ?_
  simp only [members, List.forall_mem_cons]
  exact ⟨.str _, .str _, .str _, .str _, .str _, keysStable_dicts h.isReadable, .str _,
    List.forall_mem_nil _⟩

theorem IsRecorded.reload_asDict (h : inv.IsRecorded φ) :
    (inv.asDict φ).reload = inv.joined.asDict φ := by
  rw [asDict, reload_record (nodup_members inv _) (isScalar_members inv _)]
  have htools := reload_dicts h.isReadable
  simp only [members, List.map_cons, List.map_nil, htools]
  rfl

/-- A document with the values of an inventory is read as the inventory. -/
theorem IsRecorded.fromDict_of_sorted_eq (rt : Runtime φ Str) (h : inv.IsRecorded φ) {x : Json φ}
    (hx : x.KeysStable) (hsame : x.sorted = (inv.asDict φ).sorted) :
    fromDict rt x = .ok inv := by
  obtain ⟨ms, rfl, hget⟩ := exists_of_sorted_eq hx (nodup_members inv _) hsame
  have htext : ∀ key s, (Json.obj (inv.members (inv.tools.map (ToolRecord.asDict φ)))).get? key =
      some (.str s) → (Json.obj ms).get? key = some (.str s) := by
    intro key s hkey
    have hk := hget key
    rw [hkey] at hk
    obtain ⟨w, hw, hw'⟩ := Option.map_eq_some_iff.mp hk
    rw [hw, sorted_eq_str hw']
  obtain ⟨w, htools, hw⟩ := Option.map_eq_some_iff.mp (hget (lit "tools"))
  obtain ⟨is, rfl, his⟩ := sorted_eq_arr hw
  have hitems : ∀ i ∈ is, i.KeysStable := by
    cases hx with
    | obj hn hk hm =>
      cases hm _ ((Json.get?_eq_some_iff hn).mp htools) with
      | arr hitems => exact hitems
  have hread : is.mapM (readTool rt) = .ok inv.tools := by
    rw [Json.sortedItems_eq] at his
    exact mapM_readTool rt h hitems his
  simp only [fromDict, getDefault_eq htools, iterate, hread, ok_bind,
    subscript_eq (htext (lit "target") _ rfl), subscript_eq (htext (lit "captured_at") _ rfl),
    getDefault_eq (htext (lit "protocol_version") _ rfl),
    getDefault_eq (htext (lit "server_name") _ rfl),
    getDefault_eq (htext (lit "server_version") _ rfl),
    subscript_eq (htext (lit "content_hash") _ rfl), rt.strOf_str]

end ToolInventory

/-! ## Verified artifacts -/

section Verify

variable [PyFloat φ] {E : Ed25519 κ} {rt : Runtime φ Str} {ks : TrustedKeys κ} {artifact : Json φ}

omit [PyFloat φ] in
theorem artifactField_eq_ok_iff {field : Str} {v : Json φ} :
    artifactField artifact field = .ok v ↔ artifact.get? field = some v := by
  cases artifact with
  | obj ms =>
    rw [artifactField, subscript]
    cases (Json.obj ms).get? field <;> simp
  | _ => simp [artifactField, subscript, Json.get?]

omit [PyFloat φ] in
theorem hexField_eq_ok_iff {v : Json φ} {malformed : ArtifactError} {b : Bytes} :
    hexField v malformed = .ok b ↔ ∃ s, v = .str s ∧ fromHex s = some b := by
  cases v with
  | str s =>
    cases hs : fromHex s <;> simp [hexField, hs]
  | _ => simp [hexField]

/-- The artifact has the trusted key, and a signature of this document that it verifies. -/
def IsVerified (E : Ed25519 κ) (ks : TrustedKeys κ) (artifact inventory : Json φ) : Prop :=
  ∃ key publicKey signature sig, ks.trusted E = .ok (some key) ∧
    artifact.get? (lit "inventory") = some inventory ∧
    artifact.get? (lit "public_key") = some (.str publicKey) ∧ fromHex publicKey = some key ∧
    artifact.get? (lit "signature") = some (.str signature) ∧ fromHex signature = some sig ∧
    E.verify key sig (canonicalBytes inventory) = true

theorem verifyInventory_eq_ok_iff {inv : ToolInventory Str} :
    verifyInventory E rt ks artifact = .ok inv ↔
      ∃ inventory, IsVerified E ks artifact inventory ∧ ToolInventory.fromDict rt inventory = .ok inv := by
  unfold verifyInventory
  simp only [bind_eq_ok_iff, artifactField_eq_ok_iff]
  constructor
  · rintro ⟨inventory, hinventory, signature, hsignature, publicKey, hpublic, trusted, htrusted, h⟩
    cases trusted with
    | none => cases h
    | some key =>
      obtain ⟨artifactKey, hkey, h⟩ := bind_eq_ok_iff.mp h
      obtain ⟨hsame, h⟩ := ite_error_eq_ok_iff.mp h
      obtain ⟨sig, hsig, h⟩ := bind_eq_ok_iff.mp h
      obtain ⟨hverify, hread⟩ := ite_error_eq_ok_iff.mp h
      obtain ⟨p, rfl, hp⟩ := hexField_eq_ok_iff.mp hkey
      obtain ⟨s, rfl, hs⟩ := hexField_eq_ok_iff.mp hsig
      cases not_not.mp hsame
      exact ⟨inventory, ⟨_, p, s, sig, htrusted, hinventory, hpublic, hp, hsignature, hs,
        by simpa using hverify⟩, mapError_eq_ok_iff.mp hread⟩
  · rintro ⟨inventory, ⟨key, p, s, sig, htrusted, hinventory, hpublic, hp, hsignature, hs, hverify⟩,
      hread⟩
    refine ⟨inventory, hinventory, _, hsignature, _, hpublic, _, htrusted, ?_⟩
    refine bind_eq_ok_iff.mpr ⟨key, hexField_eq_ok_iff.mpr ⟨p, rfl, hp⟩, ?_⟩
    refine ite_error_eq_ok_iff.mpr ⟨not_not.mpr rfl, ?_⟩
    refine bind_eq_ok_iff.mpr ⟨sig, hexField_eq_ok_iff.mpr ⟨s, rfl, hs⟩, ?_⟩
    exact ite_error_eq_ok_iff.mpr ⟨by simp [hverify], mapError_eq_ok_iff.mpr hread⟩

/-- The inventory was captured from a server. -/
def IsCaptured (rt : Runtime φ Str) (inv : ToolInventory Str) : Prop :=
  ∃ (c : Capture) (rawTools : List (Json φ)), (∀ raw ∈ rawTools, IsTool raw) ∧
    c.build rt rawTools = some inv

/-- The signature was not forged: if it verifies, its bytes are those of an inventory that was
signed. -/
def Unforged (E : Ed25519 κ) (ks : TrustedKeys κ) (signed : ToolInventory Str → Prop)
    (artifact : Json φ) : Prop :=
  ∀ inventory, IsVerified E ks artifact inventory → ∃ inv, ∃ document : Json φ, signed inv ∧
    inv.toDict = some document ∧ canonicalBytes inventory = canonicalBytes document

theorem isRecorded_of_build {c : Capture} {A : List (Json φ)} (hA : ∀ raw ∈ A, IsTool raw)
    {inv : ToolInventory Str} (h : c.build rt A = some inv) : inv.IsRecorded φ := by
  obtain ⟨inv', h', -, -, htools, -⟩ := build_eq rt c hA
  cases h'.symm.trans h
  intro r hr
  rw [htools, mem_sortByName] at hr
  obtain ⟨raw, hraw, rfl⟩ := List.mem_map.mp hr
  exact isRecorded_fromDict rt (hA raw hraw)

/-- A document with the bytes of an inventory is read as the inventory, with its pairs joined. -/
theorem fromDict_of_canonicalBytes_eq {inv : ToolInventory Str} (h : inv.IsRecorded φ) {x : Json φ}
    (hx : x.Stable) (hbytes : canonicalBytes x = canonicalBytes (inv.asDict φ)) :
    ToolInventory.fromDict rt x = .ok inv.joined := by
  have hsorted := reload_sorted_of_canonical_eq (canonicalBytes_inj.mp hbytes)
  rw [Json.reload_eq_self _ (stable_sorted x hx), h.keysStable.reload_sorted,
    h.reload_asDict] at hsorted
  exact h.joined.fromDict_of_sorted_eq rt hx.keysStable hsorted

/-- An artifact verifies exactly if it has the trusted key and a signature of an inventory that was
signed, and yields this inventory with the surrogate pairs of its texts joined. -/
theorem verifyInventory_eq_ok_iff_signed {signed : ToolInventory Str → Prop}
    (hsigned : ∀ inv, signed inv → IsCaptured rt inv) (hartifact : artifact.Stable)
    (hunforged : Unforged E ks signed artifact) {inv' : ToolInventory Str} :
    verifyInventory E rt ks artifact = .ok inv' ↔
      ∃ inventory inv, ∃ document : Json φ, IsVerified E ks artifact inventory ∧ signed inv ∧
        inv.toDict = some document ∧ canonicalBytes inventory = canonicalBytes document ∧
        inv' = inv.joined := by
  have hread : ∀ inventory inv, ∀ document : Json φ, IsVerified E ks artifact inventory →
      signed inv → inv.toDict = some document → canonicalBytes inventory = canonicalBytes document →
      ToolInventory.fromDict rt inventory = .ok inv.joined := by
    rintro inventory inv document ⟨-, -, -, -, -, hinventory, -⟩ hs hdocument hbytes
    obtain ⟨c, A, hA, hbuild⟩ := hsigned inv hs
    have hrecorded := isRecorded_of_build hA hbuild
    cases hrecorded.toDict_eq.symm.trans hdocument
    exact fromDict_of_canonicalBytes_eq hrecorded (stable_of_get? hartifact hinventory) hbytes
  rw [verifyInventory_eq_ok_iff]
  constructor
  · rintro ⟨inventory, hverified, hfrom⟩
    obtain ⟨inv, document, hs, hdocument, hbytes⟩ := hunforged inventory hverified
    have hinv := hread inventory inv document hverified hs hdocument hbytes
    exact ⟨inventory, inv, document, hverified, hs, hdocument, hbytes,
      Except.ok.inj (hfrom.symm.trans hinv)⟩
  · rintro ⟨inventory, inv, document, hverified, hs, hdocument, hbytes, rfl⟩
    exact ⟨inventory, hverified, hread inventory inv document hverified hs hdocument hbytes⟩

end Verify

/-! ## Files -/

section Files

variable [PyFloat φ] {E : Ed25519 κ} {rt : Runtime φ Str} {ks : TrustedKeys κ} {k : κ}
  {inv : ToolInventory Str}

/-- What is read of an artifact is the artifact of what is read of the document. -/
theorem reload_signedDocument {inventory : Json φ} (h : inventory.KeysStable) :
    (signedDocument E k inventory).reload = signedDocument E k inventory.reload := by
  have hkeys : [lit "inventory", lit "signature", lit "public_key"].Nodup := by decide
  have hscalar : [lit "inventory", lit "signature", lit "public_key"].all isScalar = true := by
    decide
  have hbytes : canonicalBytes inventory.reload = canonicalBytes inventory :=
    canonicalBytes_inj.mpr h.canonical_reload
  unfold signedDocument
  rw [reload_record (by exact hkeys) (by exact hscalar), hbytes]
  simp only [List.map_cons, List.map_nil, Json.reload, mergePairs_hexOf]

theorem isVerified_signedDocument (htrusted : ks.trusted E = .ok (some (E.publicBytes k)))
    (inventory : Json φ) : IsVerified E ks (signedDocument E k inventory) inventory :=
  ⟨E.publicBytes k, _, _, E.sign k (canonicalBytes inventory), htrusted, rfl, rfl,
    fromHex_hexOf _, rfl, fromHex_hexOf _, E.verify_sign k _⟩

omit [PyFloat φ] in
theorem isSigned_members (inv : ToolInventory Str) (tools : List (Json φ)) :
    isSigned (.obj (inv.members tools)) = .ok false := by
  have hnot : ([lit "target", lit "captured_at", lit "protocol_version", lit "server_name",
    lit "server_version", lit "tools", lit "content_hash"].any (· = lit "inventory")) = false := by
    decide
  exact congrArg (fun b => (Except.ok b : Except PyError Bool) >>= fun signed =>
    if signed then isIn (lit "signature") (.obj (inv.members tools)) else .ok false) hnot

theorem isSigned_signedDocument (inventory : Json φ) :
    isSigned (signedDocument E k inventory) = .ok true := rfl

/-- A file that was captured is loaded as the inventory, with its pairs joined. -/
theorem loadInventory_captureText (rt : Runtime φ Str) (hk : ks.keyring = some k)
    (htrusted : ks.trusted E = .ok (some (E.publicBytes k))) (h : inv.IsRecorded φ)
    (skipVerify noSign : Bool) : ∃ text, captureText (φ := φ) E ks noSign inv = some text ∧
      loadInventory E rt ks skipVerify text = .ok inv.joined := by
  have hread : ToolInventory.fromDict rt (inv.joined.asDict φ) = .ok inv.joined :=
    h.joined.fromDict_of_sorted_eq rt h.joined.keysStable rfl
  cases noSign with
  | true =>
    refine ⟨(inv.asDict φ).indented 2 0, ?_, ?_⟩
    · rw [captureText, if_pos rfl, h.toDict_eq]
      rfl
    · rw [loadInventory, loads_indented, h.reload_asDict]
      dsimp only
      rw [ToolInventory.asDict, isSigned_members]
      exact mapError_eq_ok_iff.mpr hread
  | false =>
    refine ⟨(signedDocument E k (inv.asDict φ)).indented 2 0, ?_, ?_⟩
    · rw [captureText, if_neg Bool.false_ne_true, signInventory, hk, h.toDict_eq]
      rfl
    · rw [loadInventory, loads_indented, reload_signedDocument h.keysStable, h.reload_asDict]
      dsimp only
      rw [isSigned_signedDocument]
      cases skipVerify with
      | true => exact mapError_eq_ok_iff.mpr hread
      | false =>
        exact verifyInventory_eq_ok_iff.mpr ⟨_, isVerified_signedDocument htrusted _, hread⟩

/-- The last tool of each name is the same in both lists, with surrogate pairs joined. -/
def SameTools (rt : Runtime φ Str) (A B : List (Json φ)) : Prop :=
  ∀ n, (lastNamed (recordsOf rt A) n).map ToolRecord.joined =
    (lastNamed (recordsOf rt B) n).map ToolRecord.joined

omit [PyFloat φ] in
theorem lastNamed_map_joined (tools : List ToolRecord) (n : Str) :
    lastNamed (tools.map ToolRecord.joined) n = (lastNamed tools n).map ToolRecord.joined := by
  rw [lastNamed, lastNamed, List.filter_map, List.getLast?_map]
  rfl

/-- Two files that were captured, signed or not, are compared, and drift is reported exactly if
the servers did not show the same tools. -/
theorem inventoryDiff_captured (hk : ks.keyring = some k)
    (htrusted : ks.trusted E = .ok (some (E.publicBytes k))) {A B : List (Json φ)}
    (hA : ∀ raw ∈ A, IsTool raw) (hB : ∀ raw ∈ B, IsTool raw) (c d : Capture)
    (skipVerify noSign noSign' failOnDrift : Bool) :
    ∃ base curr baseline current report, c.build rt A = some base ∧ d.build rt B = some curr ∧
      captureText (φ := φ) E ks noSign base = some baseline ∧
      captureText (φ := φ) E ks noSign' curr = some current ∧
      inventoryDiff E rt ks skipVerify baseline current = .ok report ∧
      report = detectDrift base.joined curr.joined ∧
      (report.entries = [] ↔ SameTools rt A B) ∧
      (diffExitCode failOnDrift (.ok report) = 0 ↔ failOnDrift = true → SameTools rt A B) := by
  obtain ⟨base, hbase, -, -, hbtools, -⟩ := build_eq rt c hA
  obtain ⟨curr, hcurr, -, -, hctools, -⟩ := build_eq rt d hB
  obtain ⟨baseline, hbtext, hbload⟩ := loadInventory_captureText rt hk htrusted
    (isRecorded_of_build hA hbase) skipVerify noSign
  obtain ⟨current, hctext, hcload⟩ := loadInventory_captureText rt hk htrusted
    (isRecorded_of_build hB hcurr) skipVerify noSign'
  have hjoined : ∀ (inv : ToolInventory Str) {A : List (Json φ)},
      inv.tools = sortByName (recordsOf rt A) →
        inv.joined.tools = sortByName ((recordsOf rt A).map ToolRecord.joined) := by
    intro inv A htools
    rw [sortByName_map joined_name, ← htools]
    rfl
  have hentries : (detectDrift base.joined curr.joined).entries = [] ↔ SameTools rt A B := by
    rw [entries_eq_nil_iff (hjoined base hbtools) (hjoined curr hctools)]
    simp only [lastNamed_map_joined]
    rfl
  refine ⟨base, curr, baseline, current, _, hbase, hcurr, hbtext, hctext, ?_, rfl, hentries, ?_⟩
  · rw [inventoryDiff, hbload, hcload]
    rfl
  · rw [← hentries, diffExitCode]
    by_cases hnil : (detectDrift base.joined curr.joined).entries = []
    · simp [hnil]
    · cases failOnDrift <;> simp [hnil]

end Files

section Example

private def ownKeys : TrustedKeys Unit := ⟨[], some ()⟩

private theorem trusted_ownKeys : ownKeys.trusted scheme = .ok (some (scheme.publicBytes ())) := rfl

private def plainCapture : Capture := ⟨lit "http://t", [], [], [], []⟩

/-- What is read of an artifact of this inventory. -/
private def readArtifact (inv : ToolInventory Str) : Json WholeFloat :=
  (signedDocument scheme () (inv.asDict WholeFloat)).reload

private theorem unforged_readArtifact {inv : ToolInventory Str} (h : inv.IsRecorded WholeFloat) :
    Unforged scheme ownKeys (· = inv) (readArtifact inv) := by
  rintro inventory ⟨-, -, -, -, -, hinventory, -⟩
  rw [readArtifact, reload_signedDocument h.keysStable] at hinventory
  cases hinventory
  exact ⟨inv, _, rfl, h.toDict_eq, canonicalBytes_inj.mpr h.keysStable.canonical_reload⟩

theorem verifyInventory_eq_ok_iff_signed_honest : ∃ inv : ToolInventory Str,
    plainCapture.build plainRuntime honestTools = some inv ∧
      verifyInventory scheme plainRuntime ownKeys (readArtifact inv) = .ok inv.joined := by
  obtain ⟨inv, hinv, -⟩ := build_eq plainRuntime plainCapture isTool_honestTools
  have h := isRecorded_of_build isTool_honestTools hinv
  have hverified := isVerified_signedDocument trusted_ownKeys (inv.asDict WholeFloat).reload
  rw [← reload_signedDocument h.keysStable] at hverified
  refine ⟨inv, hinv, (verifyInventory_eq_ok_iff_signed ?_ (stable_reload _)
    (unforged_readArtifact h)).mpr ⟨_, inv, _, hverified, rfl, h.toDict_eq, ?_, rfl⟩⟩
  · rintro _ rfl
    exact ⟨plainCapture, honestTools, isTool_honestTools, hinv⟩
  · exact canonicalBytes_inj.mpr h.keysStable.canonical_reload

theorem inventoryDiff_captured_shadowed :
    ∃ base curr baseline current report, plainCapture.build plainRuntime honestTools = some base ∧
      plainCapture.build plainRuntime shadowedTools = some curr ∧
      captureText (φ := WholeFloat) scheme ownKeys false base = some baseline ∧
      captureText (φ := WholeFloat) scheme ownKeys false curr = some current ∧
      inventoryDiff scheme plainRuntime ownKeys false baseline current = .ok report ∧
      report = detectDrift base.joined curr.joined ∧
      (report.entries = [] ↔ SameTools plainRuntime honestTools shadowedTools) ∧
      (diffExitCode true (.ok report) = 0 ↔
        true = true → SameTools plainRuntime honestTools shadowedTools) :=
  inventoryDiff_captured rfl trusted_ownKeys isTool_honestTools isTool_shadowedTools plainCapture
    plainCapture false false false true

end Example

end CosaiMcp.Inventory
