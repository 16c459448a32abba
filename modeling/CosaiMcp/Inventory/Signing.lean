import CosaiMcp.Inventory.Drift
import CosaiMcp.Py.JsonIndent
import CosaiMcp.Py.Record
import CosaiMcp.Scorecard.Signing

/-!
# Signed inventories

`sign_inventory` signs the canonical text of an inventory, and `verify_inventory` reads an inventory
out of an artifact whose key is the trusted one and whose signature verifies. `inventory capture`
writes an artifact to a file, signed or not, and `inventory diff` compares two files.

The file system is left out: the texts of files are inputs. So is a keyring that holds no key of
Ed25519.
-/

namespace CosaiMcp.Inventory

open Py
open CosaiMcp.Scorecard (Ed25519 hexOf fromHex canonicalBytes)

variable {φ κ : Type}

/-! ## Inventories as documents -/

/-- A record out of `data["tools"]`, which needs the `get` of a `dict`. -/
def readTool [PyFloat φ] (rt : Runtime φ Str) : Json φ → Except PyError ToolRecord
  | .obj ms => .ok (.fromDict rt (.obj ms))
  | _ => .error .attributeError

namespace ToolInventory

/-- The members of the document of an inventory, for these documents of its tools. -/
def members (inv : ToolInventory Str) (tools : List (Json φ)) : List (Str × Json φ) :=
  [(lit "target", .str inv.target), (lit "captured_at", .str inv.capturedAt),
    (lit "protocol_version", .str inv.protocolVersion), (lit "server_name", .str inv.serverName),
    (lit "server_version", .str inv.serverVersion), (lit "tools", .arr tools),
    (lit "content_hash", .str inv.contentHash)]

/-- `none` is `JSONDecodeError`, where a schema cannot be read back. -/
def toDict [FloatText φ] (inv : ToolInventory Str) : Option (Json φ) :=
  (inv.tools.mapM fun t => (t.toDict : Option (Json φ))).map fun tools => .obj (inv.members tools)

def fromDict [PyFloat φ] (rt : Runtime φ Str) (data : Json φ) :
    Except PyError (ToolInventory Str) := do
  let items ← iterate (← getDefault data (lit "tools") (.arr []))
  let tools ← items.mapM (readTool rt)
  let target ← subscript data (lit "target")
  let capturedAt ← subscript data (lit "captured_at")
  let protocolVersion ← getDefault data (lit "protocol_version") (.str [])
  let serverName ← getDefault data (lit "server_name") (.str [])
  let serverVersion ← getDefault data (lit "server_version") (.str [])
  let contentHash ← subscript data (lit "content_hash")
  .ok ⟨rt.strOf target, rt.strOf capturedAt, rt.strOf protocolVersion, rt.strOf serverName,
    rt.strOf serverVersion, tools, rt.strOf contentHash⟩

end ToolInventory

/-! ## Keys -/

inductive ArtifactError where
  /-- The text is no JSON document. -/
  | notJson
  | missingField
  /-- A pinned key that is set and no key. -/
  | trustAnchor
  | noTrustAnchor
  | malformedKey
  | untrustedKey
  | invalidSignature
  /-- An exception other than `SignatureVerificationError`. -/
  | other (error : PyError)

/-- Where the trusted key comes from. -/
structure TrustedKeys (κ : Type) where
  /-- `COSAI_INVENTORY_PUBKEY`. -/
  pinned : Str
  /-- The key that `_get_or_create_private_key` yields, if there is a keyring. -/
  keyring : Option κ

/-- `_get_trusted_public_key_bytes`. -/
def TrustedKeys.trusted (E : Ed25519 κ) (ks : TrustedKeys κ) :
    Except ArtifactError (Option Bytes) :=
  if ks.pinned ≠ [] then
    match b64decodeValidate ks.pinned with
    | none => .error .trustAnchor
    | some raw => if raw.length ≠ 32 then .error .trustAnchor else .ok (some raw)
  else .ok (ks.keyring.map E.publicBytes)

/-! ## Signing and verifying -/

variable [PyFloat φ]

/-- The artifact around the document of an inventory. -/
def signedDocument (E : Ed25519 κ) (k : κ) (inventory : Json φ) : Json φ :=
  .obj [(lit "inventory", inventory),
    (lit "signature", .str (hexOf (E.sign k (canonicalBytes inventory)))),
    (lit "public_key", .str (hexOf (E.publicBytes k)))]

/-- `none` is an exception: without a keyring, or where `to_dict` raises one. -/
def signInventory (E : Ed25519 κ) (ks : TrustedKeys κ) (inv : ToolInventory Str) :
    Option (Json φ) := do
  let k ← ks.keyring
  let inventory ← inv.toDict
  some (signedDocument E k inventory)

/-- `artifact[field]`, with a `KeyError` as a failed verification. -/
def artifactField (artifact : Json φ) (field : Str) : Except ArtifactError (Json φ) :=
  match subscript artifact field with
  | .ok v => .ok v
  | .error .keyError => .error .missingField
  | .error e => .error (.other e)

/-- `bytes.fromhex(v)`, with this error in place of `ValueError`. -/
def hexField (v : Json φ) (malformed : ArtifactError) : Except ArtifactError Bytes :=
  match v with
  | .str s =>
    match fromHex s with
    | some b => .ok b
    | none => .error malformed
  | _ => .error (.other .typeError)

def verifyInventory (E : Ed25519 κ) (rt : Runtime φ Str) (ks : TrustedKeys κ) (artifact : Json φ) :
    Except ArtifactError (ToolInventory Str) := do
  let inventory ← artifactField artifact (lit "inventory")
  let signature ← artifactField artifact (lit "signature")
  let publicKey ← artifactField artifact (lit "public_key")
  match ← ks.trusted E with
  | none => .error .noTrustAnchor
  | some key =>
    let artifactKey ← hexField publicKey .malformedKey
    if artifactKey ≠ key then .error .untrustedKey
    else
      let sig ← hexField signature .invalidSignature
      if !E.verify artifactKey sig (canonicalBytes inventory) then .error .invalidSignature
      else (ToolInventory.fromDict rt inventory).mapError .other

/-! ## The commands -/

/-- The text that `inventory capture` writes, with or without `--no-sign`. -/
def captureText (E : Ed25519 κ) (ks : TrustedKeys κ) (noSign : Bool) (inv : ToolInventory Str) :
    Option Str :=
  (if noSign then inv.toDict else signInventory E ks inv).map fun payload : Json φ =>
    payload.indented 2 0

omit [PyFloat φ] in
/-- `key in data`. -/
def isIn (key : Str) : Json φ → Except PyError Bool
  | .obj ms => .ok (ms.any (·.1 = key))
  | .arr js => .ok (js.any (·.asStr? = some key))
  | .str s => .ok (decide (key <:+: s))
  | _ => .error .typeError

omit [PyFloat φ] in
/-- `"inventory" in data and "signature" in data`. -/
def isSigned (data : Json φ) : Except PyError Bool := do
  if ← isIn (lit "inventory") data then isIn (lit "signature") data else .ok false

/-- `_load` of `inventory_diff`, of the text of a file. -/
def loadInventory (E : Ed25519 κ) (rt : Runtime φ Str) (ks : TrustedKeys κ) (skipVerify : Bool)
    (text : Str) : Except ArtifactError (ToolInventory Str) :=
  match (loads text : Option (Json φ)) with
  | none => .error .notJson
  | some data =>
    match isSigned data with
    | .error e => .error (.other e)
    | .ok true =>
      if skipVerify then
        (subscript data (lit "inventory") >>= ToolInventory.fromDict rt).mapError .other
      else verifyInventory E rt ks data
    | .ok false => (ToolInventory.fromDict rt data).mapError .other

/-- `inventory_diff`; an error is exit code 2. -/
def inventoryDiff (E : Ed25519 κ) (rt : Runtime φ Str) (ks : TrustedKeys κ) (skipVerify : Bool)
    (baseline current : Str) : Except ArtifactError DriftReport := do
  let base ← loadInventory E rt ks skipVerify baseline
  let curr ← loadInventory E rt ks skipVerify current
  .ok (detectDrift base curr)

def diffExitCode (failOnDrift : Bool) : Except ArtifactError DriftReport → Nat
  | .error _ => 2
  | .ok report => if report.entries = [] then 0 else if failOnDrift then 1 else 0

end CosaiMcp.Inventory
