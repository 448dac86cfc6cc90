/-
Client authorization table (`config.rs`).

`AuthzTable.fromConfig` is the loop of `AuthzTable::from_str` over the parsed YAML:
for every client the duplicate check on its trimmed CN, for every permission the
checks of `add_permission` in their order, then the inserts.  A set the source only
tests for membership is a `Finset`; the labels of one permission, which it iterates
over, are a list without duplicates.

* `addPermission`, `addPermissions`, `addClients` — the loops, from the inside out;
* `isAuthorized`, `isPeerKeyAuthorized` — the two questions asked of a table.
-/
import Mathlib.Data.Finset.Insert
import Mathlib.Data.List.AList
import PicoHsm.Crates

namespace PicoHsm

open Text

/-- The six operations. -/
inductive Operation where
  | sign
  | verify
  | encrypt
  | decrypt
  | deriveAndEncrypt
  | deriveAndDecrypt
  deriving DecidableEq, Repr

/-- The derived `{:?}`. -/
def Operation.debug : Operation → String
  | .sign => "Sign"
  | .verify => "Verify"
  | .encrypt => "Encrypt"
  | .decrypt => "Decrypt"
  | .deriveAndEncrypt => "DeriveAndEncrypt"
  | .deriveAndDecrypt => "DeriveAndDecrypt"

def Operation.isDerive : Operation → Bool
  | .deriveAndEncrypt => true
  | .deriveAndDecrypt => true
  | _ => false

structure PermissionEntry where
  operation : Operation
  keyLabels : List String
  peerPublicKeys : Option (List String)

structure ClientEntry where
  cn : String
  permissions : List PermissionEntry

structure FileConfig where
  clients : List ClientEntry

/-- `(cn, operation, key_label)` -/
abbrev Grant := String × Operation × String

structure AuthzTable where
  grants : Finset Grant
  /-- Allowed peer keys; derive operations only. -/
  peerKeys : AList fun _ : Grant => Finset String

namespace AuthzTable

/-- `AuthzTable::default()` -/
def empty : AuthzTable := ⟨∅, ∅⟩

variable (K : Crates)

/-- The first loop of `add_permission`: trim, reject, collect. -/
def checkLabels (cn : String) (op : Operation) (integrityKeyLabel : String) :
    List String → List String → Except String (List String)
  | [], labels => .ok labels
  | l :: rest, labels =>
    let label := trim l
    if label = "" then
      .error (cn ++ " " ++ op.debug ++ ": key_labels contains an empty label")
    else if label = integrityKeyLabel then
      .error (cn ++ " " ++ op.debug ++ ": key label " ++ debugStr K.escaped label ++
        " is the gateway integrity key and must never be granted to clients")
    else if label ∈ labels then
      .error (cn ++ " " ++ op.debug ++ ": duplicate key label " ++ debugStr K.escaped label)
    else checkLabels cn op integrityKeyLabel rest (labels ++ [label])

/-- The loop over `peer_public_keys`. -/
def checkPeerKeys (cn : String) (op : Operation) :
    List String → Finset String → Except String (Finset String)
  | [], vetted => .ok vetted
  | k :: rest, vetted =>
    let key := trim k
    if key = "" then
      .error (cn ++ " " ++ op.debug ++ ": peer_public_keys contains an empty entry")
    else if K.b64.decode key = none then
      .error (cn ++ " " ++ op.debug ++
        ": peer_public_keys contains an entry that is not valid base64")
    else if key ∈ vetted then
      .error (cn ++ " " ++ op.debug ++ ": duplicate peer public key entry")
    else checkPeerKeys cn op rest (insert key vetted)

/-- The insert loop of a derive permission: grant and allowlist for each label. -/
def grantDerive (cn : String) (op : Operation) (vetted : Finset String) :
    List String → AuthzTable → AuthzTable
  | [], t => t
  | label :: rest, t =>
    grantDerive cn op vetted rest
      ⟨insert (cn, op, label) t.grants, t.peerKeys.insert (cn, op, label) vetted⟩

/-- The insert loop of any other permission. -/
def grantPlain (cn : String) (op : Operation) : List String → AuthzTable → AuthzTable
  | [], t => t
  | label :: rest, t =>
    grantPlain cn op rest ⟨insert (cn, op, label) t.grants, t.peerKeys⟩

def addPermission (t : AuthzTable) (cn : String) (perm : PermissionEntry)
    (integrityKeyLabel : String) : Except String AuthzTable :=
  let op := perm.operation
  if perm.keyLabels = [] then
    .error (cn ++ " " ++ op.debug ++ ": key_labels must not be empty")
  else
    match checkLabels K cn op integrityKeyLabel perm.keyLabels [] with
    | .error e => .error e
    | .ok labels =>
      -- an allowlist is given exactly on the derive operations
      match perm.peerPublicKeys, op.isDerive with
      | none, false => .ok (grantPlain cn op labels t)
      | some _, false =>
        .error (cn ++ " " ++ op.debug ++
          ": peer_public_keys is only allowed on derive operations")
      | none, true =>
        .error (cn ++ " " ++ op.debug ++
          ": peer_public_keys allowlist is mandatory for derive operations (no wildcard)")
      | some raw, true =>
        if raw = [] then
          .error (cn ++ " " ++ op.debug ++ ": peer_public_keys must not be empty")
        else
          match checkPeerKeys K cn op raw ∅ with
          | .error e => .error e
          | .ok vetted => .ok (grantDerive cn op vetted labels t)

/-- The permissions of one client. -/
def addPermissions (cn : String) (integrityKeyLabel : String) :
    List PermissionEntry → AuthzTable → Except String AuthzTable
  | [], t => .ok t
  | perm :: rest, t =>
    match addPermission K t cn perm integrityKeyLabel with
    | .error e => .error e
    | .ok t => addPermissions cn integrityKeyLabel rest t

/-- The clients; `seen` are the trimmed CNs so far. -/
def addClients (integrityKeyLabel : String) :
    List ClientEntry → Finset String → AuthzTable → Except String AuthzTable
  | [], _, t => .ok t
  | client :: rest, seen, t =>
    let cn := trim client.cn
    if cn = "" then .error "client entry with empty cn"
    else if cn ∈ seen then .error ("duplicate client cn " ++ debugStr K.escaped cn)
    else
      match addPermissions K cn integrityKeyLabel client.permissions t with
      | .error e => .error e
      | .ok t => addClients integrityKeyLabel rest (insert cn seen) t

/-- `AuthzTable::from_str` behind the YAML parser. -/
def fromConfig (cfg : FileConfig) (integrityKeyLabel : String) : Except String AuthzTable :=
  addClients K integrityKeyLabel cfg.clients ∅ empty

/-- `AuthzTable::from_str`; `yaml` is `serde_yaml::from_str`. -/
def fromStr (yaml : String → Except String FileConfig) (text integrityKeyLabel : String) :
    Except String AuthzTable :=
  match yaml text with
  | .error e => .error (withContext "YAML parse error" e)
  | .ok cfg => fromConfig K cfg integrityKeyLabel

def isAuthorized (t : AuthzTable) (cn : String) (op : Operation) (keyLabel : String) : Bool :=
  (cn, op, keyLabel) ∈ t.grants

def isPeerKeyAuthorized (t : AuthzTable) (cn : String) (op : Operation)
    (keyLabel peerKeyB64 : String) : Bool :=
  match t.peerKeys.lookup (cn, op, keyLabel) with
  | none => false
  | some set => peerKeyB64 ∈ set

end AuthzTable

end PicoHsm
