/-
Wire format (`protocol.rs`): the six requests, their accessors, the responses.

The JSON text of a request is parsed by `serde_json`, a parameter of the gateway
(`Server.lean`); this file has the parsed form.
-/
import PicoHsm.Config

namespace PicoHsm

inductive Request where
  | sign (keyLabel mechanism dataB64 : String)
  | verify (keyLabel mechanism dataB64 signatureB64 : String)
  | encrypt (keyLabel mechanism dataB64 : String)
  | decrypt (keyLabel mechanism dataB64 ivB64 integrityB64 : String)
  | deriveAndEncrypt (keyLabel deriveMechanism targetMechanism peerPublicKeyB64
      dataB64 : String)
  | deriveAndDecrypt (keyLabel deriveMechanism targetMechanism peerPublicKeyB64 ivB64
      integrityB64 dataB64 : String)
  deriving DecidableEq, Repr

namespace Request

def operation : Request → Operation
  | .sign .. => .sign
  | .verify .. => .verify
  | .encrypt .. => .encrypt
  | .decrypt .. => .decrypt
  | .deriveAndEncrypt .. => .deriveAndEncrypt
  | .deriveAndDecrypt .. => .deriveAndDecrypt

/-- `some` only for the derive variants. -/
def peerPublicKeyB64 : Request → Option String
  | .deriveAndEncrypt _ _ _ peer _ => some peer
  | .deriveAndDecrypt _ _ _ peer _ _ _ => some peer
  | _ => none

/-- `(iv_b64, integrity_b64, data_b64)`; `some` only for the decrypt variants. -/
def integrityInput : Request → Option (String × String × String)
  | .decrypt _ _ data iv integrity => some (iv, integrity, data)
  | .deriveAndDecrypt _ _ _ _ iv integrity data => some (iv, integrity, data)
  | _ => none

def keyLabel : Request → String
  | .sign label .. => label
  | .verify label .. => label
  | .encrypt label .. => label
  | .decrypt label .. => label
  | .deriveAndEncrypt label .. => label
  | .deriveAndDecrypt label .. => label

theorem peerPublicKeyB64_isSome (req : Request) :
    req.peerPublicKeyB64.isSome = req.operation.isDerive := by
  cases req <;> rfl

end Request

inductive Response where
  /-- `ivB64` and `integrityB64` are set on the encrypting operations only. -/
  | ok (resultB64 : Option String) (verified : Option Bool) (ivB64 integrityB64 : Option String)
  | denied (reason : String)
  | error (message : String)
  deriving DecidableEq, Repr

namespace Response

/-- The `status` tag on the wire. -/
inductive Status where
  | ok
  | denied
  | error
  deriving DecidableEq, Repr

def status : Response → Status
  | .ok .. => .ok
  | .denied _ => .denied
  | .error _ => .error

end Response

end PicoHsm
