/-
Narrow PKCS#11 layer (`hsm.rs`).

`P11Op` are the calls of the `cryptoki` crate that the gateway makes; the token
behind them is not modelled here, so a statement about an operation of `HsmClient`
is one about every way the token may answer.  A `Session` is closed when it is
dropped: every operation ends with `closeSession`, also when an earlier step failed.

* `HsmCall`, `HsmClient.perform` — the six operations, as data and as programs;
* `HsmCall.Keeps` — what such a program may do: look up its one key by class and
  label, and use what it found;
* `perform_keeps` — all six keep to it.
-/
import PicoHsm.Crates
import PicoHsm.Prog

namespace PicoHsm

open Text Effects

/-! ### PKCS#11 -/

inductive ObjectClass where
  | privateKey
  | publicKey
  | secretKey
  deriving DecidableEq, Repr

inductive KeyType where
  | aes
  deriving DecidableEq, Repr

inductive Attribute where
  | class (c : ObjectClass)
  | label (bytes : List UInt8)
  | keyType (t : KeyType)
  | valueLen (n : Nat)
  | token (b : Bool)
  | sensitive (b : Bool)
  | encrypt (b : Bool)
  | decrypt (b : Bool)
  deriving DecidableEq, Repr

inductive Mechanism where
  | ecdsaSha256
  | aesCbcPad (iv : List UInt8)
  /-- With the SHA-256 key derivation function. -/
  | ecdh1Derive (sharedData publicData : List UInt8)
  deriving DecidableEq, Repr

/-- The return values of PKCS#11 that matter here. -/
inductive RvError where
  | signatureInvalid
  | signatureLenRange
  | userAlreadyLoggedIn
  | other (code : Nat)
  deriving DecidableEq, Repr

/-- `cryptoki::error::Error`, with its text. -/
inductive Pkcs11Error where
  | pkcs11 (rv : RvError) (text : String)
  | other (text : String)
  deriving DecidableEq, Repr

def Pkcs11Error.display : Pkcs11Error → String
  | .pkcs11 _ text => text
  | .other text => text

inductive P11Op where
  | openRwSession (slot : Nat)
  | login (session : Nat) (pin : String)
  | findObjects (session : Nat) (template : List Attribute)
  | sign (session : Nat) (mech : Mechanism) (key : Nat) (data : List UInt8)
  | verify (session : Nat) (mech : Mechanism) (key : Nat) (data signature : List UInt8)
  | generateRandom (session : Nat) (len : Nat)
  | encrypt (session : Nat) (mech : Mechanism) (key : Nat) (data : List UInt8)
  | decrypt (session : Nat) (mech : Mechanism) (key : Nat) (data : List UInt8)
  | deriveKey (session : Nat) (mech : Mechanism) (base : Nat) (template : List Attribute)
  /-- Dropping the `Session`. -/
  | closeSession (session : Nat)

def P11Op.Ret : P11Op → Type
  | .openRwSession _ => Except Pkcs11Error Nat
  | .login _ _ => Except Pkcs11Error Unit
  | .findObjects _ _ => Except Pkcs11Error (List Nat)
  | .sign _ _ _ _ => Except Pkcs11Error (List UInt8)
  | .verify _ _ _ _ _ => Except Pkcs11Error Unit
  | .generateRandom _ _ => Except Pkcs11Error (List UInt8)
  | .encrypt _ _ _ _ => Except Pkcs11Error (List UInt8)
  | .decrypt _ _ _ _ => Except Pkcs11Error (List UInt8)
  | .deriveKey _ _ _ _ => Except Pkcs11Error Nat
  | .closeSession _ => Unit

abbrev p11Sig : Sig := ⟨P11Op, P11Op.Ret⟩

/-- `.context(..)?` on a `cryptoki` result. -/
def questionWith {α : Type} (ctx : String) : Except Pkcs11Error α → Except String α
  | .ok a => .ok a
  | .error e => .error (withContext ctx e.display)

/-! ### The client -/

/-- Domain separation for the ECDH KDF. -/
def kdfSharedData : List UInt8 := utf8 "pico-hsm-api-connector/kdf-v1"

/-- Length in bytes of the derived AES key. -/
def derivedAesLen : Nat := 32

structure HsmClient where
  slot : Nat
  pin : String

namespace HsmClient

/-- A session that fails to log in is dropped. -/
def openSession (c : HsmClient) : Prog p11Sig (Except String Nat) :=
  .call (.openRwSession c.slot) fun (r : Except Pkcs11Error Nat) =>
    match r with
    | .error e => .ret (.error e.display)
    | .ok session => .call (.login session c.pin) fun (r : Except Pkcs11Error Unit) =>
      match r with
      | .error e => .call (.closeSession session) fun _ => .ret (.error e.display)
      | .ok _ => .ret (.ok session)

/-- `let session = self.open_session()?; ..`, with the drop of the session at the end
of the scope. -/
def withSession {α : Type} (c : HsmClient) (body : Nat → Prog p11Sig (Except String α)) :
    Prog p11Sig (Except String α) :=
  c.openSession.andThen fun session =>
    body session >>= fun r => .call (.closeSession session) fun _ => .ret r

variable (K : Crates)

def bailKey {α : Type} (label why : String) : Prog p11Sig (Except String α) :=
  .ret (.error ("key " ++ debugStr K.escaped label ++ ": " ++ why))

/-- The template of a key lookup. -/
def keyTemplate (label : String) (cls : ObjectClass) : List Attribute :=
  [.class cls, .label (utf8 label)]

def findKeyByLabel (session : Nat) (label : String) (cls : ObjectClass) :
    Prog p11Sig (Except String Nat) :=
  .call (.findObjects session (keyTemplate label cls)) fun (r : Except Pkcs11Error (List Nat)) =>
    match r with
    | .error e => .ret (.error e.display)
    | .ok [handle] => .ret (.ok handle)
    | .ok [] => bailKey K label "not found"
    | .ok _ => bailKey K label "ambiguous (multiple objects with this label+class)"

def privateKey (session : Nat) (label : String) : Prog p11Sig (Except String Nat) :=
  findKeyByLabel K session label .privateKey

def publicKey (session : Nat) (label : String) : Prog p11Sig (Except String Nat) :=
  findKeyByLabel K session label .publicKey

def secretKey (session : Nat) (label : String) : Prog p11Sig (Except String Nat) :=
  findKeyByLabel K session label .secretKey

def randomIv (session : Nat) : Prog p11Sig (Except String (List UInt8)) :=
  .call (.generateRandom session 16) fun (r : Except Pkcs11Error (List UInt8)) =>
    match questionWith "HSM RNG failed" r with
    | .error e => .ret (.error e)
    | .ok bytes =>
      if bytes.length = 16 then .ret (.ok bytes)
      else .ret (.error "HSM RNG returned wrong length")

/-- The attributes of a derived key: session-local and sensitive. -/
def derivedTemplate : List Attribute :=
  [.class .secretKey, .keyType .aes, .valueLen derivedAesLen, .token false, .sensitive true,
    .encrypt true, .decrypt true]

def deriveAesKey (session baseKey : Nat) (peerPublicKey : List UInt8) (label : String) :
    Prog p11Sig (Except String Nat) :=
  .call (.deriveKey session (.ecdh1Derive kdfSharedData peerPublicKey) baseKey derivedTemplate)
    fun (r : Except Pkcs11Error Nat) =>
      .ret (questionWith ("HSM ECDH derive failed for " ++ debugStr K.escaped label) r)

/-- `session.encrypt(..)` with its context. -/
def encryptWith (session : Nat) (iv : List UInt8) (key : Nat) (plaintext : List UInt8)
    (ctx : String) : Prog p11Sig (Except String (List UInt8 × List UInt8)) :=
  .call (.encrypt session (.aesCbcPad iv) key plaintext) fun (r : Except Pkcs11Error (List UInt8)) =>
    match questionWith ctx r with
    | .error e => .ret (.error e)
    | .ok ct => .ret (.ok (iv, ct))

/-- `session.decrypt(..)` with its context. -/
def decryptWith (session : Nat) (iv : List UInt8) (key : Nat) (ciphertext : List UInt8)
    (ctx : String) : Prog p11Sig (Except String (List UInt8)) :=
  .call (.decrypt session (.aesCbcPad iv) key ciphertext) fun (r : Except Pkcs11Error (List UInt8)) =>
    .ret (questionWith ctx r)

variable (c : HsmClient)

def signEcdsaSha256 (label : String) (data : List UInt8) :
    Prog p11Sig (Except String (List UInt8)) :=
  c.withSession fun session =>
    (privateKey K session label).andThen fun key =>
      .call (.sign session .ecdsaSha256 key data) fun (r : Except Pkcs11Error (List UInt8)) =>
        .ret (questionWith ("HSM sign failed for " ++ debugStr K.escaped label) r)

/-- Only `SignatureInvalid` is a verdict; any other error is an error. -/
def verifyEcdsaSha256 (label : String) (data signature : List UInt8) :
    Prog p11Sig (Except String Bool) :=
  c.withSession fun session =>
    (publicKey K session label).andThen fun key =>
      .call (.verify session .ecdsaSha256 key data signature) fun (r : Except Pkcs11Error Unit) =>
        match r with
        | .ok _ => .ret (.ok true)
        | .error (.pkcs11 .signatureInvalid _) => .ret (.ok false)
        | .error e =>
          .ret (.error (withContext ("HSM verify failed for " ++ debugStr K.escaped label)
            e.display))

def encryptAesCbcPad (label : String) (plaintext : List UInt8) :
    Prog p11Sig (Except String (List UInt8 × List UInt8)) :=
  c.withSession fun session =>
    (secretKey K session label).andThen fun key =>
      (randomIv session).andThen fun iv =>
        encryptWith session iv key plaintext ("HSM encrypt failed for " ++ debugStr K.escaped label)

def decryptAesCbcPad (label : String) (ciphertext iv : List UInt8) :
    Prog p11Sig (Except String (List UInt8)) :=
  if iv.length = 16 then
    c.withSession fun session =>
      (secretKey K session label).andThen fun key =>
        decryptWith session iv key ciphertext
          ("HSM decrypt failed for " ++ debugStr K.escaped label)
  else .ret (.error "decrypt: iv must be 16 bytes")

def deriveAndEncrypt (label : String) (peerPublicKey plaintext : List UInt8) :
    Prog p11Sig (Except String (List UInt8 × List UInt8)) :=
  c.withSession fun session =>
    (privateKey K session label).andThen fun base =>
      (deriveAesKey K session base peerPublicKey label).andThen fun derived =>
        (randomIv session).andThen fun iv =>
          encryptWith session iv derived plaintext
            ("HSM derive_and_encrypt failed for " ++ debugStr K.escaped label)

def deriveAndDecrypt (label : String) (peerPublicKey ciphertext iv : List UInt8) :
    Prog p11Sig (Except String (List UInt8)) :=
  if iv.length = 16 then
    c.withSession fun session =>
      (privateKey K session label).andThen fun base =>
        (deriveAesKey K session base peerPublicKey label).andThen fun derived =>
          decryptWith session iv derived ciphertext
            ("HSM derive_and_decrypt failed for " ++ debugStr K.escaped label)
  else .ret (.error "derive_and_decrypt: iv must be 16 bytes")

end HsmClient

/-! ### The operations as data -/

/-- A call of one of the operations of `HsmClient`. -/
inductive HsmCall where
  | sign (label : String) (data : List UInt8)
  | verify (label : String) (data signature : List UInt8)
  | encrypt (label : String) (plaintext : List UInt8)
  | decrypt (label : String) (ciphertext iv : List UInt8)
  | deriveAndEncrypt (label : String) (peer plaintext : List UInt8)
  | deriveAndDecrypt (label : String) (peer ciphertext iv : List UInt8)
  deriving DecidableEq, Repr

namespace HsmCall

def Ret : HsmCall → Type
  | .sign _ _ => Except String (List UInt8)
  | .verify _ _ _ => Except String Bool
  | .encrypt _ _ => Except String (List UInt8 × List UInt8)
  | .decrypt _ _ _ => Except String (List UInt8)
  | .deriveAndEncrypt _ _ _ => Except String (List UInt8 × List UInt8)
  | .deriveAndDecrypt _ _ _ _ => Except String (List UInt8)

def label : HsmCall → String
  | .sign label _ => label
  | .verify label _ _ => label
  | .encrypt label _ => label
  | .decrypt label _ _ => label
  | .deriveAndEncrypt label _ _ => label
  | .deriveAndDecrypt label _ _ _ => label

/-- The class of the key the operation uses. -/
def objectClass : HsmCall → ObjectClass
  | .sign _ _ => .privateKey
  | .verify _ _ _ => .publicKey
  | .encrypt _ _ => .secretKey
  | .decrypt _ _ _ => .secretKey
  | .deriveAndEncrypt _ _ _ => .privateKey
  | .deriveAndDecrypt _ _ _ _ => .privateKey

end HsmCall

/-- Perform the call. -/
def HsmClient.perform (K : Crates) (c : HsmClient) : (call : HsmCall) → Prog p11Sig call.Ret
  | .sign label data => c.signEcdsaSha256 K label data
  | .verify label data signature => c.verifyEcdsaSha256 K label data signature
  | .encrypt label plaintext => c.encryptAesCbcPad K label plaintext
  | .decrypt label ciphertext iv => c.decryptAesCbcPad K label ciphertext iv
  | .deriveAndEncrypt label peer plaintext => c.deriveAndEncrypt K label peer plaintext
  | .deriveAndDecrypt label peer ciphertext iv => c.deriveAndDecrypt K label peer ciphertext iv

/-! ### What an operation does to the token -/

namespace HsmCall

variable (call : HsmCall)

/-- The call's key was looked up in this session and is `key`. -/
def Found (h : List (Ev p11Sig)) (session key : Nat) : Prop :=
  ⟨.findObjects session (HsmClient.keyTemplate call.label call.objectClass), .ok [key]⟩ ∈ h

/-- `key` was derived in this session from the call's key and the public key `peer`. -/
def Derived (h : List (Ev p11Sig)) (session : Nat) (peer : List UInt8) (key : Nat) : Prop :=
  ∃ base, call.Found h session base ∧
    ⟨.deriveKey session (.ecdh1Derive kdfSharedData peer) base HsmClient.derivedTemplate,
      .ok key⟩ ∈ h

/-- What the call may ask of the token when `h` is what it has done so far: look up its
own key, by class and label; use the key it found, on the data it was given; or derive
from it, with the public key it was given, and use what was derived. -/
def Keeps (h : List (Ev p11Sig)) : P11Op → Prop
  | .findObjects _ template => template = HsmClient.keyTemplate call.label call.objectClass
  | .sign session mech key data =>
    call = .sign call.label data ∧ mech = .ecdsaSha256 ∧ call.Found h session key
  | .verify session mech key data sig =>
    call = .verify call.label data sig ∧ mech = .ecdsaSha256 ∧ call.Found h session key
  | .encrypt session mech key data =>
    (∃ iv, mech = .aesCbcPad iv) ∧
      ((call = .encrypt call.label data ∧ call.Found h session key) ∨
        ∃ peer, call = .deriveAndEncrypt call.label peer data ∧ call.Derived h session peer key)
  | .decrypt session mech key data =>
    ∃ iv, mech = .aesCbcPad iv ∧
      ((call = .decrypt call.label data iv ∧ call.Found h session key) ∨
        ∃ peer, call = .deriveAndDecrypt call.label peer data iv ∧ call.Derived h session peer key)
  | .deriveKey session mech base template =>
    ∃ peer, mech = .ecdh1Derive kdfSharedData peer ∧ template = HsmClient.derivedTemplate ∧
      call.Found h session base ∧
      ((∃ data, call = .deriveAndEncrypt call.label peer data) ∨
        ∃ data iv, call = .deriveAndDecrypt call.label peer data iv)
  | _ => True

variable {call} in
theorem Found.mono {h h' : List (Ev p11Sig)} {session key : Nat}
    (hf : call.Found h session key) (hs : h ⊆ h') : call.Found h' session key := hs hf

variable {call} in
theorem Derived.mono {h h' : List (Ev p11Sig)} {session key : Nat}
    {peer : List UInt8} (hd : call.Derived h session peer key) (hs : h ⊆ h') :
    call.Derived h' session peer key := by
  obtain ⟨base, hb, hk⟩ := hd
  exact ⟨base, hs hb, hs hk⟩

end HsmCall

namespace HsmClient

open Prog

variable {K : Crates} {c : HsmClient} {α : Type} {guar : List (Ev p11Sig) → P11Op → Prop}

/-- Opening and closing sessions and logging in is always allowed. -/
def AllowsSessions (guar : List (Ev p11Sig) → P11Op → Prop) : Prop :=
  ∀ h, (∀ slot, guar h (.openRwSession slot)) ∧ (∀ s pin, guar h (.login s pin)) ∧
    ∀ s, guar h (.closeSession s)

theorem safe_withSession (hg : AllowsSessions guar)
    {body : Nat → Prog p11Sig (Except String α)}
    (hb : ∀ h session, Safe (fun _ _ => True) guar (fun _ _ => True) h (body session))
    (h : List (Ev p11Sig)) :
    Safe (fun _ _ => True) guar (fun _ _ => True) h (c.withSession body) := by
  rw [withSession, safe_andThen]
  refine ⟨(hg h).1 c.slot, fun r _ => ?_⟩
  rcases r with e | session
  · trivial
  refine ⟨(hg _).2.1 session c.pin, fun r _ => ?_⟩
  rcases r with e | u
  · exact ⟨(hg _).2.2 session, fun _ _ => trivial⟩
  · rw [safe_ret]
    dsimp only
    rw [safe_bind]
    exact (hb _ session).mono (fun _ _ hr => hr) (fun _ _ hg' => hg')
      fun h' r _ => ⟨(hg h').2.2 session, fun _ _ => trivial⟩

theorem safe_findKeyByLabel {post : List (Ev p11Sig) → Except String Nat → Prop}
    {h : List (Ev p11Sig)} {session : Nat} {label : String} {cls : ObjectClass}
    (hg : guar h (.findObjects session (keyTemplate label cls)))
    (herr : ∀ h e, post h (.error e))
    (hok : ∀ h key, (⟨.findObjects session (keyTemplate label cls), .ok [key]⟩ : Ev p11Sig) ∈ h →
      post h (.ok key)) :
    Safe (fun _ _ => True) guar post h (findKeyByLabel K session label cls) := by
  refine ⟨hg, fun r _ => ?_⟩
  rcases r with e | _ | ⟨key, _ | ⟨key', keys⟩⟩
  · exact herr _ _
  · exact herr _ _
  · exact hok _ key (by simp)
  · exact herr _ _

/-- Looking up the call's own key, and going on with the key found. -/
theorem safe_ownKey (call : HsmCall) {h : List (Ev p11Sig)} {session : Nat}
    {f : Nat → Prog p11Sig (Except String α)}
    (hf : ∀ h key, call.Found h session key →
      Safe (fun _ _ => True) call.Keeps (fun _ _ => True) h (f key)) :
    Safe (fun _ _ => True) call.Keeps (fun _ _ => True) h
      ((findKeyByLabel K session call.label call.objectClass).andThen f) := by
  rw [safe_andThen]
  exact safe_findKeyByLabel rfl (fun _ _ => trivial) fun h key hkey => hf h key hkey

/-- Going on with a fresh IV; the key at hand stays at hand. -/
theorem safe_randomIv {call : HsmCall} {h : List (Ev p11Sig)} {session : Nat}
    {f : List UInt8 → Prog p11Sig (Except String α)}
    (hf : ∀ h' iv, h ⊆ h' → Safe (fun _ _ => True) call.Keeps (fun _ _ => True) h' (f iv)) :
    Safe (fun _ _ => True) call.Keeps (fun _ _ => True) h ((randomIv session).andThen f) := by
  rw [safe_andThen]
  refine ⟨trivial, fun r _ => ?_⟩
  rcases r with e | bytes
  · trivial
  · by_cases hlen : bytes.length = 16
    · simp only [questionWith, hlen, if_true]
      exact hf _ bytes (List.subset_append_left _ _)
    · simp only [questionWith, hlen, if_false]
      trivial

theorem safe_deriveAesKey {call : HsmCall} {h : List (Ev p11Sig)} {session base : Nat}
    {peer : List UInt8} {label : String} {f : Nat → Prog p11Sig (Except String α)}
    (hbase : call.Found h session base)
    (hcall : (∃ data, call = .deriveAndEncrypt call.label peer data) ∨
      ∃ data iv, call = .deriveAndDecrypt call.label peer data iv)
    (hf : ∀ h' key, call.Derived h' session peer key →
      Safe (fun _ _ => True) call.Keeps (fun _ _ => True) h' (f key)) :
    Safe (fun _ _ => True) call.Keeps (fun _ _ => True) h
      ((deriveAesKey K session base peer label).andThen f) := by
  rw [safe_andThen]
  refine ⟨⟨peer, rfl, rfl, hbase, hcall⟩, fun r _ => ?_⟩
  rcases r with e | key
  · trivial
  · exact hf _ key ⟨base, List.mem_append_left _ hbase, by simp⟩

theorem safe_encryptWith {h : List (Ev p11Sig)} {session key : Nat} {iv data : List UInt8}
    {ctx : String} (hg : guar h (.encrypt session (.aesCbcPad iv) key data)) :
    Safe (fun _ _ => True) guar (fun _ _ => True) h (encryptWith session iv key data ctx) := by
  refine ⟨hg, fun r _ => ?_⟩
  rcases r with e | ct <;> trivial

theorem keeps_allowsSessions (call : HsmCall) : AllowsSessions call.Keeps :=
  fun _ => ⟨fun _ => trivial, fun _ _ => trivial, fun _ => trivial⟩

/-- **What the six operations do to the token.**  Whatever it answers, an operation
looks up only its own key, under the class proper to it, and uses only what it found
or derived from that. -/
theorem perform_keeps (K : Crates) (c : HsmClient) (call : HsmCall) (h : List (Ev p11Sig)) :
    Safe (fun _ _ => True) call.Keeps (fun _ _ => True) h (c.perform K call) := by
  have hg := keeps_allowsSessions call
  cases call with
  | sign label data =>
    refine safe_withSession hg (fun h session => ?_) h
    exact safe_ownKey (.sign label data) fun h key hkey =>
      ⟨⟨rfl, rfl, hkey⟩, fun _ _ => trivial⟩
  | verify label data sig =>
    refine safe_withSession hg (fun h session => ?_) h
    refine safe_ownKey (.verify label data sig) fun h key hkey =>
      ⟨⟨rfl, rfl, hkey⟩, fun r _ => ?_⟩
    rcases r with (⟨_ | _ | _ | n, text⟩ | text) | u <;> trivial
  | encrypt label plaintext =>
    refine safe_withSession hg (fun h session => ?_) h
    refine safe_ownKey (.encrypt label plaintext) fun h key hkey => ?_
    refine safe_randomIv fun h' iv hs => ?_
    exact safe_encryptWith ⟨⟨iv, rfl⟩, Or.inl ⟨rfl, hkey.mono hs⟩⟩
  | decrypt label ciphertext iv =>
    rw [perform, decryptAesCbcPad]
    -- a wrong IV is refused before a session is opened
    split
    · refine safe_withSession hg (fun h session => ?_) h
      exact safe_ownKey (.decrypt label ciphertext iv) fun h key hkey =>
        ⟨⟨iv, rfl, Or.inl ⟨rfl, hkey⟩⟩, fun _ _ => trivial⟩
    · trivial
  | deriveAndEncrypt label peer plaintext =>
    refine safe_withSession hg (fun h session => ?_) h
    refine safe_ownKey (.deriveAndEncrypt label peer plaintext) fun h base hbase => ?_
    refine safe_deriveAesKey hbase (Or.inl ⟨_, rfl⟩) fun h key hkey => ?_
    refine safe_randomIv fun h' iv hs => ?_
    exact safe_encryptWith ⟨⟨iv, rfl⟩, Or.inr ⟨peer, rfl, hkey.mono hs⟩⟩
  | deriveAndDecrypt label peer ciphertext iv =>
    rw [perform, deriveAndDecrypt]
    split
    · refine safe_withSession hg (fun h session => ?_) h
      refine safe_ownKey (.deriveAndDecrypt label peer ciphertext iv)
        fun h base hbase => ?_
      refine safe_deriveAesKey hbase (Or.inr ⟨_, _, rfl⟩) fun h key hkey => ?_
      exact ⟨⟨iv, rfl, Or.inr ⟨peer, rfl, hkey⟩⟩, fun _ _ => trivial⟩
    · trivial

end HsmClient

end PicoHsm
