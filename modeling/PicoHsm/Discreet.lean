/-
What the audit log does not tell.

Two systems of the same configuration, under the same schedule: the clients of the one send
other data, IVs, ciphertexts and signatures than those of the other, and the token of the one
has other keys and other random numbers.  As long as the same things fail and the signatures
that are checked have the same verdicts, the two log files are equal, byte for byte: these
bytes, and what the HSM makes of them, leave no trace in the log.  Operations, key labels,
mechanisms and peer keys do, and so do the errors of the token.

* `Request.Alike`, `P11Op.tells` — what two requests, two answers of the token have in common;
* `perform_lockstep`, `processRequest_lockstep` — one HSM call, one request;
* `log_discreet` — any number of connections, from the bytes they send down to the critical
  sections of the log and the PKCS#11 calls, under every schedule.
-/
import PicoHsm.AuditConcurrent
import PicoHsm.Lockstep
import PicoHsm.Provenance

namespace PicoHsm

open Text Effects Prog

/-! ### What two runs have in common -/

/-- The same call on the same handles, and not necessarily the same data. -/
inductive P11Op.Alike : P11Op → P11Op → Prop where
  | same (op : P11Op) : P11Op.Alike op op
  | sign (session : Nat) (mech : Mechanism) (key : Nat) (data data' : List UInt8) :
      P11Op.Alike (.sign session mech key data) (.sign session mech key data')
  | verify (session : Nat) (mech : Mechanism) (key : Nat) (data data' sig sig' : List UInt8) :
      P11Op.Alike (.verify session mech key data sig) (.verify session mech key data' sig')
  | encrypt (session key : Nat) (iv iv' data data' : List UInt8) :
      P11Op.Alike (.encrypt session (.aesCbcPad iv) key data)
        (.encrypt session (.aesCbcPad iv') key data')
  | decrypt (session key : Nat) (iv iv' data data' : List UInt8) :
      P11Op.Alike (.decrypt session (.aesCbcPad iv) key data)
        (.decrypt session (.aesCbcPad iv') key data')

/-- What an answer of the token says beside its bytes: the error, or the handles; of random
bytes, how many. -/
def P11Op.tells : (op : P11Op) → op.Ret → Except Pkcs11Error (List Nat)
  | .openRwSession _, r => r.map fun session => [session]
  | .login _ _, r => r.map fun _ => []
  | .findObjects _ _, r => r
  | .sign _ _ _ _, r => r.map fun _ => []
  | .verify _ _ _ _ _, r => r.map fun _ => []
  | .generateRandom _ _, r => r.map fun bytes => [bytes.length]
  | .encrypt _ _ _ _, r => r.map fun _ => []
  | .decrypt _ _ _ _, r => r.map fun _ => []
  | .deriveKey _ _ _ _, r => r.map fun key => [key]
  | .closeSession _, _ => .ok []

def P11Told (ev ev' : Ev p11Sig) : Prop := ev.op.tells ev.ret = ev'.op.tells ev'.ret

/-- The same operation on the same key, and not necessarily the same data. -/
inductive HsmCall.Alike : HsmCall → HsmCall → Prop where
  | sign (label : String) (data data' : List UInt8) :
      HsmCall.Alike (.sign label data) (.sign label data')
  | verify (label : String) (data data' sig sig' : List UInt8) :
      HsmCall.Alike (.verify label data sig) (.verify label data' sig')
  | encrypt (label : String) (data data' : List UInt8) :
      HsmCall.Alike (.encrypt label data) (.encrypt label data')
  | decrypt (label : String) (ct ct' : List UInt8) {iv iv' : List UInt8} :
      (iv.length = 16 ↔ iv'.length = 16) →
      HsmCall.Alike (.decrypt label ct iv) (.decrypt label ct' iv')
  | deriveAndEncrypt (label : String) (peer data data' : List UInt8) :
      HsmCall.Alike (.deriveAndEncrypt label peer data) (.deriveAndEncrypt label peer data')
  | deriveAndDecrypt (label : String) (peer ct ct' : List UInt8) {iv iv' : List UInt8} :
      (iv.length = 16 ↔ iv'.length = 16) →
      HsmCall.Alike (.deriveAndDecrypt label peer ct iv) (.deriveAndDecrypt label peer ct' iv')

/-- What the result of a call says beside its bytes: the error, or the verdict. -/
def HsmCall.told : (c : HsmCall) → c.Ret → Except String (Option Bool)
  | .sign _ _, r => r.map fun _ => none
  | .verify _ _ _, r => r.map some
  | .encrypt _ _, r => r.map fun _ => none
  | .decrypt _ _ _, r => r.map fun _ => none
  | .deriveAndEncrypt _ _ _, r => r.map fun _ => none
  | .deriveAndDecrypt _ _ _ _, r => r.map fun _ => none

/-! ### The PKCS#11 layer -/

namespace HsmClient

variable {K : Crates} {c : HsmClient} {α β : Type}

/-- Two programs of the PKCS#11 layer, on two tokens. -/
abbrev P11Lockstep (post : α → β → Prop) (p : Prog p11Sig α) (q : Prog p11Sig β) : Prop :=
  Lockstep P11Op.Alike P11Told post p q

/-- The same error behind a context, or success. -/
theorem concur_questionWith (ctx : String) {f : α → List Nat} {R : α → α → Prop}
    {r r' : Except Pkcs11Error α} (h : r.map f = r'.map f) (hR : ∀ a b, f a = f b → R a b) :
    Concur R (questionWith ctx r) (questionWith ctx r') := by
  cases concur_of_map h with
  | error e => exact .error _
  | ok hab => exact .ok (hR _ _ hab)

theorem eq_of_map {f : α → List Nat} (hf : ∀ a b, f a = f b → a = b)
    {r r' : Except Pkcs11Error α} (h : r.map f = r'.map f) : r = r' := by
  cases concur_of_map h with
  | error e => rfl
  | ok hab => rw [hf _ _ hab]

theorem lockstep_openSession : P11Lockstep (Concur Eq) c.openSession c.openSession := by
  refine .same (.same _) (fun r r' => eq_of_map fun a b => List.head_eq_of_cons_eq) fun r => ?_
  rcases r with e | session
  · exact .ret (.error _)
  refine .same (.same _) (fun r r' => eq_of_map fun a b _ => rfl) fun r => ?_
  rcases r with e | u
  · exact .call (.same _) fun _ _ _ => .ret (.error _)
  · exact .ret (.ok rfl)

theorem lockstep_withSession {R : α → β → Prop} {body : Nat → Prog p11Sig (Except String α)}
    {body' : Nat → Prog p11Sig (Except String β)}
    (hb : ∀ session, P11Lockstep (Concur R) (body session) (body' session)) :
    P11Lockstep (Concur R) (c.withSession body) (c.withSession body') := by
  refine lockstep_openSession.andThen ?_
  rintro session _ rfl
  exact (hb session).bind fun r r' h => .call (.same _) fun _ _ _ => .ret h

theorem lockstep_findKeyByLabel (session : Nat) (label : String) (cls : ObjectClass) :
    P11Lockstep (Concur Eq) (findKeyByLabel K session label cls)
      (findKeyByLabel K session label cls) := by
  refine .same (.same _) (fun r r' h => h) fun r => ?_
  rcases r with e | _ | ⟨key, _ | ⟨key', keys⟩⟩
  · exact .ret (.error _)
  · exact .ret (.error _)
  · exact .ret (.ok rfl)
  · exact .ret (.error _)

/-- Two draws of as many bytes. -/
theorem lockstep_randomIv (session : Nat) :
    P11Lockstep (Concur fun _ _ => True) (randomIv session) (randomIv session) := by
  refine .call (.same _) fun r r' h => ?_
  cases concur_of_map h with
  | error e => exact .ret (.error _)
  | @ok bytes bytes' hab =>
    have hlen : bytes.length = bytes'.length := List.head_eq_of_cons_eq hab
    dsimp only [questionWith]
    rw [hlen]
    split
    · exact .ret (.ok trivial)
    · exact .ret (.error _)

theorem lockstep_deriveAesKey (session base : Nat) (peer : List UInt8) (label : String) :
    P11Lockstep (Concur Eq) (deriveAesKey K session base peer label)
      (deriveAesKey K session base peer label) :=
  .call (.same _) fun _ _ h => .ret (concur_questionWith _ h fun _ _ => List.head_eq_of_cons_eq)

theorem lockstep_encryptWith (session key : Nat) (iv iv' data data' : List UInt8) (ctx : String) :
    P11Lockstep (Concur fun _ _ => True) (encryptWith session iv key data ctx)
      (encryptWith session iv' key data' ctx) := by
  refine .call (.encrypt session key iv iv' data data') fun r r' h => ?_
  cases concur_of_map h with
  | error e => exact .ret (.error _)
  | ok => exact .ret (.ok trivial)

theorem lockstep_decryptWith (session key : Nat) (iv iv' data data' : List UInt8) (ctx : String) :
    P11Lockstep (Concur fun _ _ => True) (decryptWith session iv key data ctx)
      (decryptWith session iv' key data' ctx) :=
  .call (.decrypt session key iv iv' data data') fun _ _ h =>
    .ret (concur_questionWith _ h fun _ _ _ => trivial)

/-- Drawing an IV, and encrypting. -/
theorem lockstep_encryptFresh (session key : Nat) (data data' : List UInt8) (ctx : String) :
    P11Lockstep (Concur fun _ _ => True)
      ((randomIv session).andThen fun iv => encryptWith session iv key data ctx)
      ((randomIv session).andThen fun iv => encryptWith session iv key data' ctx) :=
  (lockstep_randomIv session).andThen fun iv iv' _ =>
    lockstep_encryptWith session key iv iv' data data' ctx

/-- A result without a verdict. -/
theorem told_eq {β : Type} {r r' : Except String β} (h : Concur (fun _ _ => True) r r') :
    (r.map fun _ => none : Except String (Option Bool)) = r'.map fun _ => none := by
  cases h with
  | error e => rfl
  | ok => rfl

/-- **One HSM call.**  The same calls are made on the same handles, and the same errors and
verdicts come back. -/
theorem perform_lockstep (K : Crates) (client : HsmClient) {c c' : HsmCall} (h : c.Alike c') :
    P11Lockstep (fun r r' => c.told r = c'.told r') (client.perform K c) (client.perform K c') := by
  cases h with
  | sign label data data' =>
    refine (lockstep_withSession (R := fun _ _ => True) fun session => ?_).mono fun _ _ => told_eq
    refine (lockstep_findKeyByLabel session label _).andThen ?_
    rintro key _ rfl
    exact .call (.sign session _ key data data') fun _ _ h =>
      .ret (concur_questionWith _ h fun _ _ _ => trivial)
  | verify label data data' sig sig' =>
    refine (lockstep_withSession (R := Eq) fun session => ?_).mono fun r r' h => ?_
    · refine (lockstep_findKeyByLabel session label _).andThen ?_
      rintro key _ rfl
      refine .call (.verify session _ key data data' sig sig') fun r r' h => ?_
      obtain rfl : r = r' := eq_of_map (fun _ _ _ => rfl) h
      rcases r with (⟨_ | _ | _ | n, text⟩ | text) | u
      · exact .ret (.ok rfl)
      · exact .ret (.error _)
      · exact .ret (.error _)
      · exact .ret (.error _)
      · exact .ret (.error _)
      · exact .ret (.ok rfl)
    · cases h with
      | error e => rfl
      | ok h =>
        rw [h]
        rfl
  | encrypt label data data' =>
    refine (lockstep_withSession (R := fun _ _ => True) fun session => ?_).mono fun _ _ => told_eq
    refine (lockstep_findKeyByLabel session label _).andThen ?_
    rintro key _ rfl
    exact lockstep_encryptFresh session key data data' _
  | @decrypt label ct ct' iv iv' hiv =>
    rw [perform, perform, decryptAesCbcPad, decryptAesCbcPad]
    by_cases h16 : iv.length = 16
    · rw [if_pos h16, if_pos (hiv.mp h16)]
      refine (lockstep_withSession (R := fun _ _ => True) fun session => ?_).mono
        fun _ _ => told_eq
      refine (lockstep_findKeyByLabel session label _).andThen ?_
      rintro key _ rfl
      exact lockstep_decryptWith session key iv iv' ct ct' _
    · rw [if_neg h16, if_neg (mt hiv.mpr h16)]
      exact .ret rfl
  | deriveAndEncrypt label peer data data' =>
    refine (lockstep_withSession (R := fun _ _ => True) fun session => ?_).mono fun _ _ => told_eq
    refine (lockstep_findKeyByLabel session label _).andThen ?_
    rintro base _ rfl
    refine (lockstep_deriveAesKey session base peer label).andThen ?_
    rintro key _ rfl
    exact lockstep_encryptFresh session key data data' _
  | @deriveAndDecrypt label peer ct ct' iv iv' hiv =>
    rw [perform, perform, deriveAndDecrypt, deriveAndDecrypt]
    by_cases h16 : iv.length = 16
    · rw [if_pos h16, if_pos (hiv.mp h16)]
      refine (lockstep_withSession (R := fun _ _ => True) fun session => ?_).mono
        fun _ _ => told_eq
      refine (lockstep_findKeyByLabel session label _).andThen ?_
      rintro base _ rfl
      refine (lockstep_deriveAesKey session base peer label).andThen ?_
      rintro key _ rfl
      exact lockstep_decryptWith session key iv iv' ct ct' _
    · rw [if_neg h16, if_neg (mt hiv.mpr h16)]
      exact .ret rfl

end HsmClient

/-! ### One request -/

inductive GwOp.Alike : GwOp → GwOp → Prop where
  | append (a : AppendArgs) : GwOp.Alike (.append a) (.append a)
  | spawn : GwOp.Alike .spawn .spawn
  | hsm {c c' : HsmCall} : c.Alike c' → GwOp.Alike (.hsm c) (.hsm c')

def GwTold : Ev gwSig → Ev gwSig → Prop
  | ⟨.append _, r⟩, ⟨.append _, r'⟩ => r = r'
  | ⟨.spawn, s⟩, ⟨.spawn, s'⟩ => s = s'
  | ⟨.hsm c, r⟩, ⟨.hsm c', r'⟩ => c.told r = c'.told r'
  | _, _ => True

/-- A response without the bytes it carries. -/
def Response.shape : Response → Response
  | .ok result verified iv integrity =>
    .ok (result.map fun _ => "") verified (iv.map fun _ => "") (integrity.map fun _ => "")
  | .denied reason => .denied reason
  | .error message => .error message

section Requests

variable (K : Crates)

/-- Both are base64, or neither is. -/
def SamePayload (s s' : String) : Prop := (K.b64.decode s).isSome = (K.b64.decode s').isSome

/-- The same of an IV, which may be of the right length. -/
def SameIv (s s' : String) : Prop :=
  (K.b64.decode s).map (fun iv => decide (iv.length = 16)) =
    (K.b64.decode s').map fun iv => decide (iv.length = 16)

/-- The requests have operation, key, mechanisms and peer key in common. -/
inductive Request.Alike : Request → Request → Prop where
  | sign (label mech : String) {data data' : String} : SamePayload K data data' →
      Request.Alike (.sign label mech data) (.sign label mech data')
  | verify (label mech : String) {data data' sig sig' : String} : SamePayload K data data' →
      SamePayload K sig sig' →
      Request.Alike (.verify label mech data sig) (.verify label mech data' sig')
  | encrypt (label mech : String) {data data' : String} : SamePayload K data data' →
      Request.Alike (.encrypt label mech data) (.encrypt label mech data')
  | decrypt (label mech : String) {data data' iv iv' integ integ' : String} :
      SamePayload K data data' → SameIv K iv iv' → SamePayload K integ integ' →
      Request.Alike (.decrypt label mech data iv integ) (.decrypt label mech data' iv' integ')
  | deriveAndEncrypt (label derive target peer : String) {data data' : String} :
      SamePayload K data data' →
      Request.Alike (.deriveAndEncrypt label derive target peer data)
        (.deriveAndEncrypt label derive target peer data')
  | deriveAndDecrypt (label derive target peer : String)
      {data data' iv iv' integ integ' : String} :
      SamePayload K data data' → SameIv K iv iv' → SamePayload K integ integ' →
      Request.Alike (.deriveAndDecrypt label derive target peer iv integ data)
        (.deriveAndDecrypt label derive target peer iv' integ' data')

variable {K} {req req' : Request}

theorem Request.Alike.operation (h : req.Alike K req') : req.operation = req'.operation := by
  cases h <;> rfl

theorem Request.Alike.keyLabel (h : req.Alike K req') : req.keyLabel = req'.keyLabel := by
  cases h <;> rfl

theorem Request.Alike.peerPublicKeyB64 (h : req.Alike K req') :
    req.peerPublicKeyB64 = req'.peerPublicKeyB64 := by
  cases h <;> rfl

/-- Decoding both, where as much of the bytes is known to be the same as `f` tells. -/
theorem concur_b64 {γ : Type} {f : List UInt8 → γ} {s s' : String}
    (h : (K.b64.decode s).map f = (K.b64.decode s').map f) :
    Concur (fun bytes bytes' => f bytes = f bytes') (b64 K s) (b64 K s') := by
  rcases hs : K.b64.decode s with _ | bytes <;> rcases hs' : K.b64.decode s' with _ | bytes' <;>
    rw [hs, hs'] at h
  · rw [Gateway.b64_of_none hs, Gateway.b64_of_none hs']
    exact .error _
  · cases h
  · cases h
  · rw [Gateway.b64_of_some hs, Gateway.b64_of_some hs']
    exact .ok (Option.some_inj.mp h)

theorem SamePayload.concur {s s' : String} (h : SamePayload K s s') :
    Concur (fun _ _ => True) (b64 K s) (b64 K s') := by
  have hunit : (K.b64.decode s).map (fun _ => ()) = (K.b64.decode s').map fun _ => () := by
    rw [SamePayload] at h
    generalize K.b64.decode s = o, K.b64.decode s' = o' at h ⊢
    rcases o with _ | bytes <;> rcases o' with _ | bytes'
    · rfl
    · cases h
    · cases h
    · rfl
  exact (concur_b64 hunit).mono fun _ _ _ => trivial

theorem SameIv.concur {s s' : String} (h : SameIv K s s') :
    Concur (fun iv iv' => iv.length = 16 ↔ iv'.length = 16) (b64 K s) (b64 K s') :=
  (concur_b64 h).mono fun _ _ => decide_eq_decide.mp

end Requests

namespace Gateway

variable {K : Crates} {g : Gateway} {α β : Type} {req req' : Request}

/-- Two programs of the pipeline, on two HSMs. -/
abbrev GwLockstep (post : α → β → Prop) (p : Prog gwSig α) (q : Prog gwSig β) : Prop :=
  Lockstep GwOp.Alike GwTold post p q

/-- The same response, up to the bytes it carries. -/
def SameShape (r r' : Response) : Prop := r.shape = r'.shape

theorem lockstep_blocking {post : α → β → Prop} {c c' : HsmCall} (hc : c.Alike c')
    {f : Except String c.Ret → Prog gwSig α} {f' : Except String c'.Ret → Prog gwSig β}
    (hok : ∀ r r', c.told r = c'.told r' → GwLockstep post (f (.ok r)) (f' (.ok r')))
    (herr : ∀ e, GwLockstep post (f (.error e)) (f' (.error e))) :
    GwLockstep post (blocking c >>= f) (blocking c' >>= f') := by
  refine .same .spawn (fun _ _ h => h) fun (s : Spawn) => ?_
  cases s with
  | ran => exact .call (.hsm hc) hok
  | cancelled e => exact herr e
  | panicked e => exact .call (.hsm hc) fun _ _ _ => herr e

theorem lockstep_sealResponse (label : String) (iv ct iv' ct' : List UInt8) :
    GwLockstep SameShape (g.sealResponse K label iv ct) (g.sealResponse K label iv' ct') := by
  refine .call (.hsm (.sign _ _ _)) fun r r' h => ?_
  cases concur_of_map h with
  | error e => exact .ret rfl
  | ok => exact .ret rfl

theorem lockstep_checkIntegrity (label : String) (iv ct sig iv' ct' sig' : List UInt8) :
    GwLockstep Eq (g.checkIntegrity label iv ct sig) (g.checkIntegrity label iv' ct' sig') := by
  refine .call (.hsm (.verify _ _ _ _ _)) fun r r' h => ?_
  cases concur_of_map h with
  | error e => exact .ret rfl
  | ok hab => exact .ret (Option.some_inj.mp hab)

/-- The middle of the two decrypting branches. -/
theorem lockstep_withIntegrity
    {label missing ivB64 ivB64' integB64 integB64' dataB64 dataB64' : String}
    (hin : req.integrityInput = some (ivB64, integB64, dataB64))
    (hin' : req'.integrityInput = some (ivB64', integB64', dataB64'))
    (hiv : SameIv K ivB64 ivB64') (hinteg : SamePayload K integB64 integB64')
    (hdata : SamePayload K dataB64 dataB64')
    {k k' : List UInt8 → List UInt8 → Prog gwSig Response}
    (hk : ∀ ct ct' iv iv', (iv.length = 16 ↔ iv'.length = 16) →
      GwLockstep SameShape (k ct iv) (k' ct' iv')) :
    GwLockstep SameShape (g.withIntegrity K req label missing k)
      (g.withIntegrity K req' label missing k') := by
  rw [withIntegrity, withIntegrity, hin, hin']
  dsimp only
  have hd := hdata.concur
  have hi := hiv.concur
  have hs := hinteg.concur
  generalize b64 K dataB64 = d, b64 K dataB64' = d' at hd
  generalize b64 K ivB64 = i, b64 K ivB64' = i' at hi
  generalize b64 K integB64 = s, b64 K integB64' = s' at hs
  -- an error in one field is one in the same field on the other side
  cases hd with
  | error e => exact .ret rfl
  | ok =>
    cases hi with
    | error e => exact .ret rfl
    | ok hlen =>
      cases hs with
      | error e => exact .ret rfl
      | ok =>
        refine (lockstep_checkIntegrity _ _ _ _ _ _ _).bind ?_
        rintro valid _ rfl
        split
        · exact .ret rfl
        · exact hk _ _ _ _ hlen

/-- **One request behind its gates.** -/
theorem execute_lockstep (h : req.Alike K req') (peer : Option (List UInt8)) :
    GwLockstep SameShape (g.execute K req peer) (g.execute K req' peer) := by
  cases h with
  | @sign label mech data data' hdata =>
    rw [execute, execute, executeSign, executeSign]
    split
    · exact .ret rfl
    have hd := hdata.concur
    generalize b64 K data = d, b64 K data' = d' at hd
    cases hd with
    | error e => exact .ret rfl
    | ok =>
      refine lockstep_blocking (.sign label _ _) (fun r r' h => ?_) fun e => .ret rfl
      cases concur_of_map h with
      | error e => exact .ret rfl
      | ok => exact .ret rfl
  | @verify label mech data data' sig sig' hdata hsig =>
    rw [execute, execute, executeVerify, executeVerify]
    split
    · exact .ret rfl
    have hd := hdata.concur
    have hs := hsig.concur
    generalize b64 K data = d, b64 K data' = d' at hd
    generalize b64 K sig = s, b64 K sig' = s' at hs
    cases hd with
    | error e => exact .ret rfl
    | ok =>
      cases hs with
      | error e => exact .ret rfl
      | ok =>
        refine lockstep_blocking (.verify label _ _ _ _) (fun r r' h => ?_) fun e => .ret rfl
        cases concur_of_map h with
        | error e => exact .ret rfl
        | ok hab =>
          rw [Option.some_inj.mp hab]
          exact .ret rfl
  | @encrypt label mech data data' hdata =>
    rw [execute, execute, executeEncrypt, executeEncrypt]
    split
    · exact .ret rfl
    have hd := hdata.concur
    generalize b64 K data = d, b64 K data' = d' at hd
    cases hd with
    | error e => exact .ret rfl
    | ok =>
      refine lockstep_blocking (.encrypt label _ _) (fun r r' h => ?_) fun e => .ret rfl
      cases concur_of_map h with
      | error e => exact .ret rfl
      | ok => exact lockstep_sealResponse label _ _ _ _
  | decrypt label mech hdata hiv hinteg =>
    rw [execute, execute, executeDecrypt, executeDecrypt]
    split
    · exact .ret rfl
    refine lockstep_withIntegrity rfl rfl hiv hinteg hdata fun ct ct' iv iv' hlen => ?_
    refine lockstep_blocking (.decrypt label ct ct' hlen) (fun r r' h => ?_) fun e => .ret rfl
    cases concur_of_map h with
    | error e => exact .ret rfl
    | ok => exact .ret rfl
  | @deriveAndEncrypt label derive target peerB64 data data' hdata =>
    rw [execute, execute, executeDeriveAndEncrypt, executeDeriveAndEncrypt]
    split
    · exact .ret rfl
    have hd := hdata.concur
    generalize b64 K data = d, b64 K data' = d' at hd
    cases hd with
    | error e => exact .ret rfl
    | ok =>
      refine lockstep_blocking (.deriveAndEncrypt label (peer.getD []) _ _) (fun r r' h => ?_)
        fun e => .ret rfl
      cases concur_of_map h with
      | error e => exact .ret rfl
      | ok => exact lockstep_sealResponse label _ _ _ _
  | deriveAndDecrypt label derive target peerB64 hdata hiv hinteg =>
    rw [execute, execute, executeDeriveAndDecrypt, executeDeriveAndDecrypt]
    split
    · exact .ret rfl
    refine lockstep_withIntegrity rfl rfl hiv hinteg hdata fun ct ct' iv iv' hlen => ?_
    refine lockstep_blocking (.deriveAndDecrypt label (peer.getD []) ct ct' hlen)
      (fun r r' h => ?_) fun e => .ret rfl
    cases concur_of_map h with
    | error e => exact .ret rfl
    | ok => exact .ret rfl

theorem entryFor_eq (h : req.Alike K req') (cn : String) : entryFor cn req = entryFor cn req' := by
  funext outcome detail
  rw [entryFor, entryFor, h.operation, h.keyLabel]

/-- Responses of the same shape are closed with the same entry. -/
theorem closing_eq (h : req.Alike K req') (cn : String) {r r' : Response}
    (hr : SameShape r r') : closing cn req r = closing cn req' r' := by
  have hentry := entryFor_eq h cn
  rw [SameShape] at hr
  cases r <;> cases r' <;> simp only [Response.shape, reduceCtorEq, Response.denied.injEq,
    Response.error.injEq] at hr
  · simp only [closing, hentry]
  · simp only [closing, hentry, hr]
  · simp only [closing, hentry, hr]

/-- **One request.**  The entries on it are the same. -/
theorem processRequest_lockstep (cn : String) (h : req.Alike K req') :
    GwLockstep SameShape (g.processRequest K cn req) (g.processRequest K cn req') := by
  have hentry := entryFor_eq h cn
  have hrefuse : ∀ reason, GwLockstep SameShape (refuse cn req reason) (refuse cn req' reason) := by
    intro reason
    rw [refuse, refuse, hentry]
    exact .call (.append _) fun _ _ _ => .ret rfl
  have hpeer : g.peerKey K cn req = g.peerKey K cn req' := by
    rw [peerKey, peerKey, h.peerPublicKeyB64, h.operation, h.keyLabel]
  rw [processRequest, processRequest, denialReason, denialReason, h.operation, h.keyLabel, hpeer]
  split
  · exact hrefuse _
  rcases g.peerKey K cn req' with reason | peer
  · exact hrefuse reason
  dsimp only
  rw [audited, audited, hentry]
  refine .same (.append _) (fun _ _ h => h) fun (r : Except String Unit) => ?_
  rcases r with e | u
  · exact .ret rfl
  refine (execute_lockstep h peer).bind fun r r' hr => ?_
  rw [closing_eq h cn hr]
  exact .call (.append _) fun _ _ _ => .ret hr

end Gateway

/-! ### One connection -/

/-- The same response up to the bytes it carries, or two texts of the parser. -/
inductive Response.Alike : Response → Response → Prop where
  | shape {r r' : Response} : r.shape = r'.shape → Response.Alike r r'
  | malformed (e e' : String) :
      Response.Alike (err ("invalid request: " ++ e)) (err ("invalid request: " ++ e'))

inductive ConnOp.Alike (toJson : Response → Except String String) : ConnOp → ConnOp → Prop where
  | gw {e e' : GwOp} : e.Alike e' → ConnOp.Alike toJson (.gw e) (.gw e')
  | write {r r' : Response} : r.Alike r' →
      ConnOp.Alike toJson (.write (responseLine toJson r)) (.write (responseLine toJson r'))

def ConnTold : Ev connSig → Ev connSig → Prop
  | ⟨.gw e, r⟩, ⟨.gw e', r'⟩ => GwTold ⟨e, r⟩ ⟨e', r'⟩
  | ⟨.write _, r⟩, ⟨.write _, r'⟩ => r = r'
  | _, _ => True

section Lines

variable (K : Crates) (parse : String → Except String Request)

/-- Both lines break the stream off, are blank, are malformed, or are alike requests. -/
inductive LineAlike : List UInt8 → List UInt8 → Prop where
  | notUtf8 {l l' : List UInt8} : fromUtf8 l = none → fromUtf8 l' = none → LineAlike l l'
  | blank {l l' : List UInt8} {line line' : String} : fromUtf8 l = some line →
      fromUtf8 l' = some line' → trim line = "" → trim line' = "" → LineAlike l l'
  | malformed {l l' : List UInt8} {line line' e e' : String} : fromUtf8 l = some line →
      fromUtf8 l' = some line' → trim line ≠ "" → trim line' ≠ "" → parse line = .error e →
      parse line' = .error e' → LineAlike l l'
  | request {l l' : List UInt8} {line line' : String} {req req' : Request} :
      fromUtf8 l = some line → fromUtf8 l' = some line' → trim line ≠ "" → trim line' ≠ "" →
      parse line = .ok req → parse line' = .ok req' → req.Alike K req' → LineAlike l l'

/-- Two clients with the same certificates that send alike lines. -/
structure Peer.Alike (peer peer' : Peer) : Prop where
  certs : peer.certs = peer'.certs
  now : peer.now = peer'.now
  failure : peer.incoming.failure = peer'.incoming.failure
  lines : List.Forall₂ (LineAlike K parse) peer.incoming.lines peer'.incoming.lines

end Lines

namespace Gateway

variable {K : Crates} {g : Gateway} {parse : String → Except String Request}
  {toJson : Response → Except String String} {α β : Type}

theorem lockstep_liftGw {post : α → β → Prop} {p : Prog gwSig α} {q : Prog gwSig β}
    (h : GwLockstep post p q) :
    Lockstep (ConnOp.Alike toJson) ConnTold post (liftGw p) (liftGw q) :=
  h.interp fun _ _ he => .call (.gw he) fun _ _ hr => .ret hr

/-- Answering a line, and going on. -/
theorem lockstep_respond {post : α → β → Prop} {p q : Prog gwSig Response}
    (hp : GwLockstep Response.Alike p q) {k : Except String Unit → Prog connSig α}
    {k' : Except String Unit → Prog connSig β}
    (hk : ∀ r, Lockstep (ConnOp.Alike toJson) ConnTold post (k r) (k' r)) :
    Lockstep (ConnOp.Alike toJson) ConnTold post
      (liftGw p >>= fun response => .call (.write (responseLine toJson response)) k)
      (liftGw q >>= fun response => .call (.write (responseLine toJson response)) k') := by
  refine (lockstep_liftGw hp).bind fun r r' hr => .call (.write hr) fun w w' hw => ?_
  obtain rfl : w = w' := hw
  exact hk w

theorem handleLines_lockstep (cn : String) (failure : Option String) {ls ls' : List (List UInt8)}
    (h : List.Forall₂ (LineAlike K parse) ls ls') :
    Lockstep (ConnOp.Alike toJson) ConnTold Eq (g.handleLines K parse toJson cn failure ls)
      (g.handleLines K parse toJson cn failure ls') := by
  induction h with
  | nil =>
    rcases failure with _ | e
    · exact .ret rfl
    · exact .ret rfl
  | @cons l l' ls ls' hl _ ih =>
    rw [handleLines, handleLines]
    cases hl with
    | notUtf8 hu hu' =>
      rw [hu, hu']
      exact .ret rfl
    | blank hu hu' hb hb' =>
      rw [hu, hu']
      dsimp only
      rw [if_pos hb, if_pos hb']
      exact ih
    | malformed hu hu' hb hb' he he' =>
      rw [hu, hu']
      dsimp only
      rw [if_neg hb, if_neg hb', processLine, processLine, he, he']
      refine lockstep_respond (.ret (.malformed _ _)) fun r => ?_
      -- a failed write ends both, otherwise both go on
      rcases r with e | u
      · exact .ret rfl
      · exact ih
    | request hu hu' hb hb' hreq hreq' halike =>
      rw [hu, hu']
      dsimp only
      rw [if_neg hb, if_neg hb', processLine_of_parse hreq, processLine_of_parse hreq']
      refine lockstep_respond ((processRequest_lockstep cn halike).mono fun _ _ => .shape)
        fun r => ?_
      rcases r with e | u
      · exact .ret rfl
      · exact ih

/-- **One connection.** -/
theorem handleConnection_lockstep {utf8Error : List UInt8 → String} {peer peer' : Peer}
    (h : peer.Alike K parse peer') :
    Lockstep (ConnOp.Alike toJson) ConnTold Eq
      (g.handleConnection K parse toJson utf8Error peer.certs peer.now peer.incoming)
      (g.handleConnection K parse toJson utf8Error peer'.certs peer'.now peer'.incoming) := by
  have hlines : ∀ cn, Lockstep (ConnOp.Alike toJson) ConnTold Eq
      (g.handleLines K parse toJson cn peer'.incoming.failure peer.incoming.lines)
      (g.handleLines K parse toJson cn peer'.incoming.failure peer'.incoming.lines) :=
    fun cn => handleLines_lockstep cn _ h.lines
  rw [handleConnection, handleConnection, h.certs, h.now, h.failure]
  rcases peerLeafCert peer'.certs with e | cert
  · exact .ret rfl
  dsimp only
  rcases certCn utf8Error cert with e | cn
  · exact .ret rfl
  dsimp only
  rcases certPolicyNumbers cert peer'.now with e | ⟨validityDays, daysLeft⟩
  · exact .ret rfl
  dsimp only
  have hpolicy : GwLockstep Eq (g.certPolicy cn validityDays daysLeft)
      (g.certPolicy cn validityDays daysLeft) := by
    rw [certPolicy]
    split
    · exact .call (.append _) fun _ _ _ => .ret rfl
    split
    · exact .call (.append _) fun _ _ _ => .ret rfl
    · exact .ret rfl
  refine (lockstep_liftGw hpolicy).bind ?_
  rintro accepted _ rfl
  split
  · exact .ret rfl
  · exact hlines cn

end Gateway

/-! ### Down to the log file and the token -/

inductive FloorOp where
  /-- One critical section of `AuditLog::append`. -/
  | log (op : AuditOp)
  | spawn
  | p11 (op : P11Op)
  | write (bytes : List UInt8)

def FloorOp.Ret : FloorOp → Type
  | .log op => op.Ret
  | .spawn => Spawn
  | .p11 op => op.Ret
  | .write _ => Except String Unit

abbrev floorSig : Sig := ⟨FloorOp, FloorOp.Ret⟩

/-- An operation of a connection, with appends and HSM calls spelled out. -/
def Gateway.ground (K : Crates) (J : Json Entry) (path : String) (g : Gateway) :
    (e : ConnOp) → Prog floorSig (ConnOp.Ret e)
  | .gw (.append a) => (append K J path a).interp fun op => .call (.log op) .ret
  | .gw .spawn => .call .spawn .ret
  | .gw (.hsm c) => (g.hsm.perform K c).interp fun op => .call (.p11 op) .ret
  | .write bytes => .call (.write bytes) .ret

/-- The log on a disk; the next state, which a failed write leaves open, is `disk`'s. -/
def floorAct (disk : LogState → Ev auditSig → LogState) (s : LogState) :
    Ev floorSig → LogState → Prop
  | ⟨.log op, r⟩, s' => s.act ⟨op, r⟩ s' ∧ s' = disk s ⟨op, r⟩
  | _, s' => s' = s

inductive FloorOp.Alike (toJson : Response → Except String String) : FloorOp → FloorOp → Prop where
  | log (op : AuditOp) : FloorOp.Alike toJson (.log op) (.log op)
  | spawn : FloorOp.Alike toJson .spawn .spawn
  | p11 {op op' : P11Op} : op.Alike op' → FloorOp.Alike toJson (.p11 op) (.p11 op')
  | write {r r' : Response} : r.Alike r' →
      FloorOp.Alike toJson (.write (responseLine toJson r)) (.write (responseLine toJson r'))

/-- The operations are answered alike: the same time, the same things fail, the token returns
the same handles and verdicts.  Nothing is asked of the hash that is read. -/
def AnsweredAlike : Ev floorSig → Ev floorSig → Prop
  | ⟨.log .now, ts⟩, ⟨.log .now, ts'⟩ => ts = ts'
  | ⟨.log (.writeLine _), r⟩, ⟨.log (.writeLine _), r'⟩ => r = r'
  | ⟨.spawn, s⟩, ⟨.spawn, s'⟩ => s = s'
  | ⟨.p11 op, r⟩, ⟨.p11 op', r'⟩ => op.tells r = op'.tells r'
  | ⟨.write _, r⟩, ⟨.write _, r'⟩ => r = r'
  | _, _ => True

/-- The same, and the same of the log. -/
def FloorTold : Ev floorSig → Ev floorSig → Prop
  | ⟨.log op, r⟩, ⟨.log op', r'⟩ => (⟨op, r⟩ : Ev auditSig) = ⟨op', r'⟩
  | ⟨.spawn, s⟩, ⟨.spawn, s'⟩ => s = s'
  | ⟨.p11 op, r⟩, ⟨.p11 op', r'⟩ => op.tells r = op'.tells r'
  | ⟨.write _, r⟩, ⟨.write _, r'⟩ => r = r'
  | _, _ => True

section Floor

variable {K : Crates} {J : Json Entry} {path : String} {g : Gateway}
  {toJson : Response → Except String String} {disk : LogState → Ev auditSig → LogState}

/-- Alike operations of two connections, spelled out. -/
theorem lockstep_ground {e e' : ConnOp} (h : e.Alike toJson e') :
    Lockstep (FloorOp.Alike toJson) FloorTold (fun r r' => ConnTold ⟨e, r⟩ ⟨e', r'⟩)
      (g.ground K J path e) (g.ground K J path e') := by
  cases h with
  | gw he =>
    cases he with
    | append a =>
      have hself : Lockstep Eq Eq Eq (append K J path a) (append K J path a) := by
        refine lockstep_self (fun _ => rfl) (fun e r r' h => ?_) _
        cases h
        rfl
      have hlog : Lockstep (FloorOp.Alike toJson) FloorTold Eq
          (g.ground K J path (.gw (.append a))) (g.ground K J path (.gw (.append a))) := by
        rw [Gateway.ground]
        refine hself.interp fun op op' hop => ?_
        subst hop
        exact .call (.log op) fun _ _ hr => .ret hr
      exact hlog.mono fun _ _ hr => hr
    | spawn => exact .call .spawn fun _ _ hr => .ret hr
    | hsm hc =>
      refine (HsmClient.perform_lockstep K g.hsm hc).interp fun op op' hop => ?_
      exact .call (.p11 hop) fun _ _ hr => .ret hr
  | write hr => exact .call (.write hr) fun _ _ hw => .ret hw

/-- One step of two systems whose logs are equal. -/
theorem floor_step {s s₁ s₂ : LogState} {ev ev' : Ev floorSig}
    (hops : ev.op.Alike toJson ev'.op) (h₁ : floorAct disk s ev s₁) (h₂ : floorAct disk s ev' s₂)
    (hans : AnsweredAlike ev ev') : FloorTold ev ev' ∧ s₁ = s₂ := by
  obtain ⟨e, r⟩ := ev
  obtain ⟨e', r'⟩ := ev'
  cases hops with
  | log op =>
    obtain ⟨ha₁, rfl⟩ := h₁
    obtain ⟨ha₂, rfl⟩ := h₂
    have hr : r = r' := by
      cases op with
      | now => exact hans
      | lastHash => exact ha₁.1.trans ha₂.1.symm
      | writeLine bytes => exact hans
      | setLastHash hash => rfl
    subst hr
    exact ⟨rfl, rfl⟩
  | spawn =>
    obtain rfl : s₁ = s := h₁
    obtain rfl : s₂ = s₁ := h₂
    exact ⟨hans, rfl⟩
  | p11 hop =>
    obtain rfl : s₁ = s := h₁
    obtain rfl : s₂ = s₁ := h₂
    exact ⟨hans, rfl⟩
  | write hr =>
    obtain rfl : s₁ = s := h₁
    obtain rfl : s₂ = s₁ := h₂
    exact ⟨hans, rfl⟩

end Floor

section Result

variable (K : Crates) (J : Json Entry) (path : String) (parse : String → Except String Request)
  (toJson : Response → Except String String) (utf8Error : List UInt8 → String) {ι : Type}
  [DecidableEq ι]

/-- The connections of these clients, down to the log file and the token. -/
def connectingOnFloor (g : Gateway) (peers : ι → Peer) (s : LogState) :
    Conf floorSig LogState ι (Except String Unit) :=
  ⟨s, fun i => (g.handleConnection K parse toJson utf8Error (peers i).certs (peers i).now
    (peers i).incoming).interp (g.ground K J path), []⟩

variable {K J path parse toJson utf8Error} {g : Gateway}
  {disk : LogState → Ev auditSig → LogState}
  {allow allow' : Conf floorSig LogState ι (Except String Unit) → ι → Ev floorSig → Prop}
  {peers peers' : ι → Peer} {s : LogState} {c c' : Conf floorSig LogState ι (Except String Unit)}

omit [DecidableEq ι] in
theorem abreast_connectingOnFloor (h : ∀ i, (peers i).Alike K parse (peers' i)) (s : LogState) :
    Abreast (FloorOp.Alike toJson) FloorTold Eq Eq
      (connectingOnFloor K J path parse toJson utf8Error g peers s)
      (connectingOnFloor K J path parse toJson utf8Error g peers' s) :=
  ⟨.nil, rfl, fun i => (Gateway.handleConnection_lockstep (h i)).interp fun _ _ => lockstep_ground⟩

/-- **The audit log is discreet.**  Two systems start from the same log, with clients that are
alike, on two tokens; they run under the same schedule, in which what fails on one side fails
on the other.  At every moment the two log files are the same, and so is the hash in memory;
the token has been asked for the same operations on the same handles, and the clients have
been sent responses of the same shape. -/
theorem log_discreet (halike : ∀ i, (peers i).Alike K parse (peers' i))
    (hc : Reach (floorAct disk) allow
      (connectingOnFloor K J path parse toJson utf8Error g peers s) c)
    (hc' : Reach (floorAct disk) allow'
      (connectingOnFloor K J path parse toJson utf8Error g peers' s) c')
    (hans : Paired AnsweredAlike c.hist c'.hist) :
    c.shared = c'.shared ∧
      Paired (fun (ev ev' : Ev floorSig) => ev.op.Alike toJson ev'.op) c.hist c'.hist := by
  have hact : ∀ (s t : LogState) (ev ev' : Ev floorSig) (s' t' : LogState), s = t →
      ev.op.Alike toJson ev'.op → floorAct disk s ev s' → floorAct disk t ev' t' →
      AnsweredAlike ev ev' → FloorTold ev ev' ∧ s' = t' := by
    rintro s _ ev ev' s' t' rfl hops ha ha' hg
    exact floor_step hops ha ha' hg
  have h := Reach.lockstep hact (abreast_connectingOnFloor halike s) rfl rfl hc hc' hans
  exact ⟨h.shared, h.hist⟩

end Result

/-! ### Two messages -/

/-- A token with one handle for everything; what it computes is `bytes`. -/
def oneHandle (bytes : List UInt8) : (op : P11Op) → op.Ret
  | .openRwSession _ => .ok 1
  | .login _ _ => .ok ()
  | .findObjects _ _ => .ok [7]
  | .sign _ _ _ _ => .ok bytes
  | .verify _ _ _ _ _ => .ok ()
  | .generateRandom _ len => .ok (List.replicate len (bytes.headD 0))
  | .encrypt _ _ _ _ => .ok bytes
  | .decrypt _ _ _ _ => .ok bytes
  | .deriveKey _ _ _ _ => .ok 8
  | .closeSession _ => ()

theorem tells_oneHandle (x y : List UInt8) {op op' : P11Op} (h : op.Alike op') :
    op.tells (oneHandle x op) = op'.tells (oneHandle y op') := by
  cases h with
  | same op =>
    cases op with
    | generateRandom session len => simp [P11Op.tells, oneHandle, Except.map]
    | _ => rfl
  | _ => rfl

def floorAnswer (bytes : List UInt8) (s : LogState) : (e : FloorOp) → FloorOp.Ret e × LogState
  | .log op => s.answer op
  | .spawn => (.ran, s)
  | .p11 op => (oneHandle bytes op, s)
  | .write _ => (.ok (), s)

/-- The disk of `LogState.answer`. -/
def steadyDisk (s : LogState) (ev : Ev auditSig) : LogState := (s.answer ev.op).2

theorem floorAct_answer (bytes : List UInt8) (s : LogState) (e : FloorOp) :
    floorAct steadyDisk s ⟨e, (floorAnswer bytes s e).1⟩ (floorAnswer bytes s e).2 := by
  cases e with
  | log op => exact ⟨(LogState.actOk_answer s op).1, rfl⟩
  | spawn => rfl
  | p11 op => rfl
  | write b => rfl

/-- The two tokens answer alike. -/
theorem floorAnswer_alike (x y : List UInt8) {toJson : Response → Except String String}
    (s t : LogState) (e e' : FloorOp) (hst : s = t) (h : e.Alike toJson e') :
    AnsweredAlike ⟨e, (floorAnswer x s e).1⟩ ⟨e', (floorAnswer y t e').1⟩ ∧
      FloorTold ⟨e, (floorAnswer x s e).1⟩ ⟨e', (floorAnswer y t e').1⟩ ∧
      (floorAnswer x s e).2 = (floorAnswer y t e').2 := by
  subst hst
  cases h with
  | log op => cases op <;> exact ⟨by trivial, rfl, rfl⟩
  | spawn => exact ⟨rfl, rfl, rfl⟩
  | p11 hop => exact ⟨tells_oneHandle x y hop, tells_oneHandle x y hop, rfl⟩
  | write hr => exact ⟨rfl, rfl, rfl⟩

def messageLine (dataB64 : String) : String :=
  Ref.requestText (.sign "k1" "ecdsa_sha256" dataB64)

/-- Two connections of `app-a` that have the same message signed. -/
def signing (dataB64 : String) : Bool → Peer := fun _ =>
  ⟨some [.ok (Ref.certFor (30 * 86400))], 0, ⟨utf8 (messageLine dataB64), none⟩⟩

theorem signing_alike (i : Bool) :
    (signing "aGVsbG8=" i).Alike Ref.crates Ref.parseRequest (signing "d29ybGQh" i) := by
  refine ⟨rfl, rfl, rfl, ?_⟩
  have h : Incoming.lines ⟨utf8 (messageLine "aGVsbG8="), none⟩ =
      [utf8 (messageLine "aGVsbG8=")] := by decide +kernel
  have h' : Incoming.lines ⟨utf8 (messageLine "d29ybGQh"), none⟩ =
      [utf8 (messageLine "d29ybGQh")] := by decide +kernel
  rw [signing, signing, h, h']
  exact .cons (.request (fromUtf8_utf8 _) (fromUtf8_utf8 _) (by decide +kernel)
    (by decide +kernel) (Ref.parseRequest_requestText _) (Ref.parseRequest_requestText _)
    (.sign _ _ rfl)) .nil

/-- Both connections of the one system. -/
def signed (dataB64 : String) : Conf floorSig LogState Bool (Except String Unit) :=
  connectingOnFloor Ref.crates Ref.entryJson "audit.jsonl" Ref.parseRequest Ref.responseJson
    (fun _ => "") Ref.gateway (signing dataB64) ⟨[], genesis⟩

/-- The connections take turns. -/
def turns : List Bool := (List.replicate 20 [true, false]).flatten

theorem reach_signed (dataB64 : String) (bytes : List UInt8) :
    Reach (floorAct steadyDisk) anySchedule (signed dataB64)
      ((signed dataB64).exec (floorAnswer bytes) turns) :=
  Reach.init.exec (floorAct_answer bytes) turns

theorem abreast_signed : Abreast (FloorOp.Alike Ref.responseJson) FloorTold Eq Eq
    (signed "aGVsbG8=") (signed "d29ybGQh") :=
  abreast_connectingOnFloor signing_alike _

theorem log_discreet_signed :
    ((signed "aGVsbG8=").exec (floorAnswer [1, 2, 3]) turns).shared =
      ((signed "d29ybGQh").exec (floorAnswer [4, 5]) turns).shared := by
  have hans : Paired AnsweredAlike ((signed "aGVsbG8=").exec (floorAnswer [1, 2, 3]) turns).hist
      ((signed "d29ybGQh").exec (floorAnswer [4, 5]) turns).hist :=
    lockstep_exec (floorAnswer_alike [1, 2, 3] [4, 5]) abreast_signed .nil turns
  exact (log_discreet signing_alike (reach_signed _ _) (reach_signed _ _) hans).1

end PicoHsm
