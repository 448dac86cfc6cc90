/-
The request pipeline (`server.rs`).

A request line goes through parsing, authorization, the peer-key allowlist, the
audit intent, the HSM and the closing audit entry.  The code is a program over three
operations: one append to the audit log, starting a blocking task, and one call of
the PKCS#11 layer (`Hsm.lean`).  `serde_json::from_str` on a request line is the
parameter `parse`.

* `Gateway.processLine`, `Gateway.execute` — the source's functions of these names;
* `Gateway.execute_branch` — an error at once, or the one HSM call the request asks for,
  for a decryption behind the check of the integrity signature;
* `Gateway.Proper` — what `execute` may ask of the HSM, by request and history;
* `execute_proper` — it keeps to that, in all six branches, whatever the HSM answers.
-/
import PicoHsm.Audit
import PicoHsm.Hsm
import PicoHsm.Protocol

namespace PicoHsm

open Text Effects

/-! ### Operations of the gateway -/

/-- What becomes of `spawn_blocking(..).await`. -/
inductive Spawn where
  | ran
  /-- The task never ran. -/
  | cancelled (e : String)
  /-- The task ran, and its result is lost. -/
  | panicked (e : String)

inductive GwOp where
  | append (a : AppendArgs)
  | spawn
  | hsm (call : HsmCall)

def GwOp.Ret : GwOp → Type
  | .append _ => Except String Unit
  | .spawn => Spawn
  | .hsm call => call.Ret

abbrev gwSig : Sig := ⟨GwOp, GwOp.Ret⟩

/-- `spawn_blocking(move || hsm.call(..)).await`; the outer error is the `JoinError`. -/
def blocking (call : HsmCall) : Prog gwSig (Except String call.Ret) :=
  .call .spawn fun (s : Spawn) =>
    match s with
    | .ran => .call (.hsm call) fun (r : call.Ret) => .ret (.ok r)
    | .cancelled e => .ret (.error e)
    | .panicked e => .call (.hsm call) fun _ => .ret (.error e)

/-! ### Constants and helpers -/

def integrityDomain : List UInt8 := utf8 "pico-hsm-api-connector/integrity-v1"

def mechEcdsaSha256 : String := "ecdsa_sha256"

def mechAesCbcPad : String := "aes_cbc_pad"

def mechEcdh1Derive : String := "ecdh1_derive"

/-- Domain separator, key label, IV and ciphertext, each behind its length. -/
def integrityPayload (keyLabel : String) (iv ciphertext : List UInt8) : List UInt8 :=
  Framing.frames [integrityDomain, utf8 keyLabel, iv, ciphertext]

def okResult (resultB64 : String) : Response := .ok (some resultB64) none none none

def denied (reason : String) : Response := .denied reason

def err (message : String) : Response := .error message

def opName : Operation → String
  | .sign => "sign"
  | .verify => "verify"
  | .encrypt => "encrypt"
  | .decrypt => "decrypt"
  | .deriveAndEncrypt => "derive_and_encrypt"
  | .deriveAndDecrypt => "derive_and_decrypt"

def hexSha256 (K : Crates) (bytes : List UInt8) : String :=
  String.join ((K.sha256 bytes).map hexByte)

def b64 (K : Crates) (s : String) : Except Response (List UInt8) :=
  match K.b64.decode s with
  | some bytes => .ok bytes
  | none => .error (err "invalid base64 input")

structure Gateway where
  authz : AuthzTable
  hsm : HsmClient
  integrityLabel : String
  maxCertValidityDays : Int
  certExpiryWarnDays : Int

namespace Gateway

variable (K : Crates) (g : Gateway)

/-! ### Integrity of ciphertexts -/

def sealResponse (keyLabel : String) (iv ct : List UInt8) : Prog gwSig Response :=
  .call (.hsm (.sign g.integrityLabel (integrityPayload keyLabel iv ct)))
    fun (r : Except String (List UInt8)) =>
      match r with
      | .ok sig => .ret (.ok (some (K.b64.encode ct)) none (some (K.b64.encode iv))
          (some (K.b64.encode sig)))
      | .error e => .ret (err ("integrity signing failed: " ++ e))

/-- Any error means "reject". -/
def checkIntegrity (keyLabel : String) (iv ct sig : List UInt8) : Prog gwSig Bool :=
  .call (.hsm (.verify g.integrityLabel (integrityPayload keyLabel iv ct) sig))
    fun (r : Except String Bool) =>
      match r with
      | .ok valid => .ret valid
      | .error _ => .ret false

/-! ### Execution of an authorized request -/

def executeSign (keyLabel mechanism dataB64 : String) : Prog gwSig Response :=
  if mechanism ≠ mechEcdsaSha256 then
    .ret (err ("unsupported sign mechanism " ++ debugStr K.escaped mechanism ++ " (MVP: " ++
      mechEcdsaSha256 ++ ")"))
  else
    match b64 K dataB64 with
    | .error e => .ret e
    | .ok data =>
      blocking (.sign keyLabel data) >>= fun (r : Except String (Except String (List UInt8))) =>
        match r with
        | .ok (.ok sig) => .ret (okResult (K.b64.encode sig))
        | .ok (.error e) => .ret (err ("sign failed: " ++ e))
        | .error e => .ret (err ("sign task failed: " ++ e))

def executeVerify (keyLabel mechanism dataB64 signatureB64 : String) : Prog gwSig Response :=
  if mechanism ≠ mechEcdsaSha256 then
    .ret (err ("unsupported verify mechanism " ++ debugStr K.escaped mechanism ++ " (MVP: " ++
      mechEcdsaSha256 ++ ")"))
  else
    match b64 K dataB64, b64 K signatureB64 with
    | .ok data, .ok sig =>
      blocking (.verify keyLabel data sig) >>= fun (r : Except String (Except String Bool)) =>
        match r with
        | .ok (.ok valid) => .ret (.ok none (some valid) none none)
        | .ok (.error e) => .ret (err ("verify failed: " ++ e))
        | .error e => .ret (err ("verify task failed: " ++ e))
    | _, _ => .ret (err "invalid data_b64/signature_b64")

def executeEncrypt (keyLabel mechanism dataB64 : String) : Prog gwSig Response :=
  if mechanism ≠ mechAesCbcPad then
    .ret (err ("unsupported encrypt mechanism " ++ debugStr K.escaped mechanism ++ " (MVP: " ++
      mechAesCbcPad ++ ")"))
  else
    match b64 K dataB64 with
    | .error e => .ret e
    | .ok data =>
      blocking (.encrypt keyLabel data) >>=
        fun (r : Except String (Except String (List UInt8 × List UInt8))) =>
          match r with
          | .ok (.ok (iv, ct)) => g.sealResponse K keyLabel iv ct
          | .ok (.error e) => .ret (err ("encrypt failed: " ++ e))
          | .error e => .ret (err ("encrypt task failed: " ++ e))

/-- The shared middle of the two decrypting branches: decode the fields, check the
integrity signature, and only then go on with ciphertext and IV. -/
def withIntegrity (req : Request) (keyLabel missing : String)
    (k : List UInt8 → List UInt8 → Prog gwSig Response) : Prog gwSig Response :=
  match req.integrityInput with
  | none => .ret (err missing)
  | some (ivB64, integrityB64, dataB64) =>
    match b64 K dataB64, b64 K ivB64, b64 K integrityB64 with
    | .ok ct, .ok iv, .ok integ =>
      g.checkIntegrity keyLabel iv ct integ >>= fun valid =>
        if valid = false then .ret (denied "integrity check failed, ciphertext rejected")
        else k ct iv
    | _, _, _ => .ret (err "invalid data_b64/iv_b64/integrity_b64")

def executeDecrypt (req : Request) (keyLabel mechanism : String) : Prog gwSig Response :=
  if mechanism ≠ mechAesCbcPad then
    .ret (err ("unsupported decrypt mechanism " ++ debugStr K.escaped mechanism ++ " (MVP: " ++
      mechAesCbcPad ++ ")"))
  else
    g.withIntegrity K req keyLabel "decrypt request missing integrity fields" fun ct iv =>
      blocking (.decrypt keyLabel ct iv) >>= fun (r : Except String (Except String (List UInt8))) =>
        match r with
        | .ok (.ok pt) => .ret (okResult (K.b64.encode pt))
        | .ok (.error e) => .ret (err ("decrypt failed: " ++ e))
        | .error e => .ret (err ("decrypt task failed: " ++ e))

/-- The answer to an unsupported pair of mechanisms. -/
def unsupportedPair (deriveMechanism targetMechanism : String) : Response :=
  err ("unsupported derive pair " ++ debugStr K.escaped deriveMechanism ++ "+" ++
    debugStr K.escaped targetMechanism ++ " (MVP: " ++ mechEcdh1Derive ++ "+" ++ mechAesCbcPad ++
    ")")

def executeDeriveAndEncrypt (keyLabel deriveMechanism targetMechanism dataB64 : String)
    (peerKey : Option (List UInt8)) : Prog gwSig Response :=
  if deriveMechanism ≠ mechEcdh1Derive ∨ targetMechanism ≠ mechAesCbcPad then
    .ret (unsupportedPair K deriveMechanism targetMechanism)
  else
    match b64 K dataB64 with
    | .error e => .ret e
    | .ok data =>
      let peer := peerKey.getD []
      blocking (.deriveAndEncrypt keyLabel peer data) >>=
        fun (r : Except String (Except String (List UInt8 × List UInt8))) =>
          match r with
          | .ok (.ok (iv, ct)) => g.sealResponse K keyLabel iv ct
          | .ok (.error e) => .ret (err ("derive_and_encrypt failed: " ++ e))
          | .error e => .ret (err ("derive task failed: " ++ e))

def executeDeriveAndDecrypt (req : Request) (keyLabel deriveMechanism targetMechanism : String)
    (peerKey : Option (List UInt8)) : Prog gwSig Response :=
  if deriveMechanism ≠ mechEcdh1Derive ∨ targetMechanism ≠ mechAesCbcPad then
    .ret (unsupportedPair K deriveMechanism targetMechanism)
  else
    g.withIntegrity K req keyLabel "derive_and_decrypt request missing integrity fields"
      fun ct iv =>
        let peer := peerKey.getD []
        blocking (.deriveAndDecrypt keyLabel peer ct iv) >>=
          fun (r : Except String (Except String (List UInt8))) =>
            match r with
            | .ok (.ok pt) => .ret (okResult (K.b64.encode pt))
            | .ok (.error e) => .ret (err ("derive_and_decrypt failed: " ++ e))
            | .error e => .ret (err ("derive task failed: " ++ e))

/-- `Gateway::execute`, one branch for each request. -/
def execute (req : Request) (peerKey : Option (List UInt8)) : Prog gwSig Response :=
  match req with
  | .sign keyLabel mechanism dataB64 => executeSign K keyLabel mechanism dataB64
  | .verify keyLabel mechanism dataB64 signatureB64 =>
    executeVerify K keyLabel mechanism dataB64 signatureB64
  | .encrypt keyLabel mechanism dataB64 => g.executeEncrypt K keyLabel mechanism dataB64
  | .decrypt keyLabel mechanism _ _ _ => g.executeDecrypt K req keyLabel mechanism
  | .deriveAndEncrypt keyLabel deriveMechanism targetMechanism _ dataB64 =>
    g.executeDeriveAndEncrypt K keyLabel deriveMechanism targetMechanism dataB64 peerKey
  | .deriveAndDecrypt keyLabel deriveMechanism targetMechanism _ _ _ _ =>
    g.executeDeriveAndDecrypt K req keyLabel deriveMechanism targetMechanism peerKey

/-! ### The pipeline -/

/-- Step 2: the peer key of a derive request, if it is allowlisted; else the reason of
the denial. -/
def peerKey (cn : String) (req : Request) : Except String (Option (List UInt8)) :=
  match req.peerPublicKeyB64 with
  | none => .ok none
  | some peerB64 =>
    match K.b64.decode peerB64 with
    | some bytes =>
      if g.authz.isPeerKeyAuthorized cn req.operation req.keyLabel peerB64 = false then
        .error ("denied: peer key " ++ hexSha256 K bytes ++ " not allowlisted for " ++
          debugStr K.escaped req.keyLabel)
      else .ok (some bytes)
    | none => .error "invalid peer_public_key_b64"

/-- An audit entry about this request. -/
def entryFor (cn : String) (req : Request) (outcome : Outcome) (detail : String) : AppendArgs :=
  ⟨cn, opName req.operation, req.keyLabel, outcome, detail⟩

/-- The reason of a denial in step 1. -/
def denialReason (cn : String) (req : Request) : String :=
  "denied: " ++ cn ++ " may not run " ++ opName req.operation ++ " on " ++
    debugStr K.escaped req.keyLabel

/-- A denial before the intent; the result of the append is discarded. -/
def refuse (cn : String) (req : Request) (reason : String) : Prog gwSig Response :=
  .call (.append (entryFor cn req .denied reason)) fun _ => .ret (denied reason)

/-- The closing entry for a result. -/
def closing (cn : String) (req : Request) : Response → AppendArgs
  | .ok _ _ _ _ => entryFor cn req .authorized ""
  | .denied reason => entryFor cn req .denied reason
  | .error message => entryFor cn req .error message

/-- Steps 3 to 5: intent, execution, closing entry (its result is discarded). -/
def audited (cn : String) (req : Request) (peerKey : Option (List UInt8)) :
    Prog gwSig Response :=
  .call (.append (entryFor cn req .intent "")) fun (r : Except String Unit) =>
    match r with
    | .error e => .ret (err ("audit log unavailable, request rejected: " ++ e))
    | .ok _ =>
      g.execute K req peerKey >>= fun result =>
        .call (.append (closing cn req result)) fun _ => .ret result

/-- The steps of `process_line` behind the parser. -/
def processRequest (cn : String) (req : Request) : Prog gwSig Response :=
  if g.authz.isAuthorized cn req.operation req.keyLabel = false then
    refuse cn req (denialReason K cn req)
  else
    match g.peerKey K cn req with
    | .error reason => refuse cn req reason
    | .ok peerKey => g.audited K cn req peerKey

/-- `Gateway::process_line` -/
def processLine (parse : String → Except String Request) (cn line : String) :
    Prog gwSig Response :=
  match parse line with
  | .error e => .ret (err ("invalid request: " ++ e))
  | .ok req => g.processRequest K cn req

variable {K g} in
theorem processLine_of_parse {parse : String → Except String Request} {cn line : String}
    {req : Request} (h : parse line = .ok req) :
    g.processLine K parse cn line = g.processRequest K cn req := by
  rw [processLine, h]

/-- The certificate policy at the start of `handle_connection`; the result says whether
the connection goes on.  The results of the appends are discarded. -/
def certPolicy (cn : String) (validityDays daysLeft : Int) : Prog gwSig Bool :=
  if validityDays > g.maxCertValidityDays then
    .call (.append ⟨cn, "connect", "", .denied, "cert_policy_violation: validity exceeds maximum"⟩)
      fun _ => .ret false
  else if daysLeft ≤ g.certExpiryWarnDays then
    .call (.append ⟨cn, "connect", "", .certExpiringSoon, "expires in " ++ toString daysLeft ++ "d"⟩)
      fun _ => .ret true
  else .ret true

/-! ### The branches of `execute` -/

end Gateway

/-- The call a request asks for, if its mechanism is supported and its fields decode. -/
def Request.hsmCall (K : Crates) (peerKey : Option (List UInt8)) : Request → Option HsmCall
  | .sign label mech data =>
    if mech = mechEcdsaSha256 then (K.b64.decode data).map fun d => .sign label d else none
  | .verify label mech data sig =>
    if mech = mechEcdsaSha256 then
      (K.b64.decode data).bind fun d => (K.b64.decode sig).map fun s => .verify label d s
    else none
  | .encrypt label mech data =>
    if mech = mechAesCbcPad then (K.b64.decode data).map fun d => .encrypt label d else none
  | .decrypt label mech data iv integ =>
    if mech = mechAesCbcPad then
      (K.b64.decode data).bind fun ct => (K.b64.decode iv).bind fun iv =>
        (K.b64.decode integ).map fun _ => .decrypt label ct iv
    else none
  | .deriveAndEncrypt label derive target _ data =>
    if derive = mechEcdh1Derive ∧ target = mechAesCbcPad then
      (K.b64.decode data).map fun d => .deriveAndEncrypt label (peerKey.getD []) d
    else none
  | .deriveAndDecrypt label derive target _ iv integ data =>
    if derive = mechEcdh1Derive ∧ target = mechAesCbcPad then
      (K.b64.decode data).bind fun ct => (K.b64.decode iv).bind fun iv =>
        (K.b64.decode integ).map fun _ => .deriveAndDecrypt label (peerKey.getD []) ct iv
    else none

/-- The integrity signature a request carries. -/
def Request.integrity (K : Crates) (req : Request) : List UInt8 :=
  match req.integrityInput with
  | some (_, integrityB64, _) => (K.b64.decode integrityB64).getD []
  | none => []

/-- IV and ciphertext of a decrypting call. -/
def HsmCall.ciphertext : HsmCall → Option (List UInt8 × List UInt8)
  | .decrypt _ ct iv => some (iv, ct)
  | .deriveAndDecrypt _ _ ct iv => some (iv, ct)
  | _ => none

namespace Gateway

variable (K : Crates) (g : Gateway)

/-- A decrypting call goes behind the check of the integrity signature. -/
def behindCheck (req : Request) (c : HsmCall) (p : Prog gwSig Response) : Prog gwSig Response :=
  match c.ciphertext with
  | none => p
  | some (iv, ct) =>
    g.checkIntegrity req.keyLabel iv ct (req.integrity K) >>= fun valid =>
      if valid = false then .ret (denied "integrity check failed, ciphertext rejected") else p

/-- How `execute` goes on when the call has succeeded. -/
def onSuccess (label : String) : (c : HsmCall) → c.Ret → Option (Prog gwSig Response)
  | .sign _ _, r => r.toOption.map fun sig => .ret (okResult (K.b64.encode sig))
  | .verify _ _ _, r => r.toOption.map fun valid => .ret (.ok none (some valid) none none)
  | .encrypt _ _, r => r.toOption.map fun x => g.sealResponse K label x.1 x.2
  | .decrypt _ _ _, r => r.toOption.map fun pt => .ret (okResult (K.b64.encode pt))
  | .deriveAndEncrypt _ _ _, r => r.toOption.map fun x => g.sealResponse K label x.1 x.2
  | .deriveAndDecrypt _ _ _ _, r => r.toOption.map fun pt => .ret (okResult (K.b64.encode pt))

/-- `f` goes on with the result of the call as `execute` does; the texts of its errors are
left open. -/
structure Finishes (label : String) (c : HsmCall) (f : Except String c.Ret → Prog gwSig Response) :
    Prop where
  task : ∀ e, ∃ message, f (.error e) = .ret (err message)
  failed : ∀ r, g.onSuccess K label c r = none → ∃ message, f (.ok r) = .ret (err message)
  done : ∀ r p, g.onSuccess K label c r = some p → f (.ok r) = p

/-- The two ways of `execute`: an error at once, or the call the request asks for. -/
inductive Branch (req : Request) (peerKey : Option (List UInt8)) : Prog gwSig Response → Prop where
  | reject (message : String) : req.hsmCall K peerKey = none →
      Branch req peerKey (.ret (err message))
  | serve (c : HsmCall) (f : Except String c.Ret → Prog gwSig Response) :
      req.hsmCall K peerKey = some c → g.Finishes K req.keyLabel c f →
      Branch req peerKey (g.behindCheck K req c (blocking c >>= f))

variable {K} in
theorem b64_of_some {s : String} {bytes : List UInt8} (h : K.b64.decode s = some bytes) :
    b64 K s = .ok bytes := by rw [b64, h]

variable {K} in
theorem b64_of_none {s : String} (h : K.b64.decode s = none) :
    b64 K s = .error (err "invalid base64 input") := by rw [b64, h]

variable {K g} in
/-- The two decrypting requests share their middle. -/
theorem withIntegrity_branch {req : Request} {peerKey : Option (List UInt8)} {missing : String}
    {ivB64 integrityB64 dataB64 : String} {call : List UInt8 → List UInt8 → HsmCall}
    {k : List UInt8 → List UInt8 → Prog gwSig Response}
    (hin : req.integrityInput = some (ivB64, integrityB64, dataB64))
    (hcall : req.hsmCall K peerKey =
      (K.b64.decode dataB64).bind fun ct => (K.b64.decode ivB64).bind fun iv =>
        (K.b64.decode integrityB64).map fun _ => call ct iv)
    (hct : ∀ ct iv, (call ct iv).ciphertext = some (iv, ct))
    (hk : ∀ ct iv, ∃ f, g.Finishes K req.keyLabel (call ct iv) f ∧
      k ct iv = blocking (call ct iv) >>= f) :
    g.Branch K req peerKey (g.withIntegrity K req req.keyLabel missing k) := by
  rw [withIntegrity, hin]
  dsimp only
  rcases hd : K.b64.decode dataB64 with _ | ct
  · rw [b64_of_none hd]
    exact .reject _ (by rw [hcall, hd]; rfl)
  rcases hi : K.b64.decode ivB64 with _ | iv
  · rw [b64_of_some hd, b64_of_none hi]
    exact .reject _ (by rw [hcall, hd, hi]; rfl)
  rcases hs : K.b64.decode integrityB64 with _ | sig
  · rw [b64_of_some hd, b64_of_some hi, b64_of_none hs]
    exact .reject _ (by rw [hcall, hd, hi, hs]; rfl)
  obtain ⟨f, hf, hkf⟩ := hk ct iv
  have hsig : req.integrity K = sig := by
    rw [Request.integrity, hin]
    dsimp only
    rw [hs]
    rfl
  have hb := Branch.serve (call ct iv) f (by rw [hcall, hd, hi, hs]; rfl) hf
  rw [behindCheck, hct, hsig] at hb
  rw [b64_of_some hd, b64_of_some hi, b64_of_some hs]
  dsimp only
  rw [hkf]
  exact hb

/-- **The branches of `execute`.** -/
theorem execute_branch (req : Request) (peerKey : Option (List UInt8)) :
    g.Branch K req peerKey (g.execute K req peerKey) := by
  cases req with
  | sign keyLabel mechanism dataB64 =>
    rw [execute, executeSign]
    by_cases hm : mechanism = mechEcdsaSha256
    · rw [if_neg (not_not.mpr hm)]
      rcases hd : K.b64.decode dataB64 with _ | data
      · rw [b64_of_none hd]
        exact .reject _ (by rw [Request.hsmCall, if_pos hm, hd]; rfl)
      · rw [b64_of_some hd]
        refine .serve (.sign keyLabel data) _ (by rw [Request.hsmCall, if_pos hm, hd]; rfl)
          ⟨fun e => ⟨_, rfl⟩, ?_, ?_⟩
        · rintro (e | x) hr
          · exact ⟨_, rfl⟩
          · cases hr
        · rintro (e | x) p hr
          · cases hr
          · cases hr
            rfl
    · rw [if_pos hm]
      exact .reject _ (if_neg hm)
  | verify keyLabel mechanism dataB64 signatureB64 =>
    rw [execute, executeVerify]
    by_cases hm : mechanism = mechEcdsaSha256
    · rw [if_neg (not_not.mpr hm)]
      rcases hd : K.b64.decode dataB64 with _ | data
      · rw [b64_of_none hd]
        exact .reject _ (by rw [Request.hsmCall, if_pos hm, hd]; rfl)
      rcases hs : K.b64.decode signatureB64 with _ | sig
      · rw [b64_of_some hd, b64_of_none hs]
        exact .reject _ (by rw [Request.hsmCall, if_pos hm, hd, hs]; rfl)
      · rw [b64_of_some hd, b64_of_some hs]
        refine .serve (.verify keyLabel data sig) _
          (by rw [Request.hsmCall, if_pos hm, hd, hs]; rfl) ⟨fun e => ⟨_, rfl⟩, ?_, ?_⟩
        · rintro (e | x) hr
          · exact ⟨_, rfl⟩
          · cases hr
        · rintro (e | x) p hr
          · cases hr
          · cases hr
            rfl
    · rw [if_pos hm]
      exact .reject _ (if_neg hm)
  | encrypt keyLabel mechanism dataB64 =>
    rw [execute, executeEncrypt]
    by_cases hm : mechanism = mechAesCbcPad
    · rw [if_neg (not_not.mpr hm)]
      rcases hd : K.b64.decode dataB64 with _ | data
      · rw [b64_of_none hd]
        exact .reject _ (by rw [Request.hsmCall, if_pos hm, hd]; rfl)
      · rw [b64_of_some hd]
        refine .serve (.encrypt keyLabel data) _ (by rw [Request.hsmCall, if_pos hm, hd]; rfl)
          ⟨fun e => ⟨_, rfl⟩, ?_, ?_⟩
        · rintro (e | x) hr
          · exact ⟨_, rfl⟩
          · cases hr
        · rintro (e | x) p hr
          · cases hr
          · cases hr
            rfl
    · rw [if_pos hm]
      exact .reject _ (if_neg hm)
  | decrypt keyLabel mechanism dataB64 ivB64 integrityB64 =>
    rw [execute, executeDecrypt]
    by_cases hm : mechanism = mechAesCbcPad
    · rw [if_neg (not_not.mpr hm)]
      refine withIntegrity_branch rfl (if_pos hm) (fun _ _ => rfl) fun ct iv =>
        ⟨_, ⟨fun e => ⟨_, rfl⟩, ?_, ?_⟩, rfl⟩
      · rintro (e | x) hr
        · exact ⟨_, rfl⟩
        · cases hr
      · rintro (e | x) p hr
        · cases hr
        · cases hr
          rfl
    · rw [if_pos hm]
      exact .reject _ (if_neg hm)
  | deriveAndEncrypt keyLabel deriveMechanism targetMechanism peerB64 dataB64 =>
    rw [execute, executeDeriveAndEncrypt]
    by_cases hm : deriveMechanism = mechEcdh1Derive ∧ targetMechanism = mechAesCbcPad
    · rw [if_neg (by simp [hm])]
      rcases hd : K.b64.decode dataB64 with _ | data
      · rw [b64_of_none hd]
        exact .reject _ (by rw [Request.hsmCall, if_pos hm, hd]; rfl)
      · rw [b64_of_some hd]
        refine .serve (.deriveAndEncrypt keyLabel (peerKey.getD []) data) _
          (by rw [Request.hsmCall, if_pos hm, hd]; rfl) ⟨fun e => ⟨_, rfl⟩, ?_, ?_⟩
        · rintro (e | x) hr
          · exact ⟨_, rfl⟩
          · cases hr
        · rintro (e | x) p hr
          · cases hr
          · cases hr
            rfl
    · rw [if_pos (not_and_or.mp hm)]
      exact .reject _ (if_neg hm)
  | deriveAndDecrypt keyLabel deriveMechanism targetMechanism peerB64 ivB64 integrityB64 dataB64 =>
    rw [execute, executeDeriveAndDecrypt]
    by_cases hm : deriveMechanism = mechEcdh1Derive ∧ targetMechanism = mechAesCbcPad
    · rw [if_neg (by simp [hm])]
      refine withIntegrity_branch rfl (if_pos hm) (fun _ _ => rfl) fun ct iv =>
        ⟨_, ⟨fun e => ⟨_, rfl⟩, ?_, ?_⟩, rfl⟩
      · rintro (e | x) hr
        · exact ⟨_, rfl⟩
        · cases hr
      · rintro (e | x) p hr
        · cases hr
        · cases hr
          rfl
    · rw [if_pos (not_and_or.mp hm)]
      exact .reject _ (if_neg hm)

variable {K g} in
/-- The branch of a request that asks for a call. -/
theorem execute_serve {req : Request} {peerKey : Option (List UInt8)} {c : HsmCall}
    (hcall : req.hsmCall K peerKey = some c) :
    ∃ f, g.Finishes K req.keyLabel c f ∧
      g.execute K req peerKey = g.behindCheck K req c (blocking c >>= f) := by
  have hb := g.execute_branch K req peerKey
  generalize g.execute K req peerKey = p at hb
  cases hb with
  | reject message hn => exact absurd (hn.symm.trans hcall) (by simp)
  | serve c' f hcall' hf =>
    obtain rfl : c = c' := Option.some_inj.mp (hcall.symm.trans hcall')
    exact ⟨f, hf, rfl⟩

/-! ### What `execute` asks of the HSM -/

/-- The HSM has encrypted for this request and returned `iv` and `ct`. -/
def Encrypted (req : Request) (peerKey : Option (List UInt8)) (h : List (Ev gwSig))
    (iv ct : List UInt8) : Prop :=
  ∃ data, (⟨.hsm (.encrypt req.keyLabel data), .ok (iv, ct)⟩ : Ev gwSig) ∈ h ∨
    (⟨.hsm (.deriveAndEncrypt req.keyLabel (peerKey.getD []) data), .ok (iv, ct)⟩ : Ev gwSig) ∈ h

/-- The integrity signature on `label`, `iv` and `ct` has been found valid. -/
def Checked (h : List (Ev gwSig)) (label : String) (iv ct : List UInt8) : Prop :=
  ∃ sig, (⟨.hsm (.verify g.integrityLabel (integrityPayload label iv ct) sig), .ok true⟩ :
    Ev gwSig) ∈ h

/-- The request carries `iv` and `ct`. -/
def Carries (req : Request) (iv ct : List UInt8) : Prop :=
  ∃ ivB64 integrityB64 dataB64, req.integrityInput = some (ivB64, integrityB64, dataB64) ∧
    K.b64.decode ivB64 = some iv ∧ K.b64.decode dataB64 = some ct

/-- The request's own operation on its own key, with what it carries. -/
def Own (req : Request) (peerKey : Option (List UInt8)) : HsmCall → Prop
  | .sign label _ => label = req.keyLabel ∧ req.operation = .sign
  | .verify label _ _ => label = req.keyLabel ∧ req.operation = .verify
  | .encrypt label _ => label = req.keyLabel ∧ req.operation = .encrypt
  | .decrypt label ct iv => label = req.keyLabel ∧ req.operation = .decrypt ∧ Carries K req iv ct
  | .deriveAndEncrypt label peer _ =>
    label = req.keyLabel ∧ req.operation = .deriveAndEncrypt ∧ peer = peerKey.getD []
  | .deriveAndDecrypt label peer ct iv =>
    label = req.keyLabel ∧ req.operation = .deriveAndDecrypt ∧ peer = peerKey.getD [] ∧
      Carries K req iv ct

/-- What may be asked for `req` when `h` is what was done so far: the request's own
operation on its own key, decryption only behind a valid integrity signature; and with
the integrity key, to sign what the HSM has just encrypted for the request, or to verify
what the request carries. -/
def Proper (req : Request) (peerKey : Option (List UInt8)) (h : List (Ev gwSig)) : GwOp → Prop
  | .append _ => False
  | .spawn => True
  | .hsm (.sign label data) =>
    (label = req.keyLabel ∧ req.operation = .sign) ∨
      (label = g.integrityLabel ∧
        ∃ iv ct, data = integrityPayload req.keyLabel iv ct ∧ Encrypted req peerKey h iv ct)
  | .hsm (.verify label data _) =>
    (label = req.keyLabel ∧ req.operation = .verify) ∨
      (label = g.integrityLabel ∧
        ∃ iv ct, data = integrityPayload req.keyLabel iv ct ∧ Carries K req iv ct)
  | .hsm (.encrypt label _) => label = req.keyLabel ∧ req.operation = .encrypt
  | .hsm (.decrypt label ct iv) =>
    label = req.keyLabel ∧ req.operation = .decrypt ∧ Carries K req iv ct ∧
      g.Checked h req.keyLabel iv ct
  | .hsm (.deriveAndEncrypt label peer _) =>
    label = req.keyLabel ∧ req.operation = .deriveAndEncrypt ∧ peer = peerKey.getD []
  | .hsm (.deriveAndDecrypt label peer ct iv) =>
    label = req.keyLabel ∧ req.operation = .deriveAndDecrypt ∧ peer = peerKey.getD [] ∧
      Carries K req iv ct ∧ g.Checked h req.keyLabel iv ct

section Proper

open Prog

variable {K g} {α : Type} {rely : List (Ev gwSig) → Ev gwSig → Prop}
  {guar : List (Ev gwSig) → GwOp → Prop} {post : List (Ev gwSig) → α → Prop}
  {h : List (Ev gwSig)}

/-- A blocking task, and going on with its result. -/
theorem safe_blocking {call : HsmCall} {f : Except String call.Ret → Prog gwSig α}
    (hs : guar h .spawn) (hc : ∀ h', h ⊆ h' → guar h' (.hsm call))
    (hok : ∀ h' r, h ⊆ h' → (⟨.hsm call, r⟩ : Ev gwSig) ∈ h' → Safe rely guar post h' (f (.ok r)))
    (herr : ∀ h' e, h ⊆ h' → Safe rely guar post h' (f (.error e))) :
    Safe rely guar post h (blocking call >>= f) := by
  refine ⟨hs, fun s _ => ?_⟩
  have h₁ : h ⊆ h ++ [⟨.spawn, s⟩] := List.subset_append_left _ _
  cases s with
  | ran =>
    refine ⟨hc _ h₁, fun r _ => hok _ r ?_ (by simp)⟩
    exact List.Subset.trans h₁ (List.subset_append_left _ _)
  | cancelled e => exact herr _ e h₁
  | panicked e =>
    refine ⟨hc _ h₁, fun r _ => herr _ e ?_⟩
    exact List.Subset.trans h₁ (List.subset_append_left _ _)

variable {req : Request} {peer : Option (List UInt8)}

theorem safe_sealResponse {iv ct : List UInt8} (he : Encrypted req peer h iv ct) :
    Safe rely (g.Proper K req peer) (fun _ _ => True) h (g.sealResponse K req.keyLabel iv ct) := by
  refine ⟨Or.inr ⟨rfl, iv, ct, rfl, he⟩, fun r _ => ?_⟩
  rcases r with e | sig <;> trivial

theorem Checked.mono {h' : List (Ev gwSig)} {label : String} {iv ct : List UInt8}
    (hc : g.Checked h label iv ct) (hs : h ⊆ h') : g.Checked h' label iv ct := by
  obtain ⟨sig, hsig⟩ := hc
  exact ⟨sig, hs hsig⟩

theorem own_of_hsmCall {c : HsmCall} (hcall : req.hsmCall K peer = some c) : Own K req peer c := by
  cases req with
  | sign keyLabel mechanism dataB64 =>
    simp only [Request.hsmCall, Option.ite_none_right_eq_some, Option.map_eq_some_iff] at hcall
    obtain ⟨-, data, -, rfl⟩ := hcall
    exact ⟨rfl, rfl⟩
  | verify keyLabel mechanism dataB64 signatureB64 =>
    simp only [Request.hsmCall, Option.ite_none_right_eq_some, Option.map_eq_some_iff,
      Option.bind_eq_some_iff] at hcall
    obtain ⟨-, data, -, sig, -, rfl⟩ := hcall
    exact ⟨rfl, rfl⟩
  | encrypt keyLabel mechanism dataB64 =>
    simp only [Request.hsmCall, Option.ite_none_right_eq_some, Option.map_eq_some_iff] at hcall
    obtain ⟨-, data, -, rfl⟩ := hcall
    exact ⟨rfl, rfl⟩
  | decrypt keyLabel mechanism dataB64 ivB64 integrityB64 =>
    simp only [Request.hsmCall, Option.ite_none_right_eq_some, Option.map_eq_some_iff,
      Option.bind_eq_some_iff] at hcall
    obtain ⟨-, ct, hct, iv, hiv, sig, -, rfl⟩ := hcall
    exact ⟨rfl, rfl, ivB64, integrityB64, dataB64, rfl, hiv, hct⟩
  | deriveAndEncrypt keyLabel deriveMechanism targetMechanism peerB64 dataB64 =>
    simp only [Request.hsmCall, Option.ite_none_right_eq_some, Option.map_eq_some_iff] at hcall
    obtain ⟨-, data, -, rfl⟩ := hcall
    exact ⟨rfl, rfl, rfl⟩
  | deriveAndDecrypt keyLabel deriveMechanism targetMechanism peerB64 ivB64 integrityB64 dataB64 =>
    simp only [Request.hsmCall, Option.ite_none_right_eq_some, Option.map_eq_some_iff,
      Option.bind_eq_some_iff] at hcall
    obtain ⟨-, ct, hct, iv, hiv, sig, -, rfl⟩ := hcall
    exact ⟨rfl, rfl, rfl, ivB64, integrityB64, dataB64, rfl, hiv, hct⟩

theorem Own.carries {c : HsmCall} (ho : Own K req peer c) {iv ct : List UInt8}
    (hc : c.ciphertext = some (iv, ct)) : Carries K req iv ct := by
  cases c with
  | decrypt label ct' iv' =>
    cases hc
    exact ho.2.2
  | deriveAndDecrypt label peer' ct' iv' =>
    cases hc
    exact ho.2.2.2
  | sign label data => cases hc
  | verify label data sig => cases hc
  | encrypt label data => cases hc
  | deriveAndEncrypt label peer' data => cases hc

/-- The request's own call is proper, once what it decrypts is checked. -/
theorem Own.proper {c : HsmCall} (ho : Own K req peer c)
    (hchk : ∀ iv ct, c.ciphertext = some (iv, ct) → g.Checked h req.keyLabel iv ct) :
    g.Proper K req peer h (.hsm c) := by
  cases c with
  | sign label data => exact Or.inl ho
  | verify label data sig => exact Or.inl ho
  | encrypt label data => exact ho
  | decrypt label ct iv => exact ⟨ho.1, ho.2.1, ho.2.2, hchk iv ct rfl⟩
  | deriveAndEncrypt label peer' data => exact ho
  | deriveAndDecrypt label peer' ct iv => exact ⟨ho.1, ho.2.1, ho.2.2.1, ho.2.2.2, hchk iv ct rfl⟩

/-- Behind the check the integrity signature is known to be valid. -/
theorem safe_behindCheck {c : HsmCall} {p : Prog gwSig Response} (ho : Own K req peer c)
    (hp : ∀ h', (∀ iv ct, c.ciphertext = some (iv, ct) → g.Checked h' req.keyLabel iv ct) →
      Safe rely (g.Proper K req peer) (fun _ _ => True) h' p) :
    Safe rely (g.Proper K req peer) (fun _ _ => True) h (g.behindCheck K req c p) := by
  rw [behindCheck]
  rcases hc : c.ciphertext with _ | ⟨iv, ct⟩
  · exact hp h fun iv ct h' => by rw [hc] at h'; cases h'
  refine ⟨Or.inr ⟨rfl, iv, ct, rfl, ho.carries hc⟩, fun r _ => ?_⟩
  rcases r with e | _ | _
  · trivial
  · trivial
  · refine hp _ fun iv' ct' h' => ?_
    rw [hc] at h'
    cases h'
    exact ⟨req.integrity K, by simp⟩

/-- After a success, only what was encrypted is sealed. -/
theorem safe_onSuccess {c : HsmCall} {r : c.Ret} {p : Prog gwSig Response} (ho : Own K req peer c)
    (hr : (⟨.hsm c, r⟩ : Ev gwSig) ∈ h) (hp : g.onSuccess K req.keyLabel c r = some p) :
    Safe rely (g.Proper K req peer) (fun _ _ => True) h p := by
  cases c with
  | encrypt label data =>
    obtain ⟨rfl, -⟩ := ho
    rcases r with e | ⟨iv, ct⟩
    · cases hp
    · cases hp
      exact safe_sealResponse ⟨data, Or.inl hr⟩
  | deriveAndEncrypt label peer' data =>
    obtain ⟨rfl, -, rfl⟩ := ho
    rcases r with e | ⟨iv, ct⟩
    · cases hp
    · cases hp
      exact safe_sealResponse ⟨data, Or.inr hr⟩
  | sign label data =>
    obtain ⟨sig, -, rfl⟩ := Option.map_eq_some_iff.mp hp
    trivial
  | verify label data sig =>
    obtain ⟨valid, -, rfl⟩ := Option.map_eq_some_iff.mp hp
    trivial
  | decrypt label ct iv =>
    obtain ⟨pt, -, rfl⟩ := Option.map_eq_some_iff.mp hp
    trivial
  | deriveAndDecrypt label peer' ct iv =>
    obtain ⟨pt, -, rfl⟩ := Option.map_eq_some_iff.mp hp
    trivial

/-- **What `execute` asks of the HSM**, whatever it answers. -/
theorem execute_proper (h : List (Ev gwSig)) :
    Safe rely (g.Proper K req peer) (fun _ _ => True) h (g.execute K req peer) := by
  have hb := g.execute_branch K req peer
  generalize g.execute K req peer = p at hb
  cases hb with
  | reject message _ => trivial
  | serve c f hcall hf =>
    have ho := own_of_hsmCall hcall
    refine safe_behindCheck ho fun h' hchk => ?_
    refine safe_blocking trivial (fun h'' hs => ho.proper fun iv ct hc => (hchk iv ct hc).mono hs)
      (fun h'' r _ hr => ?_) fun h'' e _ => ?_
    · rcases hsucc : g.onSuccess K req.keyLabel c r with _ | p
      · obtain ⟨message, hm⟩ := hf.failed r hsucc
        rw [hm]
        trivial
      · rw [hf.done r p hsucc]
        exact safe_onSuccess ho hr hsucc
    · obtain ⟨message, hm⟩ := hf.task e
      rw [hm]
      trivial

end Proper

end Gateway

end PicoHsm
