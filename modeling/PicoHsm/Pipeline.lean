/-
What handling one request line does, step by step.

* `Gateway.Run` — the five shapes a run of `process_request` can have, unfinished runs
  included: nothing yet; refused; intent not written; executing; closed;
* `processRequest_run` — every run has one of them;
* `processRequest_mediated` — every HSM call stands behind all three gates;
* `processLine_mediated` — the same over `process_line` and a loaded configuration,
  down to the PKCS#11 objects each call touches.
-/
import PicoHsm.ConfigSpec
import PicoHsm.ReferenceRequest

namespace PicoHsm

open Text Effects Prog

namespace Gateway

variable (K : Crates) (g : Gateway)

/-! ### The shape of a run -/

/-- The request is refused before its intent, for this reason. -/
def Refuses (cn : String) (req : Request) (reason : String) : Prop :=
  (g.authz.isAuthorized cn req.operation req.keyLabel = false ∧ reason = denialReason K cn req) ∨
    (g.authz.isAuthorized cn req.operation req.keyLabel = true ∧
      g.peerKey K cn req = .error reason)

/-- The request passes both gates, and its peer key is `peer`. -/
def Admits (cn : String) (req : Request) (peer : Option (List UInt8)) : Prop :=
  g.authz.isAuthorized cn req.operation req.keyLabel = true ∧ g.peerKey K cn req = .ok peer

/-- The audit intent of the request has been written. -/
def intentOk (cn : String) (req : Request) : Ev gwSig :=
  ⟨.append (entryFor cn req .intent ""), .ok ()⟩

/-- The runs of `process_request`: what was done, and the response if it is there. -/
inductive Run (cn : String) (req : Request) : List (Ev gwSig) → Option Response → Prop where
  | start : Run cn req [] none
  | refused (reason : String) (r : Except String Unit) : g.Refuses K cn req reason →
      Run cn req [⟨.append (entryFor cn req .denied reason), r⟩] (some (denied reason))
  | noIntent (peer : Option (List UInt8)) (e : String) : g.Admits K cn req peer →
      Run cn req [⟨.append (entryFor cn req .intent ""), .error e⟩]
        (some (err ("audit log unavailable, request rejected: " ++ e)))
  | executing (peer : Option (List UInt8)) (u : List (Ev gwSig)) (p : Prog gwSig Response) :
      g.Admits K cn req peer → Steps (g.execute K req peer) u p →
      Run cn req (intentOk cn req :: u) none
  | closed (peer : Option (List UInt8)) (u : List (Ev gwSig)) (result : Response)
      (r : Except String Unit) :
      g.Admits K cn req peer → Steps (g.execute K req peer) u (.ret result) →
      Run cn req (intentOk cn req :: (u ++ [⟨.append (closing cn req result), r⟩]))
        (some result)

variable {K g} {cn : String} {req : Request}

theorem steps_refuse {reason : String} {t : List (Ev gwSig)} {p : Prog gwSig Response}
    (hr : g.Refuses K cn req reason) (h : Steps (refuse cn req reason) t p) :
    ∃ o, g.Run K cn req t o ∧ ∀ resp, p = .ret resp → o = some resp := by
  cases h with
  | refl => exact ⟨none, .start, fun _ hp => by cases hp⟩
  | @call _ _ r _ _ h =>
    cases h
    exact ⟨_, .refused reason r hr, fun _ hp => by cases hp; rfl⟩

theorem steps_audited {peer : Option (List UInt8)} {t : List (Ev gwSig)}
    {p : Prog gwSig Response} (ha : g.Admits K cn req peer)
    (h : Steps (g.audited K cn req peer) t p) :
    ∃ o, g.Run K cn req t o ∧ ∀ resp, p = .ret resp → o = some resp := by
  cases h with
  | refl => exact ⟨none, .start, fun _ hp => by cases hp⟩
  | @call _ _ r u _ h =>
    rcases r with e | ⟨⟩
    · cases h
      exact ⟨_, .noIntent peer e ha, fun _ hp => by cases hp; rfl⟩
    -- the run stops inside `execute`, or at the closing append, or behind it
    rcases Steps.bind_cases h with ⟨q, hq, rfl⟩ | ⟨t₁, t₂, result, rfl, h₁, h₂⟩
    · refine ⟨none, .executing peer u q ha hq, fun resp hp => ?_⟩
      cases q <;> cases hp
    · cases h₂ with
      | refl =>
        refine ⟨none, ?_, fun _ hp => by cases hp⟩
        rw [List.append_nil]
        exact .executing peer t₁ _ ha h₁
      | @call _ _ r _ _ h₂ =>
        cases h₂
        exact ⟨_, .closed peer t₁ result r ha h₁, fun _ hp => by cases hp; rfl⟩

/-- **The shape of a run**, finished or not. -/
theorem processRequest_run {t : List (Ev gwSig)} {p : Prog gwSig Response}
    (h : Steps (g.processRequest K cn req) t p) :
    ∃ o, g.Run K cn req t o ∧ ∀ resp, p = .ret resp → o = some resp := by
  rw [processRequest] at h
  by_cases ha : g.authz.isAuthorized cn req.operation req.keyLabel = false
  · rw [if_pos ha] at h
    exact steps_refuse (Or.inl ⟨ha, rfl⟩) h
  · rw [if_neg ha] at h
    rw [Bool.not_eq_false] at ha
    rcases hp : g.peerKey K cn req with reason | peer
    · rw [hp] at h
      exact steps_refuse (Or.inr ⟨ha, hp⟩) h
    · rw [hp] at h
      exact steps_audited ⟨ha, hp⟩ h

/-- A line whose answer is no error is a request that was refused, or executed. -/
theorem processLine_answered {parse : String → Except String Request} {line : String}
    {t : List (Ev gwSig)} {resp : Response}
    (h : Steps (g.processLine K parse cn line) t (.ret resp)) (hne : resp.status ≠ .error) :
    ∃ req, parse line = .ok req ∧
      ((resp.status = .denied ∧ ∃ reason, g.Refuses K cn req reason) ∨
        ∃ peer u, g.Admits K cn req peer ∧ Steps (g.execute K req peer) u (.ret resp) ∧ u ⊆ t) := by
  rw [processLine] at h
  rcases hreq : parse line with e | req
  · rw [hreq] at h
    cases h
    exact absurd rfl hne
  rw [hreq] at h
  refine ⟨req, rfl, ?_⟩
  obtain ⟨o, hrun, ho⟩ := processRequest_run h
  obtain rfl := ho resp rfl
  cases hrun with
  | refused reason r hr => exact Or.inl ⟨rfl, reason, hr⟩
  | noIntent peer e ha => exact absurd rfl hne
  | closed peer u _ r ha hexec =>
    refine Or.inr ⟨peer, u, ha, hexec, fun ev hev => ?_⟩
    exact List.mem_cons_of_mem _ (List.mem_append_left _ hev)

/-- A request whose gates are open runs to its closing entry, as `execute` does. -/
theorem Admits.steps {peer : Option (List UInt8)} (h : g.Admits K cn req peer)
    {u : List (Ev gwSig)} {result : Response} (hu : Steps (g.execute K req peer) u (.ret result))
    (r : Except String Unit) :
    Steps (g.processRequest K cn req)
      (intentOk cn req :: (u ++ [⟨.append (closing cn req result), r⟩])) (.ret result) := by
  rw [processRequest, if_neg (by rw [h.1]; simp), h.2]
  refine .call (Steps.bind hu ?_)
  exact .call (.refl _)

/-! ### Two ways through a decryption -/

/-- The integrity signature is found valid and the call succeeds. -/
theorem execute_steps_ok {peer : Option (List UInt8)} {c : HsmCall} {iv ct : List UInt8}
    {r : c.Ret} {resp : Response}
    (hcall : req.hsmCall K peer = some c) (hct : c.ciphertext = some (iv, ct))
    (hr : g.onSuccess K req.keyLabel c r = some (.ret resp)) :
    Steps (g.execute K req peer)
      [⟨.hsm (.verify g.integrityLabel (integrityPayload req.keyLabel iv ct) (req.integrity K)),
        .ok true⟩, ⟨.spawn, .ran⟩, ⟨.hsm c, r⟩] (.ret resp) := by
  obtain ⟨f, hf, hexec⟩ := execute_serve hcall
  rw [hexec, behindCheck, hct]
  refine .call (.call (.call ?_))
  show Steps (f (.ok r)) [] (.ret resp)
  rw [hf.done r _ hr]
  exact .refl _

/-- The HSM fails to verify the integrity signature. -/
theorem execute_steps_denied {peer : Option (List UInt8)} {c : HsmCall} {iv ct : List UInt8}
    (hcall : req.hsmCall K peer = some c) (hct : c.ciphertext = some (iv, ct)) (e : String) :
    Steps (g.execute K req peer)
      [⟨.hsm (.verify g.integrityLabel (integrityPayload req.keyLabel iv ct) (req.integrity K)),
        .error e⟩] (.ret (denied "integrity check failed, ciphertext rejected")) := by
  obtain ⟨f, -, hexec⟩ := execute_serve hcall
  rw [hexec, behindCheck, hct]
  exact .call (.refl _)

/-! ### Mediation -/

variable (K g) in
/-- An HSM call is made only for an admitted request, behind its intent, and is one
that `execute` may make. -/
def Mediated (cn : String) (req : Request) (h : List (Ev gwSig)) : GwOp → Prop
  | .hsm c => ∃ peer, g.Admits K cn req peer ∧ intentOk cn req ∈ h ∧
      g.Proper K req peer h (.hsm c)
  | _ => True

theorem processRequest_mediated (h : List (Ev gwSig)) :
    Safe (fun _ _ => True) (g.Mediated K cn req) (fun _ _ => True) h
      (g.processRequest K cn req) := by
  rw [processRequest]
  by_cases ha : g.authz.isAuthorized cn req.operation req.keyLabel = false
  · rw [if_pos ha]
    exact ⟨trivial, fun _ _ => trivial⟩
  rw [if_neg ha]
  rw [Bool.not_eq_false] at ha
  rcases hp : g.peerKey K cn req with reason | peer
  · exact ⟨trivial, fun _ _ => trivial⟩
  refine ⟨trivial, fun r _ => ?_⟩
  rcases r with e | ⟨⟩
  · trivial
  dsimp only
  rw [safe_bind]
  -- the intent is in the history, and stays there
  have hmem : intentOk cn req ∈ h ++ [intentOk cn req] := by simp
  refine (safe_keep hmem (execute_proper _)).mono (fun _ _ hr => hr) ?_
    fun _ _ _ => ⟨trivial, fun _ _ => trivial⟩
  rintro h' (a | _ | c) ⟨hin, hpr⟩
  · trivial
  · trivial
  · exact ⟨peer, ⟨ha, hp⟩, hin, hpr⟩

variable (K g) in
/-- The same over a line, which is then a request. -/
def LineMediated (parse : String → Except String Request) (cn line : String)
    (h : List (Ev gwSig)) : GwOp → Prop
  | .hsm c => ∃ req, parse line = .ok req ∧ g.Mediated K cn req h (.hsm c)
  | _ => True

theorem processLine_lineMediated (parse : String → Except String Request) (cn line : String)
    (h : List (Ev gwSig)) :
    Safe (fun _ _ => True) (g.LineMediated K parse cn line) (fun _ _ => True) h
      (g.processLine K parse cn line) := by
  rw [processLine]
  rcases hreq : parse line with e | req
  · trivial
  · refine (processRequest_mediated h).mono (fun _ _ hr => hr) ?_ fun _ _ _ => trivial
    rintro h' (a | _ | c) hm
    · trivial
    · trivial
    · exact ⟨req, hreq, hm⟩

/-- The peer key of an admitted derive request is allowlisted, and is what the request
carries. -/
theorem Admits.peer_eq {peer : Option (List UInt8)} (h : g.Admits K cn req peer)
    (hd : req.operation.isDerive = true) :
    ∃ peerB64 bytes set, req.peerPublicKeyB64 = some peerB64 ∧ peer = some bytes ∧
      K.b64.decode peerB64 = some bytes ∧
      g.authz.peerKeys.lookup (cn, req.operation, req.keyLabel) = some set ∧ peerB64 ∈ set := by
  obtain ⟨-, hp⟩ := h
  rw [← req.peerPublicKeyB64_isSome] at hd
  obtain ⟨peerB64, hreq⟩ := Option.isSome_iff_exists.mp hd
  rw [peerKey, hreq] at hp
  dsimp only at hp
  rcases hdec : K.b64.decode peerB64 with _ | bytes
  · rw [hdec] at hp
    exact absurd hp (by simp)
  · rw [hdec] at hp
    dsimp only at hp
    split at hp
    · exact absurd hp (by simp)
    · rename_i hauth
      rw [Bool.not_eq_false] at hauth
      obtain ⟨set, hset, hmem⟩ := AuthzTable.isPeerKeyAuthorized_iff.mp hauth
      exact ⟨peerB64, bytes, set, hreq, by simpa using hp.symm, hdec, hset, hmem⟩

end Gateway

/-- The class of key object an operation works on. -/
def Operation.objectClass : Operation → ObjectClass
  | .sign => .privateKey
  | .verify => .publicKey
  | .encrypt => .secretKey
  | .decrypt => .secretKey
  | .deriveAndEncrypt => .privateKey
  | .deriveAndDecrypt => .privateKey

namespace HsmCall

/-- The operation a call performs. -/
def operation : HsmCall → Operation
  | .sign _ _ => .sign
  | .verify _ _ _ => .verify
  | .encrypt _ _ => .encrypt
  | .decrypt _ _ _ => .decrypt
  | .deriveAndEncrypt _ _ _ => .deriveAndEncrypt
  | .deriveAndDecrypt _ _ _ _ => .deriveAndDecrypt

/-- The peer key of a derive call. -/
def peer : HsmCall → Option (List UInt8)
  | .deriveAndEncrypt _ peer _ => some peer
  | .deriveAndDecrypt _ peer _ _ => some peer
  | _ => none

theorem objectClass_eq (c : HsmCall) : c.objectClass = c.operation.objectClass := by
  cases c <;> rfl

end HsmCall

namespace Gateway

variable (K : Crates) (g : Gateway)

/-- An HSM call that all gates have let through; `h` is what was done before it. -/
structure Clears (cn : String) (req : Request) (h : List (Ev gwSig)) (c : HsmCall) : Prop where
  granted : (cn, req.operation, req.keyLabel) ∈ g.authz.grants
  intent : (⟨.append ⟨cn, opName req.operation, req.keyLabel, .intent, ""⟩, .ok ()⟩ : Ev gwSig) ∈ h
  /-- The request's own operation on its own key; or the integrity key, to sign what the
  HSM encrypted for this request or to verify what the request carries. -/
  key : (c.label = req.keyLabel ∧ c.operation = req.operation ∧ c.label ≠ g.integrityLabel) ∨
    (∃ iv ct, c = .sign g.integrityLabel (integrityPayload req.keyLabel iv ct) ∧
      ∃ peer, Encrypted req peer h iv ct) ∨
    ∃ iv ct sig, c = .verify g.integrityLabel (integrityPayload req.keyLabel iv ct) sig ∧
      Carries K req iv ct
  /-- On the token, the call looks up that key under the class proper to its operation,
  and uses nothing else. -/
  token : c.objectClass = c.operation.objectClass ∧ ∀ u p, Steps (g.hsm.perform K c) u p →
    ∀ u₁ ev u₂, u = u₁ ++ ev :: u₂ → c.Keeps u₁ ev.op
  peer : ∀ peer, c.peer = some peer → ∃ set peerB64,
    g.authz.peerKeys.lookup (cn, req.operation, req.keyLabel) = some set ∧ peerB64 ∈ set ∧
    K.b64.decode peerB64 = some peer ∧ peer ≠ []

variable {K g} {cn : String} {req : Request}

theorem Mediated.clears (hB : K.b64.Lawful) (hinv : AuthzTable.Inv K g.integrityLabel g.authz)
    {h : List (Ev gwSig)} {c : HsmCall} (hm : g.Mediated K cn req h (.hsm c)) :
    g.Clears K cn req h c := by
  obtain ⟨peer, hadm, hint, hpr⟩ := hm
  have hgrant := AuthzTable.isAuthorized_iff.mp hadm.1
  have hne : req.keyLabel ≠ g.integrityLabel := hinv.label_ne _ hgrant
  have htok : ∀ u p, Steps (g.hsm.perform K c) u p → ∀ u₁ ev u₂, u = u₁ ++ ev :: u₂ →
      c.Keeps u₁ ev.op := by
    intro u p hu u₁ ev u₂ heq
    have := (HsmClient.perform_keeps K g.hsm c []).guar_of_steps hu (fun _ _ _ _ => trivial) heq
    simpa using this
  -- the peer key handed to a derive call comes from the allowlist
  have hpeer : req.operation.isDerive = true → ∀ bs, peer.getD [] = bs → ∃ set peerB64,
      g.authz.peerKeys.lookup (cn, req.operation, req.keyLabel) = some set ∧ peerB64 ∈ set ∧
      K.b64.decode peerB64 = some bs ∧ bs ≠ [] := by
    rintro hd bs rfl
    obtain ⟨peerB64, bytes, set, -, rfl, hdec, hset, hmem⟩ := hadm.peer_eq hd
    exact ⟨set, peerB64, hset, hmem, hdec,
      hB.decode_ne_nil hdec (hinv.peer_ok _ set hset peerB64 hmem).1⟩
  refine ⟨hgrant, hint, ?_, ⟨c.objectClass_eq, htok⟩, ?_⟩
  · cases c with
    | sign label data =>
      rcases hpr with ⟨rfl, hop⟩ | ⟨rfl, iv, ct, rfl, henc⟩
      · exact Or.inl ⟨rfl, hop.symm, hne⟩
      · exact Or.inr (Or.inl ⟨iv, ct, rfl, peer, henc⟩)
    | verify label data sig =>
      rcases hpr with ⟨rfl, hop⟩ | ⟨rfl, iv, ct, rfl, hcar⟩
      · exact Or.inl ⟨rfl, hop.symm, hne⟩
      · exact Or.inr (Or.inr ⟨iv, ct, sig, rfl, hcar⟩)
    | encrypt label data => exact Or.inl ⟨hpr.1, hpr.2.symm, hpr.1 ▸ hne⟩
    | decrypt label ct iv => exact Or.inl ⟨hpr.1, hpr.2.1.symm, hpr.1 ▸ hne⟩
    | deriveAndEncrypt label bs data => exact Or.inl ⟨hpr.1, hpr.2.1.symm, hpr.1 ▸ hne⟩
    | deriveAndDecrypt label bs ct iv => exact Or.inl ⟨hpr.1, hpr.2.1.symm, hpr.1 ▸ hne⟩
  · intro bs hbs
    cases c with
    | deriveAndEncrypt label peer' data =>
      obtain ⟨-, hop, rfl⟩ := hpr
      exact hpeer (by rw [hop]; rfl) bs (Option.some_inj.mp hbs)
    | deriveAndDecrypt label peer' ct iv =>
      obtain ⟨-, hop, rfl, -⟩ := hpr
      exact hpeer (by rw [hop]; rfl) bs (Option.some_inj.mp hbs)
    | sign label data => cases hbs
    | verify label data sig => cases hbs
    | encrypt label data => cases hbs
    | decrypt label ct iv => cases hbs

theorem hsm_notMem_append {a : AppendArgs} {x : Except String Unit} (c : HsmCall) (r : c.Ret) :
    (⟨.hsm c, r⟩ : Ev gwSig) ∉ [(⟨.append a, x⟩ : Ev gwSig)] := by
  intro h
  cases List.mem_singleton.mp h

variable (g) in
/-- The line is a request the table grants, its peer key (if it has one) is on the
allowlist, and its intent was written. -/
def Passes (parse : String → Except String Request) (cn line : String) (t : List (Ev gwSig)) :
    Prop :=
  ∃ req, parse line = .ok req ∧ (cn, req.operation, req.keyLabel) ∈ g.authz.grants ∧
    (∀ peerB64, req.peerPublicKeyB64 = some peerB64 → ∃ set,
      g.authz.peerKeys.lookup (cn, req.operation, req.keyLabel) = some set ∧ peerB64 ∈ set) ∧
    (⟨.append ⟨cn, opName req.operation, req.keyLabel, .intent, ""⟩, .ok ()⟩ : Ev gwSig) ∈ t

theorem Admits.passes {parse : String → Except String Request} {line : String}
    {peer : Option (List UInt8)} {t : List (Ev gwSig)} (hreq : parse line = .ok req)
    (h : g.Admits K cn req peer) (hint : intentOk cn req ∈ t) : g.Passes parse cn line t := by
  refine ⟨req, hreq, AuthzTable.isAuthorized_iff.mp h.1, ?_, hint⟩
  intro peerB64 hb
  have hd : req.operation.isDerive = true := by rw [← req.peerPublicKeyB64_isSome, hb]; rfl
  obtain ⟨peerB64', bytes, set, hb', -, -, hset, hmem⟩ := h.peer_eq hd
  rw [hb, Option.some_inj] at hb'
  exact ⟨set, hset, hb' ▸ hmem⟩

/-- **Complete mediation.**  Under a loaded configuration, whatever the audit appends and
the HSM answer, every HSM call made while a line is handled has been let through by all
gates (`Clears`).  If the line does not pass them, no HSM call is made, and the response
is `denied` or `error`. -/
theorem processLine_mediated (hB : K.b64.Lawful) {cfg : FileConfig}
    (hcfg : AuthzTable.fromConfig K cfg g.integrityLabel = .ok g.authz)
    (parse : String → Except String Request) (cn line : String) {t : List (Ev gwSig)}
    {p : Prog gwSig Response} (h : Steps (g.processLine K parse cn line) t p) :
    (∀ t₁ c r t₂, t = t₁ ++ (⟨.hsm c, r⟩ : Ev gwSig) :: t₂ →
      ∃ req, parse line = .ok req ∧ g.Clears K cn req t₁ c) ∧
    (¬ g.Passes parse cn line t → (∀ c r, (⟨.hsm c, r⟩ : Ev gwSig) ∉ t) ∧
      ∀ resp, p = .ret resp → resp.status = .denied ∨ resp.status = .error) := by
  constructor
  · intro t₁ c r t₂ heq
    have hm := (processLine_lineMediated parse cn line []).guar_of_steps h
      (fun _ _ _ _ => trivial) heq
    rw [List.nil_append] at hm
    obtain ⟨req, hreq, hm⟩ := hm
    exact ⟨req, hreq, Mediated.clears hB (AuthzTable.fromConfig_inv hcfg) hm⟩
  · intro hnp
    rw [processLine] at h
    rcases hreq : parse line with e | req
    · -- not a request: nothing is done
      rw [hreq] at h
      cases h
      refine ⟨by simp, fun resp hp => Or.inr ?_⟩
      cases hp
      rfl
    rw [hreq] at h
    obtain ⟨o, hrun, ho⟩ := processRequest_run h
    cases hrun with
    | start => exact ⟨by simp, fun resp hp => absurd (ho resp hp) (by simp)⟩
    | refused reason r hr =>
      refine ⟨hsm_notMem_append, fun resp hp => Or.inl ?_⟩
      rw [← Option.some_inj.mp (ho resp hp)]
      rfl
    | noIntent peer e ha =>
      refine ⟨hsm_notMem_append, fun resp hp => Or.inr ?_⟩
      rw [← Option.some_inj.mp (ho resp hp)]
      rfl
    | executing peer u q ha hu => exact absurd (ha.passes hreq (by simp)) hnp
    | closed peer u result r ha hu => exact absurd (ha.passes hreq (by simp)) hnp

/-- A request of `app-a` that derives with its peer key. -/
def deriveLine : String :=
  Ref.requestText (.deriveAndEncrypt "k1" "ecdh1_derive" "aes_cbc_pad" "cGVlci1h" "aGVsbG8=")

theorem processLine_mediated_deriveLine :
    ∃ req, Ref.parseRequest deriveLine = .ok req ∧ Ref.gateway.Clears Ref.crates "app-a" req
      [⟨.append ⟨"app-a", "derive_and_encrypt", "k1", .intent, ""⟩, .ok ()⟩, ⟨.spawn, .ran⟩]
      (.deriveAndEncrypt "k1" (utf8 "peer-a") (utf8 "hello")) := by
  refine (processLine_mediated Ref.base64_lawful Ref.gateway_loaded Ref.parseRequest "app-a"
    deriveLine (steps_exec Ref.obliging _)).1 _ _ (.ok (List.replicate 16 7, [9, 9]))
    (((Ref.gateway.processLine Ref.crates Ref.parseRequest "app-a" deriveLine).exec
      Ref.obliging).1.drop 3) ?_
  rw [deriveLine, processLine_of_parse (Ref.parseRequest_requestText _)]
  rfl

end Gateway

end PicoHsm
