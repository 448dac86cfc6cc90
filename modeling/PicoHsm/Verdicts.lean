/-
The answer to a verify request.

`C_Verify` has two codes for an invalid signature: `CKR_SIGNATURE_LEN_RANGE` for one that
is invalid by its length alone, and `CKR_SIGNATURE_INVALID` for any other.  The client
takes the second for a verdict and the first for an error.

* `verifyAnswered_iff` — without failures, the verdict of the token is the answer, and
  there is no other;
* `verify_verdict_iff` — so the answer says whether the signature is valid exactly when
  the signature is not invalid by its length alone; what was signed through the gateway
  is always found valid.
-/
import PicoHsm.RoundTrip

namespace PicoHsm

open Text Effects Prog

/-! ### The codes of `C_Verify` -/

namespace Token

variable {Key : Type} (T : Token Key)

/-- What `C_Verify` returns, `valid` being the valid signatures under a key and
`badLength` the lengths that no signature under it has. -/
structure VerifyCodes (valid : Key → List UInt8 → List UInt8 → Bool)
    (badLength : Key → Nat → Bool) : Prop where
  length_of_valid : ∀ key data sig, valid key data sig = true → badLength key sig.length = false
  ok : ∀ key data sig, valid key data sig = true → T.verify key data sig = .ok ()
  lenRange : ∀ key data sig, badLength key sig.length = true →
    ∃ text, T.verify key data sig = .error (.pkcs11 .signatureLenRange text)
  invalid : ∀ key data sig, valid key data sig = false → badLength key sig.length = false →
    ∃ text, T.verify key data sig = .error (.pkcs11 .signatureInvalid text)

variable {T} {valid : Key → List UInt8 → List UInt8 → Bool} {badLength : Key → Nat → Bool}

/-- The client makes a verdict of the codes, unless it is the length. -/
theorem VerifyCodes.verdict_eq (hT : T.VerifyCodes valid badLength) (key : Key)
    (data sig : List UInt8) :
    T.verdict key data sig =
      if badLength key sig.length = true then none else some (valid key data sig) := by
  by_cases hlen : badLength key sig.length = true
  · obtain ⟨text, hv⟩ := hT.lenRange key data sig hlen
    rw [if_pos hlen, verdict, hv]
  · rw [if_neg hlen]
    rw [Bool.not_eq_true] at hlen
    rcases hval : valid key data sig with _ | _
    · obtain ⟨text, hv⟩ := hT.invalid key data sig hval hlen
      rw [verdict, hv]
    · rw [verdict, hT.ok key data sig hval]

end Token

/-! ### Runs without failures -/

section Runs

variable {Key : Type} (T : Token Key) {K : Crates} {g : Gateway} {α : Type}

/-- Every operation of a request can be answered without failure. -/
theorem noFailure_serveLow (p : Prog lowSig α) :
    ∀ ev ∈ (p.exec (T.serveLow fun _ => .ok ())).1, NoFailure T ev := by
  intro ev hev
  have hret := ret_of_mem_exec hev
  obtain ⟨e, r⟩ := ev
  obtain rfl : r = T.serveLow (fun _ => .ok ()) e := hret
  cases e with
  | append a => exact fun _ => rfl
  | spawn => rfl
  | p11 op => exact T.good_serve op

variable {T} in
theorem soundRun_of_noFailure {t : List (Ev lowSig)} (h : ∀ ev ∈ t, NoFailure T ev) :
    SoundRun T (fun _ _ _ _ => True) (fun _ _ _ => True) t :=
  .of_forall fun ev hev _ hx =>
    ((h ev hev).good hx).sound (fun _ _ _ _ _ _ => trivial) fun _ _ _ _ _ _ => trivial

variable (K g) in
/-- Without failures, the line is answered, and always with this verdict. -/
def VerifyAnswered (parse : String → Except String Request) (cn line : String)
    (verified : Bool) : Prop :=
  (∃ t resp, Steps (g.processLineP11 K parse cn line) t (.ret resp) ∧ ∀ ev ∈ t, NoFailure T ev) ∧
  ∀ t resp, Steps (g.processLineP11 K parse cn line) t (.ret resp) → (∀ ev ∈ t, NoFailure T ev) →
    resp = .ok none (some verified) none none

/-- The answer, as the token's verdict has it. -/
structure Follows (verdict : Option Bool) (resp : Response) : Prop where
  ofSome : ∀ b, verdict = some b → resp = .ok none (some b) none none
  ofNone : verdict = none → resp.status = .error

theorem Follows.ofError {verdict : Option Bool} {resp : Response} (hv : verdict = none)
    (hresp : resp.status = .error) : Follows verdict resp := by
  subst hv
  exact ⟨fun _ hb => absurd hb (by simp), fun _ => hresp⟩

theorem Follows.ofVerdict {verdict : Option Bool} {resp : Response} {b : Bool}
    (hv : verdict = some b) (hresp : resp = .ok none (some b) none none) :
    Follows verdict resp := by
  subst hv
  refine ⟨fun b' hb => ?_, fun hn => absurd hn (by simp)⟩
  rw [hresp, Option.some_inj.mp hb]

variable {T} {cn line label dataB64 sigB64 : String} {data sig : List UInt8}
  {parse : String → Except String Request}

/-- The call of a verify request whose fields decode. -/
theorem hsmCall_verify (hdata : K.b64.decode dataB64 = some data)
    (hsig : K.b64.decode sigB64 = some sig) :
    (Request.verify label mechEcdsaSha256 dataB64 sigB64).hsmCall K none =
      some (.verify label data sig) := by
  rw [Request.hsmCall, if_pos rfl, hdata, Option.bind_some, hsig, Option.map_some]

/-- **The answer to an authorized verify request**, if nothing fails. -/
theorem processRequest_verify (hauth : g.authz.isAuthorized cn .verify label = true)
    (hdata : K.b64.decode dataB64 = some data) (hsig : K.b64.decode sigB64 = some sig)
    (h : List (Ev gwSig)) :
    Safe (fun _ ev => Clean T (fun _ _ _ _ => True) (fun _ _ _ => True) ev) (fun _ _ => True)
      (fun _ resp => Follows (T.expected (.verify label data sig)) resp) h
      (g.processRequest K cn (.verify label mechEcdsaSha256 dataB64 sigB64)) := by
  have hpeer : g.peerKey K cn (.verify label mechEcdsaSha256 dataB64 sigB64) = .ok none := rfl
  rw [Gateway.processRequest, if_neg (by
    show ¬ g.authz.isAuthorized cn .verify label = false
    rw [hauth]
    simp), hpeer]
  refine ⟨trivial, fun r hr => ?_⟩
  obtain rfl : r = .ok () := hr rfl
  have hcall := @hsmCall_verify K label dataB64 sigB64 data sig hdata hsig
  obtain ⟨f, hf, hexec⟩ := Gateway.execute_serve (g := g) hcall
  dsimp only
  rw [safe_bind, hexec]
  refine ⟨trivial, fun s hs => ?_⟩
  obtain rfl : s = Spawn.ran := hs
  refine ⟨trivial, fun r hr => ?_⟩
  show Safe _ _ _ _ (f (.ok r))
  rw [← hr.2]
  -- an error of the client is one of the gateway, a verdict is passed on
  rcases r with e | b
  · obtain ⟨message, hm⟩ := hf.failed (.error e) rfl
    rw [hm]
    exact ⟨trivial, fun _ _ => .ofError rfl rfl⟩
  · rw [hf.done (.ok b) _ rfl]
    exact ⟨trivial, fun _ _ => .ofVerdict rfl rfl⟩

/-- **The verdict of the token is the answer**, and there is no other. -/
theorem verifyAnswered_iff (hreq : parse line = .ok (.verify label mechEcdsaSha256 dataB64 sigB64))
    (hauth : g.authz.isAuthorized cn .verify label = true)
    (hdata : K.b64.decode dataB64 = some data) (hsig : K.b64.decode sigB64 = some sig) (b : Bool) :
    VerifyAnswered T K g parse cn line b ↔ T.expected (.verify label data sig) = some b := by
  have hall : ∀ t resp, Steps (g.processLineP11 K parse cn line) t (.ret resp) →
      (∀ ev ∈ t, NoFailure T ev) → Follows (T.expected (.verify label data sig)) resp := by
    intro t resp ht hnf
    obtain ⟨u, hu, hev⟩ := ht.of_interp
    rw [Gateway.processLine_of_parse hreq] at hu
    refine (processRequest_verify hauth hdata hsig []).post_of_steps hu fun u₁ ev u₂ heq => ?_
    obtain ⟨t', ht', hsub⟩ := hev ev (by simp [heq])
    have hnf' : ∀ ev' ∈ t', NoFailure T ev' := fun ev' h' => hnf ev' (hsub.subset h')
    exact clean_of_steps ht' (soundRun_of_noFailure hnf') (.of_forall hnf')
  have hrun := steps_exec (T.serveLow fun _ => .ok ()) (g.processLineP11 K parse cn line)
  have hnf := noFailure_serveLow T (g.processLineP11 K parse cn line)
  constructor
  · rintro ⟨-, hans⟩
    -- the run without failures shows what the token's verdict is
    have hresp := hans _ _ hrun hnf
    have hfol := hall _ _ hrun hnf
    rw [hresp] at hfol
    rcases hexp : T.expected (.verify label data sig) with _ | b'
    · exact absurd (hfol.ofNone hexp) (by simp [Response.status])
    · have := hfol.ofSome b' hexp
      simp only [Response.ok.injEq, true_and, and_true] at this
      exact this.symm
  · intro hexp
    exact ⟨⟨_, _, hrun, hnf⟩, fun t resp ht hnf' => (hall t resp ht hnf').ofSome b hexp⟩

/-! ### Signatures made through the gateway -/

/-- A sign request answered `ok` returns what the HSM has signed for it. -/
theorem execute_signed {mech : String} {peer : Option (List UInt8)}
    (hdata : K.b64.decode dataB64 = some data) (h : List (Ev gwSig)) :
    Safe (fun _ _ => True) (fun _ _ => True)
      (fun h resp => resp.status = .ok → ∃ sig,
        (⟨.hsm (.sign label data), .ok sig⟩ : Ev gwSig) ∈ h ∧ resp = okResult (K.b64.encode sig)) h
      (g.execute K (.sign label mech dataB64) peer) := by
  have hb := g.execute_branch K (.sign label mech dataB64) peer
  generalize g.execute K (.sign label mech dataB64) peer = p at hb
  cases hb with
  | reject message _ => exact fun hok => Response.Status.noConfusion hok
  | serve c f hcall hf =>
    simp only [Request.hsmCall, Option.ite_none_right_eq_some, hdata, Option.map_some,
      Option.some.injEq] at hcall
    obtain ⟨-, rfl⟩ := hcall
    refine Gateway.safe_blocking trivial (fun _ _ => trivial) (fun h' r _ hr => ?_) fun h' e _ => ?_
    · rcases r with e | sig
      · obtain ⟨message, hm⟩ := hf.failed (.error e) rfl
        rw [hm]
        exact fun hok => Response.Status.noConfusion hok
      · rw [hf.done (.ok sig) _ rfl]
        exact fun _ => ⟨sig, hr, rfl⟩
    · obtain ⟨message, hm⟩ := hf.task e
      rw [hm]
      exact fun hok => Response.Status.noConfusion hok

variable {E : Key → Mechanism → List UInt8 → List UInt8 → Prop}
  {G : Key → List UInt8 → List UInt8 → Prop}

theorem signed_of_steps {mech : String} (hreq : parse line = .ok (.sign label mech dataB64))
    (hdata : K.b64.decode dataB64 = some data) {t : List (Ev lowSig)} {resp : Response}
    (ht : Steps (g.processLineP11 K parse cn line) t (.ret resp)) (hs : SoundRun T E G t)
    (hok : resp.status = .ok) :
    ∃ key sig, T.keyOf label .privateKey = some key ∧ G key data sig ∧
      resp = okResult (K.b64.encode sig) := by
  obtain ⟨u, hu, hres⟩ := results_of_steps ht hs
  obtain ⟨req, hreq', hr | ⟨peer, u', -, hexec, hsub⟩⟩ := Gateway.processLine_answered hu
    (by rw [hok]; exact Response.Status.noConfusion)
  · exact absurd (hok.symm.trans hr.1) (by simp)
  obtain rfl := Except.ok.inj (hreq.symm.trans hreq')
  have hpost := (execute_signed hdata []).post_of_steps hexec fun _ _ _ _ => trivial
  obtain ⟨sig, hmem, hresp⟩ := hpost hok
  obtain ⟨key, hkey, hsig⟩ := hres _ _ (hsub hmem) sig rfl
  exact ⟨key, sig, hkey, hsig, hresp⟩

/-! ### Validity -/

variable {valid : Key → List UInt8 → List UInt8 → Bool} {badLength : Key → Nat → Bool} {key : Key}

/-- **What the answer to a verify request says.**  Without failures, an authorized request
with a key that is there once is answered `ok` and `verified` is whether the signature is
valid, exactly if the signature is not invalid by its length alone.  It is found valid if
a sign request on the same label and data has returned it, from the private key of the
pair, whatever else may have failed there. -/
theorem verify_verdict_iff (hB : K.b64.Lawful) (hT : T.VerifyCodes valid badLength)
    (hreq : parse line = .ok (.verify label mechEcdsaSha256 dataB64 sigB64))
    (hauth : g.authz.isAuthorized cn .verify label = true)
    (hdata : K.b64.decode dataB64 = some data) (hsig : K.b64.decode sigB64 = some sig)
    (hkey : T.keyOf label .publicKey = some key) :
    (VerifyAnswered T K g parse cn line (valid key data sig) ↔ badLength key sig.length = false) ∧
    ∀ (E : Key → Mechanism → List UInt8 → List UInt8 → Prop)
      (G : Key → List UInt8 → List UInt8 → Prop),
      (∀ priv sig, T.keyOf label .privateKey = some priv → G priv data sig →
        valid key data sig = true) →
      ∀ cn' line' mech dataB64' t, parse line' = .ok (.sign label mech dataB64') →
        K.b64.decode dataB64' = some data →
        Steps (g.processLineP11 K parse cn' line') t (.ret (.ok (some sigB64) none none none)) →
        SoundRun T E G t → VerifyAnswered T K g parse cn line true := by
  have hexp : T.expected (.verify label data sig) = T.verdict key data sig := by
    rw [Token.expected, hkey, Option.bind_some]
  constructor
  · rw [verifyAnswered_iff hreq hauth hdata hsig, hexp, hT.verdict_eq]
    by_cases hlen : badLength key sig.length = true
    · rw [if_pos hlen, hlen]
      simp
    · rw [if_neg hlen]
      rw [Bool.not_eq_true] at hlen
      exact iff_of_true rfl hlen
  · intro E G hpair cn' line' mech dataB64' t hreq' hdata' ht hs
    obtain ⟨priv, sig', hpriv, hsigned, hresp⟩ := signed_of_steps hreq' hdata' ht hs rfl
    -- the text that was returned is the one that is sent
    obtain rfl : sig' = sig := by
      have htext : sigB64 = K.b64.encode sig' := by
        simpa [okResult] using hresp
      rw [htext, hB.decode_encode] at hsig
      exact Option.some_inj.mp hsig
    have hval := hpair priv sig' hpriv hsigned
    rw [verifyAnswered_iff hreq hauth hdata hsig, hexp, hT.verdict_eq,
      hT.length_of_valid key data sig' hval, if_neg (by simp), hval]

end Runs

/-! ### A sample key -/

namespace Ref

/-- `app-v` signs and verifies with `k1`. -/
def verifyConfig : FileConfig :=
  ⟨[⟨"app-v", [⟨.sign, ["k1"], none⟩, ⟨.verify, ["k1"], none⟩]⟩]⟩

def verifyGateway : Gateway :=
  { gateway with
    authz :=
      match AuthzTable.fromConfig crates verifyConfig "gateway-integrity" with
      | .ok t => t
      | .error _ => AuthzTable.empty }

/-- Signatures of 64 bytes, as those of P-256 are. -/
def sign64 (data : List UInt8) : List UInt8 := (data ++ List.replicate 64 0).take 64

/-- The sample token with the codes of `C_Verify` for such signatures. -/
def rangeToken : Token Nat :=
  { token with
    verify := fun _ data sig =>
      if sig.length ≠ 64 then
        .error (.pkcs11 .signatureLenRange "CKR_SIGNATURE_LEN_RANGE")
      else if sig = sign64 data then .ok ()
      else .error (.pkcs11 .signatureInvalid "CKR_SIGNATURE_INVALID") }

def valid64 (_ : Nat) (data sig : List UInt8) : Bool := sig == sign64 data

def badLength64 (_ n : Nat) : Bool := n != 64

theorem sign64_length (data : List UInt8) : (sign64 data).length = 64 := by
  rw [sign64, List.length_take, List.length_append, List.length_replicate]
  omega

theorem rangeToken_verifyCodes : rangeToken.VerifyCodes valid64 badLength64 where
  length_of_valid key data sig h := by
    obtain rfl : sig = sign64 data := by simpa [valid64] using h
    simp [badLength64, sign64_length]
  ok key data sig h := by
    obtain rfl : sig = sign64 data := by simpa [valid64] using h
    simp [rangeToken, sign64_length]
  lenRange key data sig h := ⟨_, if_pos (by simpa [badLength64] using h)⟩
  invalid key data sig h hlen := by
    have h' : sig ≠ sign64 data := by simpa [valid64] using h
    have hlen' : sig.length = 64 := by simpa [badLength64] using hlen
    refine ⟨"CKR_SIGNATURE_INVALID", ?_⟩
    simp only [rangeToken, hlen', h', ne_eq, not_true, if_false]

/-- A request of `app-v` to verify a signature on `hello`. -/
def verifyLine (sigB64 : String) : String :=
  requestText (.verify "k1" mechEcdsaSha256 "aGVsbG8=" sigB64)

end Ref

/-- A signature of the right length is found valid. -/
theorem verify_verdict_sign64 :
    VerifyAnswered Ref.rangeToken Ref.crates Ref.verifyGateway Ref.parseRequest "app-v"
      (Ref.verifyLine (Ref.crates.b64.encode (Ref.sign64 (utf8 "hello")))) true := by
  have hval : Ref.valid64 2 (utf8 "hello") (Ref.sign64 (utf8 "hello")) = true := by
    simp [Ref.valid64]
  have hlen : Ref.badLength64 2 (Ref.sign64 (utf8 "hello")).length = false := by
    simp [Ref.badLength64, Ref.sign64_length]
  rw [← hval]
  exact (verify_verdict_iff Ref.base64_lawful Ref.rangeToken_verifyCodes
    (Ref.parseRequest_requestText _) rfl rfl (Ref.base64_lawful.decode_encode _) rfl).1.mpr hlen

/-- A signature of four bytes is answered with an error and not with `verified: false`. -/
theorem verify_shortSignature :
    Ref.rangeToken.VerifyCodes Ref.valid64 Ref.badLength64 ∧
    Ref.verifyGateway.authz.isAuthorized "app-v" .verify "k1" = true ∧
    Ref.crates.b64.decode "AQIDBA==" = some [1, 2, 3, 4] ∧
    Ref.rangeToken.keyOf "k1" .publicKey = some 2 ∧
    Ref.valid64 2 (utf8 "hello") [1, 2, 3, 4] = false ∧
    ¬ VerifyAnswered Ref.rangeToken Ref.crates Ref.verifyGateway Ref.parseRequest "app-v"
      (Ref.verifyLine "AQIDBA==") false ∧
    ∃ t, Steps (Ref.verifyGateway.processLineP11 Ref.crates Ref.parseRequest "app-v"
        (Ref.verifyLine "AQIDBA==")) t
        (.ret (.error "verify failed: HSM verify failed for \"k1\": CKR_SIGNATURE_LEN_RANGE")) ∧
      ∀ ev ∈ t, NoFailure Ref.rangeToken ev := by
  refine ⟨Ref.rangeToken_verifyCodes, rfl, rfl, rfl, rfl, ?_, ?_⟩
  · intro h
    have hdata : Ref.crates.b64.decode "aGVsbG8=" = some (utf8 "hello") := rfl
    have hsig : Ref.crates.b64.decode "AQIDBA==" = some [1, 2, 3, 4] := rfl
    have hexp := (verifyAnswered_iff (Ref.parseRequest_requestText _) rfl hdata hsig false).mp h
    cases hexp
  · have hrun := steps_exec (Ref.rangeToken.serveLow Ref.takesAll)
      (Ref.verifyGateway.processLineP11 Ref.crates Ref.parseRequest "app-v"
        (Ref.verifyLine "AQIDBA=="))
    have hresp : ((Ref.verifyGateway.processLineP11 Ref.crates Ref.parseRequest "app-v"
        (Ref.verifyLine "AQIDBA==")).exec (Ref.rangeToken.serveLow Ref.takesAll)).2 =
        .error "verify failed: HSM verify failed for \"k1\": CKR_SIGNATURE_LEN_RANGE" := by
      rw [Ref.verifyLine, Gateway.processLineP11_of_parse (Ref.parseRequest_requestText _)]
      rfl
    rw [hresp] at hrun
    exact ⟨_, hrun, noFailure_serveLow Ref.rangeToken _⟩

end PicoHsm
