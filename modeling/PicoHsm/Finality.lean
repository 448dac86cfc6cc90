/-
Whether `denied` is final (`docs/18-client-integration.md`, "Error handling").

Two executions of one line on the same keys, each with faults of its own: any PKCS#11
operation may fail, any append may fail and any task may be lost.  The handles are those of
each session, so between the two, and within each, the objects may be numbered anew.

* `execute_answer` — what a run of `execute` that ends `denied` or `ok` must have done;
* `Execution` — the responses a line can get on a token that may fail;
* `Servable` — the decrypt requests that a token without faults answers `ok`;
* `deniedIsFinal_iff` — for these, and only for these, `denied` is not final:
  `check_integrity` answers a failed HSM call like a signature that does not match.
-/
import PicoHsm.Pipeline
import PicoHsm.TokenSound

namespace PicoHsm

open Text Effects Prog

namespace Gateway

variable (K : Crates) (g : Gateway)

/-! ### What a status says about the run -/

/-- The HSM call has succeeded and come to `b`. -/
def CameTo (c : HsmCall) (b : Bool) (h : List (Ev gwSig)) : Prop :=
  ∃ r, (⟨.hsm c, r⟩ : Ev gwSig) ∈ h ∧ c.shape r = some b

/-- `execute` denies only a decryption; and it answers `ok` only behind the request's own
call, and behind its integrity check if it is a decryption. -/
structure Answer (req : Request) (peer : Option (List UInt8)) (h : List (Ev gwSig))
    (resp : Response) : Prop where
  ofDenied : resp.status = .denied →
    ∃ c x, req.hsmCall K peer = some c ∧ c.ciphertext = some x
  ofOk : resp.status = .ok → ∃ c b, req.hsmCall K peer = some c ∧ CameTo c b h ∧
    ∀ iv ct, c.ciphertext = some (iv, ct) →
      CameTo (.verify g.integrityLabel (integrityPayload req.keyLabel iv ct) (req.integrity K))
        true h

variable {K g} {req : Request} {peer : Option (List UInt8)} {h : List (Ev gwSig)}

theorem shape_of_onSuccess {label : String} {c : HsmCall} {r : c.Ret} {p : Prog gwSig Response}
    (hp : g.onSuccess K label c r = some p) : ∃ b, c.shape r = some b := by
  have hs : (g.onSuccess K label c r).isSome = true := by
    rw [hp]
    rfl
  rw [onSuccess_isSome] at hs
  exact Option.isSome_iff_exists.mp hs

theorem onSuccess_notDenied {label : String} {c : HsmCall} {r : c.Ret} {p : Prog gwSig Response}
    (hp : g.onSuccess K label c r = some p) (h : List (Ev gwSig)) :
    Safe (fun _ _ => True) (fun _ _ => True) (fun _ resp => resp.status ≠ .denied) h p := by
  have hseal : ∀ iv ct, Safe (fun _ _ => True) (fun _ _ => True)
      (fun _ resp => resp.status ≠ .denied) h (g.sealResponse K label iv ct) := by
    refine fun iv ct => ⟨trivial, fun r _ => ?_⟩
    rcases r with e | sig <;> exact Response.Status.noConfusion
  cases c with
  | encrypt _ data =>
    obtain ⟨x, -, rfl⟩ := Option.map_eq_some_iff.mp hp
    exact hseal x.1 x.2
  | deriveAndEncrypt _ peer data =>
    obtain ⟨x, -, rfl⟩ := Option.map_eq_some_iff.mp hp
    exact hseal x.1 x.2
  | sign _ data =>
    obtain ⟨x, -, rfl⟩ := Option.map_eq_some_iff.mp hp
    exact Response.Status.noConfusion
  | verify _ data sig =>
    obtain ⟨x, -, rfl⟩ := Option.map_eq_some_iff.mp hp
    exact Response.Status.noConfusion
  | decrypt _ ct iv =>
    obtain ⟨x, -, rfl⟩ := Option.map_eq_some_iff.mp hp
    exact Response.Status.noConfusion
  | deriveAndDecrypt _ peer ct iv =>
    obtain ⟨x, -, rfl⟩ := Option.map_eq_some_iff.mp hp
    exact Response.Status.noConfusion

/-- The request's own call, behind its check: never denied from here on. -/
theorem safe_own {c : HsmCall} {f : Except String c.Ret → Prog gwSig Response}
    (hf : g.Finishes K req.keyLabel c f) :
    Safe (fun _ _ => True) (fun _ _ => True)
      (fun h' resp => resp.status ≠ .denied ∧ (resp.status = .ok → ∃ b, CameTo c b h')) h
      (blocking c >>= f) := by
  refine safe_blocking trivial (fun _ _ => trivial) (fun h' r _ hr => ?_) fun h' e _ => ?_
  · rcases hsucc : g.onSuccess K req.keyLabel c r with _ | p
    · obtain ⟨message, hm⟩ := hf.failed r hsucc
      rw [hm]
      exact ⟨Response.Status.noConfusion, fun h => Response.Status.noConfusion h⟩
    · rw [hf.done r p hsucc]
      obtain ⟨b, hshape⟩ := shape_of_onSuccess hsucc
      exact (safe_keep hr (onSuccess_notDenied hsucc h')).mono (fun _ _ hr => hr)
        (fun _ _ _ => trivial) fun h'' resp hq => ⟨hq.2, fun _ => ⟨b, r, hq.1, hshape⟩⟩
  · obtain ⟨message, hm⟩ := hf.task e
    rw [hm]
    exact ⟨Response.Status.noConfusion, fun h => Response.Status.noConfusion h⟩

/-- **What the status of `execute` says.** -/
theorem execute_answer (h : List (Ev gwSig)) :
    Safe (fun _ _ => True) (fun _ _ => True) (g.Answer K req peer) h (g.execute K req peer) := by
  have hb := g.execute_branch K req peer
  generalize g.execute K req peer = p at hb
  cases hb with
  | reject message _ =>
    exact ⟨fun h => Response.Status.noConfusion h, fun h => Response.Status.noConfusion h⟩
  | serve c f hcall hf =>
    rw [behindCheck]
    rcases hct : c.ciphertext with _ | ⟨iv, ct⟩
    · refine (safe_own hf).mono (fun _ _ hr => hr) (fun _ _ hg => hg) fun h' resp hq => ?_
      refine ⟨fun hd => absurd hd hq.1, fun hok => ?_⟩
      obtain ⟨b, hcame⟩ := hq.2 hok
      refine ⟨c, b, hcall, hcame, fun iv ct h => ?_⟩
      rw [hct] at h
      cases h
    refine ⟨trivial, fun r _ => ?_⟩
    have hdeny : g.Answer K req peer
        (h ++ [⟨.hsm (.verify g.integrityLabel (integrityPayload req.keyLabel iv ct)
          (req.integrity K)), r⟩]) (denied "integrity check failed, ciphertext rejected") :=
      ⟨fun _ => ⟨c, _, hcall, hct⟩, fun h => Response.Status.noConfusion h⟩
    rcases r with e | _ | _
    · exact hdeny
    · exact hdeny
    -- the signature is valid, and stays so in the history
    have hmem := List.mem_append_right h (List.mem_singleton_self (⟨.hsm (.verify g.integrityLabel
      (integrityPayload req.keyLabel iv ct) (req.integrity K)), .ok true⟩ : Ev gwSig))
    refine (safe_keep hmem (safe_own hf)).mono (fun _ _ hr => hr) (fun _ _ _ => trivial)
      fun h' resp hq => ?_
    refine ⟨fun hd => absurd hd hq.2.1, fun hok => ?_⟩
    obtain ⟨b, hcame⟩ := hq.2.2 hok
    refine ⟨c, b, hcall, hcame, fun iv' ct' h => ?_⟩
    rw [hct] at h
    cases h
    exact ⟨.ok true, hq.1, rfl⟩

variable (K g) in
/-- A decryption that succeeds is answered at once. -/
theorem onSuccess_of_ciphertext (label : String) {c : HsmCall} {x : List UInt8 × List UInt8}
    {r : c.Ret} {b : Bool} (hc : c.ciphertext = some x) (h : c.shape r = some b) :
    ∃ resp, g.onSuccess K label c r = some (.ret resp) ∧ resp.status = .ok := by
  cases c with
  | decrypt label ct iv =>
    obtain ⟨pt, hr, -⟩ := Option.map_eq_some_iff.mp h
    exact ⟨_, congrArg (Option.map _) hr, rfl⟩
  | deriveAndDecrypt label peer ct iv =>
    obtain ⟨pt, hr, -⟩ := Option.map_eq_some_iff.mp h
    exact ⟨_, congrArg (Option.map _) hr, rfl⟩
  | sign label data => cases hc
  | verify label data sig => cases hc
  | encrypt label data => cases hc
  | deriveAndEncrypt label peer data => cases hc

end Gateway

/-! ### Two executions of a line -/

section Executions

variable {Key : Type} (T : Token Key) (K : Crates) (g : Gateway)
  (parse : String → Except String Request) (cn line : String)

/-- The line can be answered so on these keys: every operation of the HSM may fail, and every
append and every task; and every session has handles of its own. -/
def Execution (resp : Response) : Prop :=
  ∃ t, Steps (g.processLineP11 K parse cn line) t (.ret resp) ∧
    SoundRun T (fun _ _ _ _ => True) (fun _ _ _ => True) t

/-- If one execution denies the line, no other answers it `ok`. -/
def DeniedIsFinal : Prop :=
  ∀ r₁ r₂, Execution T K g parse cn line r₁ → Execution T K g parse cn line r₂ →
    r₁.status = .denied → r₂.status ≠ .ok

/-- The line is an admitted decrypt request with supported mechanisms and fields that
decode; by the key material, its integrity signature is valid and its ciphertext opens. -/
def Servable : Prop :=
  ∃ req peer c iv ct, parse line = .ok req ∧ g.Admits K cn req peer ∧
    req.hsmCall K peer = some c ∧ c.ciphertext = some (iv, ct) ∧
    T.expected (.verify g.integrityLabel (integrityPayload req.keyLabel iv ct)
      (req.integrity K)) = some true ∧
    T.expected c = some true

variable {T K g parse cn line}

/-- An execution that is no error has refused a request or executed it. -/
theorem Execution.cases {resp : Response} (h : Execution T K g parse cn line resp)
    (hne : resp.status ≠ .error) :
    ∃ req, parse line = .ok req ∧
      ((resp.status = .denied ∧ ∃ reason, g.Refuses K cn req reason) ∨
        ∃ peer u, g.Admits K cn req peer ∧ Steps (g.execute K req peer) u (.ret resp) ∧
          ∀ c r, (⟨.hsm c, r⟩ : Ev gwSig) ∈ u →
            T.Result (fun _ _ _ _ => True) (fun _ _ _ => True) c r) := by
  obtain ⟨t, ht, hs⟩ := h
  obtain ⟨u, hu, hres⟩ := results_of_steps ht hs
  obtain ⟨req, hreq, hr | ⟨peer, u', ha, hexec, hsub⟩⟩ := Gateway.processLine_answered hu hne
  · exact ⟨req, hreq, Or.inl hr⟩
  · exact ⟨req, hreq, Or.inr ⟨peer, u', ha, hexec, fun c r hmem => hres c r (hsub hmem)⟩⟩

theorem Gateway.Admits.not_refuses {req : Request} {peer : Option (List UInt8)}
    {reason : String} (ha : g.Admits K cn req peer) (hr : g.Refuses K cn req reason) : False := by
  rcases hr with ⟨hr, -⟩ | ⟨-, hr⟩
  · exact absurd (ha.1.symm.trans hr) (by simp)
  · exact absurd (ha.2.symm.trans hr) (by simp)

/-- What a call came to is what the key material says. -/
theorem expected_of_cameTo {c : HsmCall} {b : Bool} {u : List (Ev gwSig)}
    (hres : ∀ c r, (⟨.hsm c, r⟩ : Ev gwSig) ∈ u →
      T.Result (fun _ _ _ _ => True) (fun _ _ _ => True) c r)
    (h : Gateway.CameTo c b u) : T.expected c = some b := by
  obtain ⟨r, hr, hshape⟩ := h
  rw [← hshape]
  exact (hres c r hr).expected (by rw [hshape]; simp)

/-- What is left of a verdict of a decryption. -/
theorem shape_of_ciphertext {c : HsmCall} {x : List UInt8 × List UInt8} {r : c.Ret} {b : Bool}
    (hc : c.ciphertext = some x) (h : c.shape r = some b) : b = true := by
  cases c with
  | decrypt label ct iv =>
    obtain ⟨_, -, rfl⟩ := Option.map_eq_some_iff.mp h
    rfl
  | deriveAndDecrypt label peer ct iv =>
    obtain ⟨_, -, rfl⟩ := Option.map_eq_some_iff.mp h
    rfl
  | sign label data => cases hc
  | verify label data sig => cases hc
  | encrypt label data => cases hc
  | deriveAndEncrypt label peer data => cases hc

/-- Two executions that disagree are about a request that can be served. -/
theorem servable_of_denied_of_ok {r₁ r₂ : Response} (h₁ : Execution T K g parse cn line r₁)
    (h₂ : Execution T K g parse cn line r₂) (hd : r₁.status = .denied) (hok : r₂.status = .ok) :
    Servable T K g parse cn line := by
  obtain ⟨req, hreq, h₂⟩ := h₂.cases (by rw [hok]; exact Response.Status.noConfusion)
  obtain ⟨req', hreq', h₁⟩ := h₁.cases (by rw [hd]; exact Response.Status.noConfusion)
  obtain rfl : req = req' := Except.ok.inj (hreq.symm.trans hreq')
  rcases h₂ with ⟨hd', -⟩ | ⟨peer, u₂, ha, hu₂, hres⟩
  · exact absurd (hok.symm.trans hd') (by simp)
  rcases h₁ with ⟨-, reason, hr⟩ | ⟨peer', u₁, ha', hu₁, -⟩
  · exact (ha.not_refuses hr).elim
  obtain rfl : peer = peer' := Except.ok.inj (ha.2.symm.trans ha'.2)
  -- the denied one shows that it is a decryption, the other what it came to
  have ans₁ := (Gateway.execute_answer []).post_of_steps hu₁ fun _ _ _ _ => trivial
  have ans₂ := (Gateway.execute_answer []).post_of_steps hu₂ fun _ _ _ _ => trivial
  rw [List.nil_append] at ans₁ ans₂
  obtain ⟨c, ⟨iv, ct⟩, hcall, hct⟩ := ans₁.ofDenied hd
  obtain ⟨c', b, hcall', hcame, hcheck⟩ := ans₂.ofOk hok
  obtain rfl : c = c' := Option.some_inj.mp (hcall.symm.trans hcall')
  refine ⟨req, peer, c, iv, ct, hreq, ha, hcall, hct,
    expected_of_cameTo hres (hcheck iv ct hct), ?_⟩
  obtain ⟨r, -, hshape⟩ := id hcame
  rw [expected_of_cameTo hres hcame, shape_of_ciphertext hct hshape]

/-! ### The two executions of a servable request -/

/-- An execution from a run of the pipeline whose HSM calls can be performed so. -/
theorem Execution.of_steps {req : Request} {peer : Option (List UInt8)} {u : List (Ev gwSig)}
    {resp : Response} (hreq : parse line = .ok req) (ha : g.Admits K cn req peer)
    (hu : Steps (g.execute K req peer) u (.ret resp))
    (hsm : ∀ c r, (⟨.hsm c, r⟩ : Ev gwSig) ∈ u → ∃ t, Steps (g.lower K (.hsm c)) t (.ret r) ∧
      ∀ ev ∈ t, ∀ x, p11Event ev = some x →
        T.Sound (fun _ _ _ _ => True) (fun _ _ _ => True) x) :
    Execution T K g parse cn line resp := by
  rw [Execution, Gateway.processLineP11_of_parse hreq]
  obtain ⟨t, ht, hQ⟩ := (ha.steps hu (.ok ())).interp (f := g.lower K)
    (Q := fun ev => ∀ x, p11Event ev = some x →
      T.Sound (fun _ _ _ _ => True) (fun _ _ _ => True) x) fun ev hev => by
      obtain ⟨e, r⟩ := ev
      cases e with
      | append a => exact ⟨_, .call (.refl _), by simp [p11Event]⟩
      | spawn => exact ⟨_, .call (.refl _), by simp [p11Event]⟩
      | hsm c =>
        have hmem : (⟨.hsm c, r⟩ : Ev gwSig) ∈ u := by
          rcases List.mem_cons.mp hev with hev | hev
          · cases hev
          rcases List.mem_append.mp hev with hev | hev
          · exact hev
          · cases List.mem_singleton.mp hev
        exact hsm c r hmem
  exact ⟨t, ht, .of_forall hQ⟩

/-- A call that no fault meets can be answered as expected. -/
theorem exists_sound (T : Token Key) (K : Crates) (g : Gateway) (c : HsmCall) :
    ∃ r, c.shape r = T.expected c ∧ ∃ t, Steps (g.lower K (.hsm c)) t (.ret r) ∧
      ∀ ev ∈ t, ∀ x, p11Event ev = some x →
        T.Sound (fun _ _ _ _ => True) (fun _ _ _ => True) x := by
  obtain ⟨t, r, ht, hr, hgood⟩ := exists_good T K g c
  refine ⟨r, hr, t, ht, fun ev hev x hx => ?_⟩
  obtain ⟨y, hy, hg, -⟩ := hgood ev hev
  rw [Option.some_inj.mp (hx.symm.trans hy)]
  exact hg.sound (fun _ _ _ _ _ _ => trivial) fun _ _ _ _ _ _ => trivial

/-- Without faults, a servable request is answered `ok`. -/
theorem Servable.ok (h : Servable T K g parse cn line) :
    ∃ resp, Execution T K g parse cn line resp ∧ resp.status = .ok := by
  obtain ⟨req, peer, c, iv, ct, hreq, ha, hcall, hct, hver, hexp⟩ := h
  obtain ⟨rv, hrv, hv⟩ := exists_sound T K g
    (.verify g.integrityLabel (integrityPayload req.keyLabel iv ct) (req.integrity K))
  obtain ⟨r, hr, hc⟩ := exists_sound T K g c
  obtain rfl : rv = .ok true := HsmCall.eq_ok_of_shape (hrv.trans hver)
  obtain ⟨resp, hsucc, hok⟩ := Gateway.onSuccess_of_ciphertext K g req.keyLabel hct (hr.trans hexp)
  refine ⟨resp, .of_steps hreq ha (Gateway.execute_steps_ok hcall hct hsucc) ?_, hok⟩
  intro c' r' hmem
  simp only [List.mem_cons, List.not_mem_nil, or_false] at hmem
  rcases hmem with hmem | hmem | hmem
  · cases hmem
    exact hv
  · cases hmem
  · cases hmem
    exact hc

/-- If the HSM opens no session, it is denied. -/
theorem Servable.denied (h : Servable T K g parse cn line) :
    Execution T K g parse cn line (denied "integrity check failed, ciphertext rejected") := by
  obtain ⟨req, peer, c, iv, ct, hreq, ha, hcall, hct, -, -⟩ := h
  refine .of_steps hreq ha (Gateway.execute_steps_denied hcall hct "CKR_DEVICE_REMOVED") ?_
  intro c' r' hmem
  cases List.mem_singleton.mp hmem
  refine ⟨[⟨.p11 (.openRwSession g.hsm.slot), .error (.pkcs11 (.other 0x32) "CKR_DEVICE_REMOVED")⟩],
    .call (.refl _), fun ev hev x hx => ?_⟩
  cases List.mem_singleton.mp hev
  cases hx
  trivial

variable (T K g parse cn line) in
/-- **When `denied` is final**: unless the line is a decrypt request that an HSM without
faults would serve. -/
theorem deniedIsFinal_iff :
    DeniedIsFinal T K g parse cn line ↔ ¬ Servable T K g parse cn line := by
  constructor
  · intro hfin hserv
    obtain ⟨resp, h, hok⟩ := hserv.ok
    exact hfin _ resp hserv.denied h rfl hok
  · intro hn r₁ r₂ h₁ h₂ hd hok
    exact hn (servable_of_denied_of_ok h₁ h₂ hd hok)

end Executions

/-- `app-b` decrypts with `k1` what the gateway has sealed. -/
def decryptLine : String :=
  Ref.requestText (.decrypt "k1" "aes_cbc_pad" "CQk=" "BwcHBwcHBwcHBwcHBwcHBw==" "AQIDBA==")

theorem servable_decryptLine :
    Servable Ref.token Ref.crates Ref.gateway Ref.parseRequest "app-b" decryptLine :=
  ⟨_, none, .decrypt "k1" [9, 9] (List.replicate 16 7), List.replicate 16 7, [9, 9],
    Ref.parseRequest_requestText _, ⟨rfl, rfl⟩, rfl, rfl, rfl, rfl⟩

/-- A valid ciphertext is denied while the HSM opens no session, and decrypted after. -/
theorem denied_then_ok :
    Execution Ref.token Ref.crates Ref.gateway Ref.parseRequest "app-b" decryptLine
        (denied "integrity check failed, ciphertext rejected") ∧
      (∃ resp, Execution Ref.token Ref.crates Ref.gateway Ref.parseRequest "app-b" decryptLine
        resp ∧ resp.status = .ok) ∧
      ¬ DeniedIsFinal Ref.token Ref.crates Ref.gateway Ref.parseRequest "app-b" decryptLine := by
  obtain ⟨resp, h, hok⟩ := servable_decryptLine.ok
  exact ⟨servable_decryptLine.denied, ⟨resp, h, hok⟩,
    fun hfin => hfin _ resp servable_decryptLine.denied h rfl hok⟩

end PicoHsm
