/-
What was encrypted through the gateway can be decrypted through it.

Any number of requests at once, down to PKCS#11, on fixed keys: every operation of the
HSM may fail, and what it returns otherwise is right (`TokenSound.lean`).  Handles are those
of a session: from one to the next every object may be numbered anew, and a handle that a
derived key had may be given to another one.  Of the mechanisms the gateway uses,
`Token.Lawful` states what is relied on: decryption undoes encryption under the same key and
IV, and the keys under the integrity label are a pair.

* `execute_sealed` — an encryption answered `ok`: what was asked of the HSM for it;
* `processRequest_opened` — a request that carries a ciphertext back, if nothing fails;
* `roundTrip` — the two together, in every run of the gateway.
-/
import PicoHsm.Pipeline
import PicoHsm.TokenSound

namespace PicoHsm

open Text Effects Prog

/-! ### What is relied on -/

namespace Token

variable {Key : Type} (T : Token Key) (E : Key → Mechanism → List UInt8 → List UInt8 → Prop)
  (G : Key → List UInt8 → List UInt8 → Prop)

/-- The mechanisms do what they are for; `integrity` is the label of a key pair. -/
structure Lawful (integrity : String) : Prop where
  /-- AES-CBC-PAD: what was encrypted under a key and an IV of 16 bytes is decrypted. -/
  decrypt_encrypt : ∀ key iv data ct, iv.length = 16 → E key (.aesCbcPad iv) data ct →
    T.decrypt key (.aesCbcPad iv) ct = .ok data
  /-- ECDSA: what the private key signed is accepted by the public key. -/
  verify_sign : ∀ key data sig, T.keyOf integrity .privateKey = some key → G key data sig →
    ∃ pub, T.keyOf integrity .publicKey = some pub ∧ T.verify pub data sig = .ok ()

/-- The call decrypts to `pt`. -/
def Opens (pt : List UInt8) : HsmCall → Prop
  | .decrypt label ct iv => iv.length = 16 ∧ ∃ key, T.keyOf label .secretKey = some key ∧
      T.decrypt key (.aesCbcPad iv) ct = .ok pt
  | .deriveAndDecrypt label peer ct iv => iv.length = 16 ∧
      ∃ key, T.derivedKey label peer = some key ∧ T.decrypt key (.aesCbcPad iv) ct = .ok pt
  | _ => False

variable {T E G} {integrity label : String} {peer data iv ct pt : List UInt8}

theorem Lawful.opens_decrypt (hT : T.Lawful E G integrity)
    (h : T.Result E G (.encrypt label data) (.ok (iv, ct))) :
    T.Opens data (.decrypt label ct iv) := by
  obtain ⟨hlen, key, hkey, henc⟩ := h _ rfl
  exact ⟨hlen, key, hkey, hT.decrypt_encrypt key iv data ct hlen henc⟩

theorem Lawful.opens_deriveAndDecrypt (hT : T.Lawful E G integrity)
    (h : T.Result E G (.deriveAndEncrypt label peer data) (.ok (iv, ct))) :
    T.Opens data (.deriveAndDecrypt label peer ct iv) := by
  obtain ⟨hlen, key, hkey, henc⟩ := h _ rfl
  exact ⟨hlen, key, hkey, hT.decrypt_encrypt key iv data ct hlen henc⟩

/-- What was signed under the integrity label is found valid. -/
theorem Lawful.expected_verify (hT : T.Lawful E G integrity) {m sig : List UInt8}
    (h : T.Result E G (.sign integrity m) (.ok sig)) :
    T.expected (.verify integrity m sig) = some true := by
  obtain ⟨key, hkey, hsig⟩ := h sig rfl
  obtain ⟨pub, hpub, hver⟩ := hT.verify_sign key m sig hkey hsig
  rw [expected, hpub, Option.bind_some, verdict, hver]

theorem Opens.expected {c : HsmCall} (h : T.Opens pt c) : T.expected c = some true := by
  cases c with
  | decrypt label ct iv =>
    obtain ⟨hlen, key, hkey, hdec⟩ := h
    rw [Token.expected, if_pos hlen, hkey, Option.bind_some, opens, hdec]
    rfl
  | deriveAndDecrypt label peer ct iv =>
    obtain ⟨hlen, key, hkey, hdec⟩ := h
    rw [Token.expected, if_pos hlen, hkey, Option.bind_some, opens, hdec]
    rfl
  | sign label data => exact h.elim
  | verify label data sig => exact h.elim
  | encrypt label data => exact h.elim
  | deriveAndEncrypt label peer data => exact h.elim

/-- A call that opens the ciphertext, and does not fail, is answered with the plaintext. -/
theorem Opens.onSuccess {K : Crates} {g : Gateway} {c : HsmCall} {r : c.Ret} (h : T.Opens pt c)
    (hr : T.Result E G c r) (hshape : c.shape r = T.expected c) (keyLabel : String) :
    g.onSuccess K keyLabel c r = some (.ret (okResult (K.b64.encode pt))) := by
  rw [h.expected] at hshape
  cases c with
  | decrypt label ct iv =>
    obtain ⟨-, key, hkey, hdec⟩ := h
    rcases r with e | pt'
    · cases hshape
    obtain ⟨-, key', hkey', hdec'⟩ := hr pt' rfl
    obtain rfl : key = key' := Option.some_inj.mp (hkey.symm.trans hkey')
    obtain rfl : pt = pt' := Except.ok.inj (hdec.symm.trans hdec')
    rfl
  | deriveAndDecrypt label peer ct iv =>
    obtain ⟨-, key, hkey, hdec⟩ := h
    rcases r with e | pt'
    · cases hshape
    obtain ⟨-, key', hkey', hdec'⟩ := hr pt' rfl
    obtain rfl : key = key' := Option.some_inj.mp (hkey.symm.trans hkey')
    obtain rfl : pt = pt' := Except.ok.inj (hdec.symm.trans hdec')
    rfl
  | sign label data => exact h.elim
  | verify label data sig => exact h.elim
  | encrypt label data => exact h.elim
  | deriveAndEncrypt label peer data => exact h.elim

end Token

/-! ### The two requests -/

namespace Request

/-- `data_b64` of a request that encrypts. -/
def plaintextB64 : Request → Option String
  | .encrypt _ _ data => some data
  | .deriveAndEncrypt _ _ _ _ data => some data
  | _ => none

/-- The request that carries a result back: same key, mechanisms and peer key. -/
def carryingBack (resultB64 ivB64 integrityB64 : String) : Request → Option Request
  | .encrypt label mech _ => some (.decrypt label mech resultB64 ivB64 integrityB64)
  | .deriveAndEncrypt label derive target peer _ =>
    some (.deriveAndDecrypt label derive target peer ivB64 integrityB64 resultB64)
  | _ => none

end Request

/-- The call that undoes a call which returned `iv` and `ct`. -/
def HsmCall.undone (iv ct : List UInt8) : HsmCall → Option HsmCall
  | .encrypt label _ => some (.decrypt label ct iv)
  | .deriveAndEncrypt label peer _ => some (.deriveAndDecrypt label peer ct iv)
  | _ => none

theorem HsmCall.ciphertext_of_undone {iv ct : List UInt8} {c c' : HsmCall}
    (h : c.undone iv ct = some c') : c'.ciphertext = some (iv, ct) := by
  cases c with
  | encrypt label data =>
    obtain rfl := Option.some_inj.mp h
    rfl
  | deriveAndEncrypt label peer data =>
    obtain rfl := Option.some_inj.mp h
    rfl
  | sign label data => cases h
  | verify label data sig => cases h
  | decrypt label ct iv => cases h
  | deriveAndDecrypt label peer ct iv => cases h

/-- The HSM has encrypted `data` for the call and returned `iv` and `ct`. -/
def HsmCall.Gave (data iv ct : List UInt8) (h : List (Ev gwSig)) : HsmCall → Prop
  | .encrypt label data' =>
    data' = data ∧ (⟨.hsm (.encrypt label data'), .ok (iv, ct)⟩ : Ev gwSig) ∈ h
  | .deriveAndEncrypt label peer data' =>
    data' = data ∧ (⟨.hsm (.deriveAndEncrypt label peer data'), .ok (iv, ct)⟩ : Ev gwSig) ∈ h
  | _ => False

theorem HsmCall.Gave.opens {Key : Type} {T : Token Key}
    {E : Key → Mechanism → List UInt8 → List UInt8 → Prop}
    {G : Key → List UInt8 → List UInt8 → Prop} {integrity : String} {data iv ct : List UInt8}
    {h : List (Ev gwSig)} {c : HsmCall} (hT : T.Lawful E G integrity) (hc : c.Gave data iv ct h)
    (hres : ∀ c r, (⟨.hsm c, r⟩ : Ev gwSig) ∈ h → T.Result E G c r) :
    ∃ c', c.undone iv ct = some c' ∧ T.Opens data c' := by
  cases c with
  | encrypt label data' =>
    obtain ⟨rfl, hmem⟩ := hc
    exact ⟨_, rfl, hT.opens_decrypt (hres _ _ hmem)⟩
  | deriveAndEncrypt label peer data' =>
    obtain ⟨rfl, hmem⟩ := hc
    exact ⟨_, rfl, hT.opens_deriveAndDecrypt (hres _ _ hmem)⟩
  | sign label data => exact hc.elim
  | verify label data sig => exact hc.elim
  | decrypt label ct iv => exact hc.elim
  | deriveAndDecrypt label peer ct iv => exact hc.elim

namespace Gateway

variable {K : Crates} {g : Gateway} {cn : String} {req req' : Request}
  {peer : Option (List UInt8)} {data iv ct sig : List UInt8} {h : List (Ev gwSig)}

/-! ### Encryption -/

variable (K g) in
/-- How an encryption is answered: the HSM has encrypted `data` to `iv` and `ct` and signed
the payload, and the response carries all three. -/
structure SealedAs (req : Request) (peer : Option (List UInt8)) (data iv ct sig : List UInt8)
    (h : List (Ev gwSig)) (resp : Response) : Prop where
  call : ∃ c, req.hsmCall K peer = some c ∧ c.Gave data iv ct h
  signed : (⟨.hsm (.sign g.integrityLabel (integrityPayload req.keyLabel iv ct)), .ok sig⟩ :
    Ev gwSig) ∈ h
  response : resp = .ok (some (K.b64.encode ct)) none (some (K.b64.encode iv))
    (some (K.b64.encode sig))

/-- Sealing, once the HSM has encrypted. -/
theorem safe_sealedAs {c : HsmCall} (hcall : req.hsmCall K peer = some c)
    (hgave : ∀ h', h ⊆ h' → c.Gave data iv ct h') :
    Safe (fun _ _ => True) (fun _ _ => True)
      (fun h resp => resp.status = .ok → ∃ sig, g.SealedAs K req peer data iv ct sig h resp) h
      (g.sealResponse K req.keyLabel iv ct) := by
  refine ⟨trivial, fun r _ => ?_⟩
  rcases r with e | sig
  · exact fun hok => Response.Status.noConfusion hok
  · exact fun _ => ⟨sig, ⟨c, hcall, hgave _ (List.subset_append_left _ _)⟩, by simp, rfl⟩

/-- Encrypting and sealing. -/
theorem safe_encrypting {c : HsmCall} {f : Except String c.Ret → Prog gwSig Response}
    {dataB64 : String} (hcall : req.hsmCall K peer = some c)
    (hdec : K.b64.decode dataB64 = some data) (hf : g.Finishes K req.keyLabel c f)
    (henc : ∀ r p, g.onSuccess K req.keyLabel c r = some p →
      ∃ iv ct, p = g.sealResponse K req.keyLabel iv ct ∧
        ∀ h, (⟨.hsm c, r⟩ : Ev gwSig) ∈ h → c.Gave data iv ct h) :
    Safe (fun _ _ => True) (fun _ _ => True)
      (fun h resp => resp.status = .ok → ∃ data iv ct sig, K.b64.decode dataB64 = some data ∧
        g.SealedAs K req peer data iv ct sig h resp) h (blocking c >>= f) := by
  refine safe_blocking trivial (fun _ _ => trivial) (fun h' r _ hr => ?_) fun h' e _ => ?_
  · rcases hsucc : g.onSuccess K req.keyLabel c r with _ | p
    · obtain ⟨message, hm⟩ := hf.failed r hsucc
      rw [hm]
      exact fun hok => Response.Status.noConfusion hok
    · obtain ⟨iv, ct, rfl, hgave⟩ := henc r p hsucc
      rw [hf.done r _ hsucc]
      exact (safe_sealedAs hcall fun h'' hs => hgave h'' (hs hr)).mono (fun _ _ hr => hr)
        (fun _ _ hg => hg) fun _ _ hq hok =>
          ⟨data, iv, ct, (hq hok).imp fun _ hs => ⟨hdec, hs⟩⟩
  · obtain ⟨message, hm⟩ := hf.task e
    rw [hm]
    exact fun hok => Response.Status.noConfusion hok

/-- **What an encryption that is answered `ok` has asked of the HSM.** -/
theorem execute_sealed {dataB64 : String} (hplain : req.plaintextB64 = some dataB64) :
    Safe (fun _ _ => True) (fun _ _ => True)
      (fun h resp => resp.status = .ok → ∃ data iv ct sig, K.b64.decode dataB64 = some data ∧
        g.SealedAs K req peer data iv ct sig h resp) h (g.execute K req peer) := by
  have hb := g.execute_branch K req peer
  generalize g.execute K req peer = p at hb
  cases hb with
  | reject message _ => exact fun hok => Response.Status.noConfusion hok
  | serve c f hcall hf =>
    -- only `encrypt` and `derive_and_encrypt` have a plaintext
    have hc := id hcall
    cases req with
    | encrypt keyLabel mechanism dataB64' =>
      obtain rfl := Option.some_inj.mp hplain
      simp only [Request.hsmCall, Option.ite_none_right_eq_some, Option.map_eq_some_iff] at hc
      obtain ⟨-, data, hdec, rfl⟩ := hc
      refine safe_encrypting hcall hdec hf ?_
      rintro (e | ⟨iv, ct⟩) p hp
      · cases hp
      · cases hp
        exact ⟨iv, ct, rfl, fun h hm => ⟨rfl, hm⟩⟩
    | deriveAndEncrypt keyLabel deriveMechanism targetMechanism peerB64 dataB64' =>
      obtain rfl := Option.some_inj.mp hplain
      simp only [Request.hsmCall, Option.ite_none_right_eq_some, Option.map_eq_some_iff] at hc
      obtain ⟨-, data, hdec, rfl⟩ := hc
      refine safe_encrypting hcall hdec hf ?_
      rintro (e | ⟨iv, ct⟩) p hp
      · cases hp
      · cases hp
        exact ⟨iv, ct, rfl, fun h hm => ⟨rfl, hm⟩⟩
    | sign keyLabel mechanism dataB64' => cases hplain
    | verify keyLabel mechanism dataB64' signatureB64 => cases hplain
    | decrypt keyLabel mechanism dataB64' ivB64 integrityB64 => cases hplain
    | deriveAndDecrypt keyLabel deriveMechanism targetMechanism peerB64 ivB64 integrityB64
        dataB64' =>
      cases hplain

/-! ### Carrying the result back -/

/-- The request that carries the result back asks for the call that undoes the encryption. -/
theorem hsmCall_carryingBack (hB : K.b64.Lawful) {c : HsmCall} (hcall : req.hsmCall K peer = some c)
    (hback : req.carryingBack (K.b64.encode ct) (K.b64.encode iv) (K.b64.encode sig) = some req') :
    req'.hsmCall K peer = c.undone iv ct ∧ req'.integrity K = sig ∧
      req'.keyLabel = req.keyLabel ∧ req'.peerPublicKeyB64 = req.peerPublicKeyB64 := by
  cases req with
  | encrypt keyLabel mechanism dataB64 =>
    obtain rfl := Option.some_inj.mp hback
    simp only [Request.hsmCall, Option.ite_none_right_eq_some, Option.map_eq_some_iff] at hcall
    obtain ⟨hm, data, -, rfl⟩ := hcall
    refine ⟨?_, ?_, rfl, rfl⟩
    · simp only [Request.hsmCall, if_pos hm, hB.decode_encode]
      rfl
    · simp only [Request.integrity, Request.integrityInput, hB.decode_encode]
      rfl
  | deriveAndEncrypt keyLabel deriveMechanism targetMechanism peerB64 dataB64 =>
    obtain rfl := Option.some_inj.mp hback
    simp only [Request.hsmCall, Option.ite_none_right_eq_some, Option.map_eq_some_iff] at hcall
    obtain ⟨hm, data, -, rfl⟩ := hcall
    refine ⟨?_, ?_, rfl, rfl⟩
    · simp only [Request.hsmCall, if_pos hm, hB.decode_encode]
      rfl
    · simp only [Request.integrity, Request.integrityInput, hB.decode_encode]
      rfl
  | sign keyLabel mechanism dataB64 => cases hback
  | verify keyLabel mechanism dataB64 signatureB64 => cases hback
  | decrypt keyLabel mechanism dataB64 ivB64 integrityB64 => cases hback
  | deriveAndDecrypt keyLabel deriveMechanism targetMechanism peerB64 ivB64 integrityB64 dataB64 =>
    cases hback

variable (g) in
/-- The table lets the client make the request: its operation on its label, and its peer
key if it has one. -/
def Permits (cn : String) (req : Request) : Prop :=
  g.authz.isAuthorized cn req.operation req.keyLabel = true ∧
    ∀ peerB64, req.peerPublicKeyB64 = some peerB64 →
      g.authz.isPeerKeyAuthorized cn req.operation req.keyLabel peerB64 = true

/-- It is then admitted, with the peer key of another admitted request that has the same. -/
theorem Permits.admits {cn' : String} (hp : g.Permits cn' req') (ha : g.Admits K cn req peer)
    (hpeer : req'.peerPublicKeyB64 = req.peerPublicKeyB64) : g.Admits K cn' req' peer := by
  refine ⟨hp.1, ?_⟩
  have hkey := ha.2
  rw [peerKey, ← hpeer] at hkey
  rw [peerKey]
  rcases hpb : req'.peerPublicKeyB64 with _ | peerB64
  · rw [hpb] at hkey
    exact hkey
  · rw [hpb] at hkey
    dsimp only at hkey ⊢
    rcases hdec : K.b64.decode peerB64 with _ | bytes
    · rw [hdec] at hkey
      exact absurd hkey (by simp)
    · rw [hdec] at hkey
      dsimp only at hkey ⊢
      rw [if_neg (by rw [hp.2 peerB64 hpb]; simp)]
      split at hkey
      · exact absurd hkey (by simp)
      · exact hkey

end Gateway

/-! ### Decryption without failures -/

section Runs

variable {Key ι : Type} {T : Token Key} {E : Key → Mechanism → List UInt8 → List UInt8 → Prop}
  {G : Key → List UInt8 → List UInt8 → Prop} {K : Crates} {g : Gateway}

variable (T) in
/-- Nothing fails that a request needs: the HSM and its tasks, and the audit intent. -/
def NoFailure : Ev lowSig → Prop
  | ⟨.append a, r⟩ => a.outcome = .intent → r = .ok ()
  | ⟨.spawn, r⟩ => r = Spawn.ran
  | ⟨.p11 op, r⟩ => T.Good ⟨op, r⟩

theorem NoFailure.good {ev : Ev lowSig} {x : Ev p11Sig} (h : NoFailure T ev)
    (hx : p11Event ev = some x) : T.Good x := by
  obtain ⟨e, r⟩ := ev
  cases e with
  | append a => cases hx
  | spawn => cases hx
  | p11 op =>
    cases hx
    exact h

/-- The same outside the HSM. -/
def IntentTaken : Ev lowSig → Prop
  | ⟨.append a, r⟩ => a.outcome = .intent → r = .ok ()
  | ⟨.spawn, r⟩ => r = Spawn.ran
  | ⟨.p11 _, _⟩ => True

variable (T) in
/-- Nothing fails that a request needs; the HSM answers each operation by the handles of its
session. -/
def FailureFree (t : List (Ev lowSig)) : Prop := Faultless T IntentTaken t

/-- So it is if the handles never change. -/
theorem FailureFree.of_forall {t : List (Ev lowSig)} (h : ∀ ev ∈ t, NoFailure T ev) :
    FailureFree T t := by
  refine ⟨fun ev hev => ?_, T, .of_forall fun x hx => ?_⟩
  · have hno := h ev hev
    obtain ⟨e, r⟩ := ev
    cases e with
    | append a => exact hno
    | spawn => exact hno
    | p11 op => trivial
  · obtain ⟨ev, hev, hp⟩ := mem_p11Part.mp hx
    exact (h ev hev).good hp

variable (T E G) in
/-- The same of the pipeline's operations. -/
def Clean : Ev gwSig → Prop
  | ⟨.append a, r⟩ => a.outcome = .intent → r = .ok ()
  | ⟨.spawn, r⟩ => r = Spawn.ran
  | ⟨.hsm c, r⟩ => T.Result E G c r ∧ c.shape r = T.expected c

theorem clean_of_steps {e : GwOp} {t : List (Ev lowSig)} {r : GwOp.Ret e}
    (h : Steps (g.lower K e) t (.ret r)) (hs : SoundRun T E G t) (hf : FailureFree T t) :
    Clean T E G ⟨e, r⟩ := by
  cases e with
  | append a => exact hf.outside _ (Steps.mem_of_one (S := lowSig) (e := LowOp.append a) h)
  | spawn => exact hf.outside _ (Steps.mem_of_one (S := lowSig) (e := LowOp.spawn) h)
  | hsm c =>
    obtain ⟨V, hV⟩ := hf.hsm
    exact ⟨result_of_steps h hs, HsmClient.expected_of_seen (steps_of_liftP11 h) hV⟩

/-- **A request that carries a ciphertext back**, whose seal is valid and which decrypts to
`pt`, is answered with `pt` if nothing fails. -/
theorem processRequest_opened {cn : String} {req : Request} {peer : Option (List UInt8)}
    {c : HsmCall} {iv ct pt : List UInt8} (ha : g.Admits K cn req peer)
    (hcall : req.hsmCall K peer = some c) (hct : c.ciphertext = some (iv, ct))
    (hver : T.expected (.verify g.integrityLabel (integrityPayload req.keyLabel iv ct)
      (req.integrity K)) = some true) (hop : T.Opens pt c) (h : List (Ev gwSig)) :
    Safe (fun _ ev => Clean T E G ev) (fun _ _ => True)
      (fun _ resp => resp = okResult (K.b64.encode pt)) h (g.processRequest K cn req) := by
  rw [Gateway.processRequest, if_neg (by rw [ha.1]; simp), ha.2]
  refine ⟨trivial, fun r hr => ?_⟩
  obtain rfl : r = .ok () := hr rfl
  dsimp only
  rw [safe_bind]
  -- the closing entry does not change the response
  suffices H : ∀ h, Safe (fun _ ev => Clean T E G ev) (fun _ _ => True)
      (fun _ resp => resp = okResult (K.b64.encode pt)) h (g.execute K req peer) from
    (H _).mono (fun _ _ hr => hr) (fun _ _ hg => hg) fun _ _ hresp => ⟨trivial, fun _ _ => hresp⟩
  intro h
  obtain ⟨f, hf, hexec⟩ := Gateway.execute_serve (g := g) hcall
  rw [hexec, Gateway.behindCheck, hct]
  refine ⟨trivial, fun r hr => ?_⟩
  obtain rfl : r = .ok true := HsmCall.eq_ok_of_shape (hr.2.trans hver)
  refine ⟨trivial, fun s hs => ?_⟩
  obtain rfl : s = Spawn.ran := hs
  refine ⟨trivial, fun r hr => ?_⟩
  show Safe _ _ _ _ (f (.ok r))
  rw [hf.done r _ (hop.onSuccess hr.1 hr.2 req.keyLabel)]
  rfl

/-- A call that neither encrypts nor signs can be performed without failure. -/
theorem exists_noFailure (T : Token Key) (K : Crates) (g : Gateway) (c : HsmCall)
    (henc : ∀ h s mech key data, ¬ c.Keeps h (.encrypt s mech key data))
    (hsign : ∀ h s mech key data, ¬ c.Keeps h (.sign s mech key data)) :
    ∃ r, T.Result E G c r ∧ c.shape r = T.expected c ∧
      ∃ t, Steps (g.lower K (.hsm c)) t (.ret r) ∧
        ∀ ev ∈ t, NoFailure T ev ∧ ∀ x, p11Event ev = some x → T.Sound E G x := by
  obtain ⟨t, r, ht, hr, hgood⟩ := exists_good T K g c
  have hsound : ∀ ev ∈ t, ∀ x, p11Event ev = some x → T.Sound E G x := by
    intro ev hev x hx
    obtain ⟨y, hy, hg, h, hk⟩ := hgood ev hev
    obtain rfl : x = y := Option.some_inj.mp (hx.symm.trans hy)
    refine hg.sound (fun s mech key data ct hx => ?_) fun s mech key data sig hx => ?_
    · rw [hx] at hk
      exact (henc h s mech key data hk).elim
    · rw [hx] at hk
      exact (hsign h s mech key data hk).elim
  refine ⟨r, result_of_steps ht (.of_forall hsound), hr, t, ht, fun ev hev => ⟨?_, hsound ev hev⟩⟩
  obtain ⟨y, hy, hg, -⟩ := hgood ev hev
  obtain ⟨e, r'⟩ := ev
  cases e with
  | append a => cases hy
  | spawn => cases hy
  | p11 op =>
    cases hy
    exact hg

theorem Token.Opens.not_keeps {c : HsmCall} {pt : List UInt8} (hop : T.Opens pt c)
    (h : List (Ev p11Sig)) (s : Nat) (mech : Mechanism) (key : Nat) (data : List UInt8) :
    ¬ c.Keeps h (.encrypt s mech key data) ∧ ¬ c.Keeps h (.sign s mech key data) := by
  cases c with
  | decrypt label ct iv => constructor <;> simp [HsmCall.Keeps]
  | deriveAndDecrypt label peer ct iv => constructor <;> simp [HsmCall.Keeps]
  | sign label data => exact hop.elim
  | verify label data sig => exact hop.elim
  | encrypt label data => exact hop.elim
  | deriveAndEncrypt label peer data => exact hop.elim

/-- Such a request can be brought to its end without failure. -/
theorem exists_opened {cn : String} {req : Request} {peer : Option (List UInt8)} {c : HsmCall}
    {iv ct pt : List UInt8} (ha : g.Admits K cn req peer) (hcall : req.hsmCall K peer = some c)
    (hct : c.ciphertext = some (iv, ct))
    (hver : T.expected (.verify g.integrityLabel (integrityPayload req.keyLabel iv ct)
      (req.integrity K)) = some true) (hop : T.Opens pt c) :
    ∃ t, Steps ((g.processRequest K cn req).interp (g.lower K)) t
        (.ret (okResult (K.b64.encode pt))) ∧
      ∀ ev ∈ t, NoFailure T ev ∧ ∀ x, p11Event ev = some x → T.Sound E G x := by
  obtain ⟨rv, -, hrv, tv, htv, hv⟩ := exists_noFailure (E := E) (G := G) T K g
    (.verify g.integrityLabel (integrityPayload req.keyLabel iv ct) (req.integrity K))
    (by simp [HsmCall.Keeps]) (by simp [HsmCall.Keeps])
  obtain ⟨r, hres, hr, t, ht, hc⟩ := exists_noFailure (E := E) (G := G) T K g c
    (fun h s mech key data => (hop.not_keeps h s mech key data).1)
    fun h s mech key data => (hop.not_keeps h s mech key data).2
  obtain rfl : rv = .ok true := HsmCall.eq_ok_of_shape (hrv.trans hver)
  have hexec := Gateway.execute_steps_ok hcall hct (hop.onSuccess (g := g) hres hr req.keyLabel)
  refine (ha.steps hexec (.ok ())).interp fun ev hev => ?_
  -- an operation that is performed as it stands
  have hone : ∀ {a : AppendArgs}, ∃ t', Steps (g.lower K (.append a)) t' (.ret (.ok ())) ∧
      ∀ ev ∈ t', NoFailure T ev ∧ ∀ x, p11Event ev = some x → T.Sound E G x := by
    refine fun {a} => ⟨[⟨.append a, .ok ()⟩], .call (.refl _), fun ev hev => ?_⟩
    rw [List.mem_singleton.mp hev]
    exact ⟨fun _ => rfl, fun x hx => by cases hx⟩
  simp only [List.mem_cons, List.mem_append, List.not_mem_nil, or_false] at hev
  rcases hev with rfl | (rfl | rfl | rfl) | rfl
  · exact hone
  · exact ⟨tv, htv, hv⟩
  · refine ⟨[⟨.spawn, .ran⟩], .call (.refl _), fun ev hev => ?_⟩
    rw [List.mem_singleton.mp hev]
    exact ⟨rfl, fun x hx => by cases hx⟩
  · exact ⟨t, ht, hc⟩
  · exact hone

/-! ### Every run -/

variable [DecidableEq ι]

variable (T E G) in
/-- The HSM may fail at any time, but what it returns otherwise is right by the handles of the
session it is asked in. -/
def soundly (c : Conf lowSig Unit ι Response) (i : ι) (ev : Ev lowSig) : Prop :=
  SoundRun T E G (c.own i ++ [ev])

variable {parse : String → Except String Request} {lines : ι → String × String}
  {c : Conf lowSig Unit ι Response}

theorem soundRun_of_reach
    (hc : Reach anyAnswer (soundly T E G) (g.servingP11 K () parse lines) c) (i : ι) :
    SoundRun T E G (c.own i) := by
  refine Reach.inv (fun c => SoundRun T E G (c.own i)) ⟨T, .start (.refl T)⟩ ?_ hc
  intro c j e k r s' _ hI _ _ hal
  rcases eq_or_ne i j with rfl | hij
  · rw [Conf.advance_own_self]
    exact hal
  · rw [Conf.advance_own_ne c hij]
    exact hI

/-- An encryption answered `ok`, and what the key material says about its result. -/
theorem sealed_of_reach
    (hc : Reach anyAnswer (soundly T E G) (g.servingP11 K () parse lines) c)
    {i : ι} {req : Request} {dataB64 : String} {resp : Response}
    (hreq : parse (lines i).2 = .ok req) (hplain : req.plaintextB64 = some dataB64)
    (hi : c.prog i = .ret resp) (hok : resp.status = .ok) :
    ∃ peer u data iv ct sig, g.Admits K (lines i).1 req peer ∧
      (∀ c r, (⟨.hsm c, r⟩ : Ev gwSig) ∈ u → T.Result E G c r) ∧
      K.b64.decode dataB64 = some data ∧ g.SealedAs K req peer data iv ct sig u resp := by
  have hsteps := hc.own_steps rfl i
  rw [hi] at hsteps
  obtain ⟨t, ht, hres⟩ := results_of_steps hsteps (soundRun_of_reach hc i)
  obtain ⟨req', hreq', hr | ⟨peer, u, ha, hexec, hsub⟩⟩ := Gateway.processLine_answered ht
    (by rw [hok]; exact Response.Status.noConfusion)
  · exact absurd (hok.symm.trans hr.1) (by simp)
  obtain rfl : req = req' := Except.ok.inj (hreq.symm.trans hreq')
  have hpost := (Gateway.execute_sealed (h := []) hplain).post_of_steps hexec
    fun _ _ _ _ => trivial
  obtain ⟨data, iv, ct, sig, hdec, hseal⟩ := hpost hok
  exact ⟨peer, u, data, iv, ct, sig, ha, fun c r hm => hres c r (hsub hm), hdec, hseal⟩

/-- **Round trip.**  Suppose a request to encrypt `data_b64` (under a label's key, or one
derived with a peer key) is answered `ok`, with any other requests before, after and in
between.  Then every request by a client the table permits it, that carries the result
back under the same label and peer key, is answered `ok` with `data_b64`, whatever else
happens, unless the HSM or the audit intent fails on it; and it can be brought to its end
so. -/
theorem roundTrip (hB : K.b64.Lawful) (hT : T.Lawful E G g.integrityLabel)
    (hc : Reach anyAnswer (soundly T E G) (g.servingP11 K () parse lines) c)
    {i : ι} {req : Request} {dataB64 : String} {resp : Response}
    (hreq : parse (lines i).2 = .ok req) (hplain : req.plaintextB64 = some dataB64)
    (hi : c.prog i = .ret resp) (hok : resp.status = .ok) :
    ∃ resultB64 ivB64 integrityB64,
      resp = .ok (some resultB64) none (some ivB64) (some integrityB64) ∧
      ∀ j req', parse (lines j).2 = .ok req' →
        req.carryingBack resultB64 ivB64 integrityB64 = some req' → g.Permits (lines j).1 req' →
        (∀ c' resp', Reach anyAnswer (soundly T E G) c c' → c'.prog j = .ret resp' →
          FailureFree T (c'.own j) → resp' = okResult dataB64) ∧
        (c.own j = [] → ∃ c', Reach anyAnswer (soundly T E G) c c' ∧
          FailureFree T (c'.own j) ∧ c'.prog j = .ret (okResult dataB64)) := by
  obtain ⟨peer, u, data, iv, ct, sig, ha, hres, hdec, hseal⟩ :=
    sealed_of_reach hc hreq hplain hi hok
  refine ⟨_, _, _, hseal.response, fun j req' hreq' hback hperm => ?_⟩
  obtain ⟨call, hcall, hgave⟩ := hseal.call
  -- the key material opens what is carried back, and accepts its seal
  obtain ⟨call', hundone, hop⟩ := hgave.opens hT hres
  obtain ⟨hcall', hinteg, hlabel, hpeer⟩ := Gateway.hsmCall_carryingBack hB hcall hback
  rw [hundone] at hcall'
  have ha' := hperm.admits ha hpeer
  have hct := HsmCall.ciphertext_of_undone hundone
  have hver : T.expected (.verify g.integrityLabel (integrityPayload req'.keyLabel iv ct)
      (req'.integrity K)) = some true := by
    rw [hlabel, hinteg]
    exact hT.expected_verify (hres _ _ hseal.signed)
  rw [← hB.encode_decode dataB64 data hdec]
  constructor
  · intro c' resp' hc' hj hff
    have hsteps := (hc.trans hc').own_steps rfl j
    rw [hj] at hsteps
    obtain ⟨t, ht, hev⟩ := hsteps.of_interp
    rw [Gateway.processLine_of_parse hreq'] at ht
    refine (processRequest_opened (E := E) (G := G) ha' hcall' hct hver hop []).post_of_steps ht ?_
    intro t₁ ev t₂ heq
    obtain ⟨t', ht', hsub⟩ := hev ev (by simp [heq])
    exact clean_of_steps ht' ((soundRun_of_reach (hc.trans hc') j).of_segment hsub)
      (hff.of_segment hsub)
  · intro hown
    obtain ⟨t, ht, hnf⟩ := exists_opened (E := E) (G := G) ha' hcall' hct hver hop
    -- a request that has done nothing is still at its start
    have hstart : c.prog j = (g.processRequest K (lines j).1 req').interp (g.lower K) := by
      have hsteps := hc.own_steps rfl j
      rw [hown] at hsteps
      rw [← hsteps.eq_of_nil]
      exact Gateway.processLineP11_of_parse hreq'
    rw [← hstart] at ht
    -- with handles that stay what they are
    have hsound : ∀ t₁ ev t₂, t = t₁ ++ ev :: t₂ → ∀ c' : Conf lowSig Unit ι Response,
        c'.hist = c.hist ++ t₁.map (Prod.mk j) → soundly T E G c' j ev := by
      intro t₁ ev t₂ heq c' hc'
      rw [soundly, Conf.own_of_hist hc', hown, List.nil_append]
      refine .of_forall fun ev' hev' => (hnf ev' ?_).2
      rw [heq, List.append_cons]
      exact List.mem_append_left _ hev'
    obtain ⟨c', hc', hhist, -, hp⟩ := (Reach.init : Reach anyAnswer (soundly T E G) c c).thread
      (fun _ _ _ => ⟨(), trivial⟩) ht hsound
    refine ⟨c', hc', ?_, hp⟩
    rw [Conf.own_of_hist hhist, hown, List.nil_append]
    exact .of_forall fun ev hev => (hnf ev hev).1

/-- What an HSM does whose handles never change is such a run. -/
theorem reach_exec_soundly {hd : Unit → (e : LowOp) → LowOp.Ret e × Unit}
    (hsound : ∀ e x, p11Event ⟨e, (hd () e).1⟩ = some x → T.Sound E G x) (sched : List ι) :
    Reach anyAnswer (soundly T E G) (g.servingP11 K () parse lines)
      ((g.servingP11 K () parse lines).exec hd sched) := by
  suffices H : ∀ c : Conf lowSig Unit ι Response,
      Reach anyAnswer (soundly T E G) (g.servingP11 K () parse lines) c →
      (∀ i, ∀ ev ∈ c.own i, ∀ x, p11Event ev = some x → T.Sound E G x) →
      Reach anyAnswer (soundly T E G) (g.servingP11 K () parse lines) (c.exec hd sched) from
    H _ .init fun i ev hev => absurd hev (by simp [Conf.own, Gateway.servingP11])
  induction sched with
  | nil => exact fun c hc _ => hc
  | cons i sched ih =>
    intro c hc hown
    have hnew : ∀ e k, c.prog i = .call e k → ∀ ev ∈ c.own i ++ [⟨e, (hd () e).1⟩],
        ∀ x, p11Event ev = some x → T.Sound E G x := by
      intro e k _
      exact List.forall_mem_append.mpr ⟨hown i, List.forall_mem_singleton.mpr (hsound e)⟩
    refine ih _ (hc.turn (fun _ _ => trivial) fun e k hp => .of_forall (hnew e k hp)) fun j => ?_
    rw [Conf.turn]
    rcases hp : c.prog i with a | ⟨e, k⟩
    · exact hown j
    · rcases eq_or_ne j i with rfl | hj
      · dsimp only
        rw [Conf.advance_own_self]
        exact hnew e k hp
      · dsimp only
        rw [Conf.advance_own_ne c hj]
        exact hown j

end Runs

/-! ### A sample round trip -/

namespace Ref

/-- Padding to blocks of 16 bytes, as AES-CBC-PAD has it, and back. -/
def pad (data : List UInt8) : List UInt8 :=
  let n := 16 - data.length % 16
  data ++ List.replicate n (UInt8.ofNat n)

def unpad (ct : List UInt8) : Except Pkcs11Error (List UInt8) :=
  match ct.getLast? with
  | some n => .ok (ct.take (ct.length - n.toNat))
  | none => .error (.pkcs11 (.other 0x41) "CKR_ENCRYPTED_DATA_LEN_RANGE")

theorem unpad_pad (data : List UInt8) : unpad (pad data) = .ok data := by
  obtain ⟨m, hm⟩ : ∃ m, 16 - data.length % 16 = m + 1 := ⟨15 - data.length % 16, by omega⟩
  have hlt : m + 1 < 2 ^ 8 := by omega
  have hlast : (pad data).getLast? = some (UInt8.ofNat (m + 1)) := by
    rw [pad, hm, List.replicate_succ', ← List.append_assoc, List.getLast?_concat]
  have hlen : (pad data).length - (UInt8.ofNat (m + 1)).toNat = data.length := by
    rw [UInt8.toNat_ofNat_of_lt' hlt, pad, hm, List.length_append, List.length_replicate]
    omega
  rw [unpad, hlast]
  dsimp only
  rw [hlen, pad, List.take_left]

/-- The sample token with a mechanism that pads. -/
def padToken : Token Nat := { token with decrypt := fun _ _ ct => unpad ct }

/-- An HSM that pads, and signs as the sample token accepts it. -/
def padAnswer (_ : Unit) : (e : LowOp) → LowOp.Ret e × Unit
  | .append _ => (.ok (), ())
  | .spawn => (.ran, ())
  | .p11 (.encrypt _ _ _ data) => (.ok (pad data), ())
  | .p11 (.sign _ _ _ _) => (.ok [1, 2, 3, 4], ())
  | .p11 op => (padToken.serve op, ())

/-- Its ciphertexts and its signatures. -/
def padCiphertext (key : Nat) (mech : Mechanism) (data ct : List UInt8) : Prop :=
  padToken.decrypt key mech ct = .ok data

def padSignature (_ : Nat) (_ sig : List UInt8) : Prop := sig = [1, 2, 3, 4]

theorem padToken_lawful :
    padToken.Lawful padCiphertext padSignature gateway.integrityLabel where
  decrypt_encrypt _ _ _ _ _ h := h
  verify_sign key data sig _ hsig := by
    obtain rfl : sig = [1, 2, 3, 4] := hsig
    exact ⟨5, rfl, rfl⟩

theorem sound_padAnswer (e : LowOp) : ∀ x, p11Event ⟨e, (padAnswer () e).1⟩ = some x →
    padToken.Sound padCiphertext padSignature x := by
  intro x hx
  cases e with
  | append a => cases hx
  | spawn => cases hx
  | p11 op =>
    cases hx
    cases op with
    | encrypt s mech key data =>
      rintro ct heq
      rw [← Except.ok.inj heq]
      exact unpad_pad data
    | sign s mech key data =>
      rintro sig heq
      exact (Except.ok.inj heq).symm
    | openRwSession slot => trivial
    | login s pin => trivial
    | generateRandom s len => trivial
    | closeSession s => trivial
    | findObjects s template =>
      exact (padToken.good_serve _).sound (fun _ _ _ _ _ h => by cases h)
        fun _ _ _ _ _ h => by cases h
    | verify s mech key data sig =>
      exact (padToken.good_serve _).sound (fun _ _ _ _ _ h => by cases h)
        fun _ _ _ _ _ h => by cases h
    | decrypt s mech key data =>
      exact (padToken.good_serve _).sound (fun _ _ _ _ _ h => by cases h)
        fun _ _ _ _ _ h => by cases h
    | deriveKey s mech base template =>
      exact (padToken.good_serve _).sound (fun _ _ _ _ _ h => by cases h)
        fun _ _ _ _ _ h => by cases h

/-- `app-a` encrypts, `app-b` decrypts. -/
def tripRequest : Bool → Request
  | false => .encrypt "k1" "aes_cbc_pad" "aGVsbG8="
  | true => .decrypt "k1" "aes_cbc_pad" "aGVsbG8LCwsLCwsLCwsLCw==" "BwcHBwcHBwcHBwcHBwcHBw=="
      "AQIDBA=="

def tripLines (b : Bool) : String × String :=
  (if b = true then "app-b" else "app-a", requestText (tripRequest b))

theorem parseRequest_tripLines (b : Bool) : parseRequest (tripLines b).2 = .ok (tripRequest b) :=
  parseRequest_requestText (tripRequest b)

/-- The first request has been answered, the second is still to come. -/
def tripHalf : Conf lowSig Unit Bool Response :=
  (gateway.servingP11 crates () parseRequest tripLines).exec padAnswer (List.replicate 14 false)

theorem tripHalf_prog : tripHalf.prog false = .ret (.ok (some "aGVsbG8LCwsLCwsLCwsLCw==") none
    (some "BwcHBwcHBwcHBwcHBwcHBw==") (some "AQIDBA==")) ∧ tripHalf.own true = [] := by
  have hinit : gateway.servingP11 crates () parseRequest tripLines =
      ⟨(), fun b => (gateway.processRequest crates (if b = true then "app-b" else "app-a")
        (tripRequest b)).interp (gateway.lower crates), []⟩ := by
    simp only [Gateway.servingP11, tripLines,
      Gateway.processLineP11_of_parse (parseRequest_requestText _)]
  rw [tripHalf, hinit]
  exact ⟨rfl, rfl⟩

theorem tripHalf_reach : Reach anyAnswer (soundly padToken padCiphertext padSignature)
    (gateway.servingP11 crates () parseRequest tripLines) tripHalf :=
  reach_exec_soundly (fun e => sound_padAnswer e) _

end Ref

theorem roundTrip_tripLines :
    ∃ c', Reach anyAnswer (soundly Ref.padToken Ref.padCiphertext Ref.padSignature)
        Ref.tripHalf c' ∧ c'.prog true = .ret (okResult "aGVsbG8=") := by
  obtain ⟨hi, hown⟩ := Ref.tripHalf_prog
  obtain ⟨result, iv, integ, hresp, htrip⟩ := roundTrip Ref.base64_lawful Ref.padToken_lawful
    Ref.tripHalf_reach (i := false) (Ref.parseRequest_tripLines false) rfl hi rfl
  cases hresp
  obtain ⟨c', hc', -, hp⟩ := (htrip true (Ref.tripRequest true) (Ref.parseRequest_tripLines true)
    rfl ⟨rfl, fun _ h => by cases h⟩).2 hown
  exact ⟨c', hc', hp⟩

end PicoHsm
