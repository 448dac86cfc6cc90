/-
Encrypt-then-sign over whole runs.

Any number of request lines of any clients are handled at once, in any interleaving;
disk and HSM answer as they like, except that the HSM's ECDSA is ideal: a signature
under the integrity key verifies only on a message that was signed under it before.

* `ciphertext_integrity` — the integrity key signs only what the HSM has just
  encrypted, and the HSM is asked to decrypt only what was sealed, under that label;
* `noCrossKey_iff` — that a ciphertext is decrypted only under the key it was made
  with is not a matter of the seal, which binds the label but neither the kind of key
  nor the peer key: it holds exactly when the configuration keeps them apart.
-/
import PicoHsm.Pipeline
import PicoHsm.Pool

namespace PicoHsm

open Text Effects Prog

/-! ### The payload -/

/-- A payload can be split off the front of a byte string in only one way. -/
theorem integrityPayload_append_inj {L L' : String} {iv iv' ct ct' x y : List UInt8}
    (h₁ : Framing.Short [utf8 L, iv, ct]) (h₂ : Framing.Short [utf8 L', iv', ct'])
    (h : integrityPayload L iv ct ++ x = integrityPayload L' iv' ct' ++ y) :
    (L = L' ∧ iv = iv' ∧ ct = ct') ∧ x = y := by
  have hd : integrityDomain.length < 2 ^ 64 := by decide
  have hsplit : [integrityDomain, utf8 L, iv, ct] = [integrityDomain, utf8 L', iv', ct'] ∧ x = y :=
    Framing.frames_append_inj rfl (h₁.cons hd) (h₂.cons hd) h
  obtain ⟨hparts, hxy⟩ := hsplit
  simp only [List.cons.injEq, true_and, and_true] at hparts
  exact ⟨⟨utf8_inj hparts.1, hparts.2⟩, hxy⟩

theorem integrityPayload_inj {L L' : String} {iv iv' ct ct' : List UInt8}
    (h₁ : Framing.Short [utf8 L, iv, ct]) (h₂ : Framing.Short [utf8 L', iv', ct'])
    (h : integrityPayload L iv ct = integrityPayload L' iv' ct') :
    L = L' ∧ iv = iv' ∧ ct = ct' :=
  (integrityPayload_append_inj (x := []) (y := []) h₁ h₂ (by rw [h])).1

/-- **The payload is unambiguous**, whatever bytes label, IV and ciphertext hold, and
however long the IV is: different triples have different payloads, and no payload is a
proper prefix of another. -/
theorem integrityPayload_unambiguous {L L' : String} {iv iv' ct ct' : List UInt8}
    (h₁ : Framing.Short [utf8 L, iv, ct]) (h₂ : Framing.Short [utf8 L', iv', ct']) :
    (integrityPayload L iv ct = integrityPayload L' iv' ct' → L = L' ∧ iv = iv' ∧ ct = ct') ∧
    (integrityPayload L iv ct <+: integrityPayload L' iv' ct' →
      integrityPayload L iv ct = integrityPayload L' iv' ct') := by
  refine ⟨integrityPayload_inj h₁ h₂, ?_⟩
  rintro ⟨rest, hrest⟩
  obtain ⟨⟨rfl, rfl, rfl⟩, -⟩ := integrityPayload_append_inj (y := []) h₁ h₂
    (hrest.trans (List.append_nil _).symm)
  rfl

/-- A byte moved from the ciphertext to the IV. -/
theorem integrityPayload_unambiguous_shifted :
    integrityPayload "k1" [7] [9, 9] ≠ integrityPayload "k1" [7, 9] [9] ∧
      ¬ integrityPayload "k1" [7] [9, 9] <+: integrityPayload "k1" [7, 9] [9] := by
  have h₁ : Framing.Short [utf8 "k1", [7], [9, 9]] :=
    ((Framing.short_nil.cons (by decide)).cons (by decide)).cons (by decide)
  have h₂ : Framing.Short [utf8 "k1", [7, 9], [9]] :=
    ((Framing.short_nil.cons (by decide)).cons (by decide)).cons (by decide)
  obtain ⟨hinj, hpre⟩ := integrityPayload_unambiguous h₁ h₂
  have hne : integrityPayload "k1" [7] [9, 9] ≠ integrityPayload "k1" [7, 9] [9] :=
    fun h => absurd (hinj h).2.1 (by decide)
  exact ⟨hne, fun h => hne (hpre h)⟩

/-- Label, IV and ciphertext of the request are in memory. -/
def Request.InMemory (K : Crates) (req : Request) : Prop :=
  (utf8 req.keyLabel).length < 2 ^ 64 ∧
    ∀ iv ct, Gateway.Carries K req iv ct → iv.length < 2 ^ 64 ∧ ct.length < 2 ^ 64

/-! ### Effective keys -/

/-- The AES key an operation works with. -/
inductive KeyRef where
  /-- The secret key stored under the label. -/
  | stored (label : String)
  /-- The key derived from the private key under the label and a peer key. -/
  | derived (label : String) (peer : List UInt8)
  deriving DecidableEq, Repr

def KeyRef.label : KeyRef → String
  | .stored label => label
  | .derived label _ => label

/-- The event is an encryption under `k` that gave `iv` and `ct`. -/
def EncryptsTo (ev : Ev gwSig) (iv ct : List UInt8) : KeyRef → Prop
  | .stored label => ∃ data, ev = ⟨.hsm (.encrypt label data), .ok (iv, ct)⟩
  | .derived label peer => ∃ data, ev = ⟨.hsm (.deriveAndEncrypt label peer data), .ok (iv, ct)⟩

/-- The key, IV and ciphertext of a decrypting call. -/
def HsmCall.decrypts : HsmCall → Option (KeyRef × List UInt8 × List UInt8)
  | .decrypt label ct iv => some (.stored label, iv, ct)
  | .deriveAndDecrypt label peer ct iv => some (.derived label peer, iv, ct)
  | _ => none

/-! ### Runs -/

section Runs

variable {ι : Type}

/-- The lines `(cn, line)`, all still to be handled. -/
def Gateway.serving (K : Crates) (g : Gateway) (parse : String → Except String Request)
    (lines : ι → String × String) : Conf gwSig Unit ι Response :=
  ⟨(), fun i => g.processLine K parse (lines i).1 (lines i).2, []⟩

/-- The message was signed under the label. -/
def SignedIn (h : List (ι × Ev gwSig)) (label : String) (m : List UInt8) : Prop :=
  ∃ j sig, (j, (⟨.hsm (.sign label m), .ok sig⟩ : Ev gwSig)) ∈ h

/-- Ideal ECDSA under `I`; and what the HSM returns fits in memory. -/
def idealHsm (I : String) (c : Conf gwSig Unit ι Response) (_ : ι) (ev : Ev gwSig) : Prop :=
  (∀ m sig, ev = ⟨.hsm (.verify I m sig), .ok true⟩ → SignedIn c.hist I m) ∧
    ∀ k iv ct, EncryptsTo ev iv ct k → iv.length < 2 ^ 64 ∧ ct.length < 2 ^ 64

/-- `iv` and `ct` were sealed: the HSM encrypted to them under `k`, and their payload
under the label of `k` was then signed with the key `I`. -/
def Sealed (I : String) (h : List (ι × Ev gwSig)) (k : KeyRef) (iv ct : List UInt8) : Prop :=
  ∃ h₁ j sig h₂ ev,
    h = h₁ ++ (j, ⟨.hsm (.sign I (integrityPayload k.label iv ct)), .ok sig⟩) :: h₂ ∧
      (j, ev) ∈ h₁ ∧ EncryptsTo ev iv ct k

theorem Sealed.append {I : String} {h : List (ι × Ev gwSig)} {k : KeyRef} {iv ct : List UInt8}
    (hs : Sealed I h k iv ct) (h' : List (ι × Ev gwSig)) : Sealed I (h ++ h') k iv ct := by
  obtain ⟨h₁, j, sig, h₂, ev, rfl, hmem, henc⟩ := hs
  exact ⟨h₁, j, sig, h₂ ++ h', ev, by simp, hmem, henc⟩

variable [DecidableEq ι] {K : Crates} {g : Gateway} {parse : String → Except String Request}
  {lines : ι → String × String} {c : Conf gwSig Unit ι Response} {I : String}
  {h₁ h₂ : List (ι × Ev gwSig)} {i : ι}

/-- Every HSM call of a run is mediated. -/
theorem mediated_of_reach (hc : Reach anyAnswer (idealHsm I) (g.serving K parse lines) c)
    {call : HsmCall} {r : call.Ret} (heq : c.hist = h₁ ++ (i, ⟨.hsm call, r⟩) :: h₂) :
    ∃ req, parse (lines i).2 = .ok req ∧
      g.Mediated K (lines i).1 req (proj i h₁) (.hsm call) :=
  hc.guar rfl (Gateway.processLine_lineMediated parse (lines i).1 (lines i).2 []) heq

/-- The integrity key signs only what was encrypted for the same request. -/
theorem encrypted_of_sign (hinv : AuthzTable.Inv K g.integrityLabel g.authz)
    (hc : Reach anyAnswer (idealHsm I) (g.serving K parse lines) c) {m : List UInt8}
    {r : Except String (List UInt8)}
    (heq : c.hist = h₁ ++ (i, ⟨.hsm (.sign g.integrityLabel m), r⟩) :: h₂) :
    ∃ req k iv ct ev, parse (lines i).2 = .ok req ∧ k.label = req.keyLabel ∧
      m = integrityPayload k.label iv ct ∧ (i, ev) ∈ h₁ ∧ EncryptsTo ev iv ct k := by
  obtain ⟨req, hreq, peer, hadm, -, hpr⟩ := mediated_of_reach hc heq
  have hgrant := AuthzTable.isAuthorized_iff.mp hadm.1
  rcases hpr with ⟨hlabel, -⟩ | ⟨-, iv, ct, rfl, data, hmem | hmem⟩
  · -- a client's own signing key is never the integrity key
    exact absurd hlabel.symm (hinv.label_ne _ hgrant)
  · exact ⟨req, .stored req.keyLabel, iv, ct, _, hreq, rfl, rfl, mem_proj.mp hmem, data, rfl⟩
  · exact ⟨req, .derived req.keyLabel (peer.getD []), iv, ct, _, hreq, rfl, rfl,
      mem_proj.mp hmem, data, rfl⟩

/-- The HSM decrypts only what was checked against the integrity key. -/
theorem checked_of_decrypt {call : HsmCall} {r : call.Ret} {k : KeyRef} {iv ct : List UInt8}
    (hc : Reach anyAnswer (idealHsm I) (g.serving K parse lines) c)
    (heq : c.hist = h₁ ++ (i, ⟨.hsm call, r⟩) :: h₂) (hd : call.decrypts = some (k, iv, ct)) :
    ∃ req, parse (lines i).2 = .ok req ∧ k.label = req.keyLabel ∧ Gateway.Carries K req iv ct ∧
      g.Checked (proj i h₁) req.keyLabel iv ct := by
  obtain ⟨req, hreq, peer, -, -, hpr⟩ := mediated_of_reach hc heq
  cases call with
  | decrypt label ct' iv' =>
    cases hd
    exact ⟨req, hreq, hpr.1, hpr.2.2⟩
  | deriveAndDecrypt label peer' ct' iv' =>
    cases hd
    exact ⟨req, hreq, hpr.1, hpr.2.2.2⟩
  | sign label data => cases hd
  | verify label data sig => cases hd
  | encrypt label data => cases hd
  | deriveAndEncrypt label peer' data => cases hd

/-- What was checked against the integrity key was sealed before. -/
theorem sealed_of_checked (hinv : AuthzTable.Inv K g.integrityLabel g.authz)
    (hmem : ∀ i req, parse (lines i).2 = .ok req → req.InMemory K)
    (hc : Reach anyAnswer (idealHsm g.integrityLabel) (g.serving K parse lines) c)
    (hpre : h₁ <+: c.hist) {req : Request} (hreq : parse (lines i).2 = .ok req)
    {iv ct : List UInt8} (hcar : Gateway.Carries K req iv ct)
    (hchk : g.Checked (proj i h₁) req.keyLabel iv ct) :
    ∃ k, k.label = req.keyLabel ∧ Sealed g.integrityLabel h₁ k iv ct := by
  obtain ⟨sig, hsig⟩ := hchk
  obtain ⟨a, b, rfl⟩ := List.append_of_mem (mem_proj.mp hsig)
  obtain ⟨rest, hrest⟩ := hpre
  rw [List.append_assoc, List.cons_append] at hrest
  -- when the signature was found valid, its message had been signed
  obtain ⟨c', hc', rfl, hideal, -⟩ := hc.allowed rfl hrest.symm
  obtain ⟨j, sig', hsigned⟩ := hideal _ sig rfl
  obtain ⟨a₁, a₂, ha⟩ := List.append_of_mem hsigned
  -- and what is signed had been encrypted
  obtain ⟨req', k, iv', ct', ev, hreq', hk, hm, hev, henc⟩ := encrypted_of_sign hinv hc' ha
  obtain ⟨b₁, b₂, rfl⟩ := List.append_of_mem hev
  have ha' := ha
  rw [List.append_assoc, List.cons_append] at ha'
  obtain ⟨_, -, -, -, hshort⟩ := hc'.allowed rfl ha'
  obtain ⟨hiv', hct'⟩ := hshort k iv' ct' henc
  obtain ⟨hlab, hfields⟩ := hmem i req hreq
  obtain ⟨hiv, hct⟩ := hfields iv ct hcar
  have hlab' := (hmem j req' hreq').1
  rw [← hk] at hlab'
  obtain ⟨hL, rfl, rfl⟩ := integrityPayload_inj
    (((Framing.short_nil.cons hct).cons hiv).cons hlab)
    (((Framing.short_nil.cons hct').cons hiv').cons hlab') hm
  refine ⟨k, hL.symm, ?_⟩
  rw [ha, hL]
  exact Sealed.append ⟨_, j, sig', a₂, ev, rfl, hev, henc⟩ _

/-- **Ciphertext integrity.**  Under a loaded configuration, in every run from a state in
which nothing has been signed under the integrity key: every message it is asked to sign
is the payload of a label, IV and ciphertext that the HSM has returned before for a
request on that label; and the HSM is asked to decrypt only an IV and a ciphertext that
were sealed before under that label. -/
theorem ciphertext_integrity {cfg : FileConfig}
    (hcfg : AuthzTable.fromConfig K cfg g.integrityLabel = .ok g.authz)
    (hmem : ∀ i req, parse (lines i).2 = .ok req → req.InMemory K)
    (hc : Reach anyAnswer (idealHsm g.integrityLabel) (g.serving K parse lines) c) :
    (∀ h₁ i m r h₂, c.hist = h₁ ++ (i, ⟨.hsm (.sign g.integrityLabel m), r⟩) :: h₂ →
      ∃ k iv ct j ev, m = integrityPayload k.label iv ct ∧ (j, ev) ∈ h₁ ∧ EncryptsTo ev iv ct k) ∧
    (∀ h₁ i call r h₂ k iv ct, c.hist = h₁ ++ (i, ⟨.hsm call, r⟩) :: h₂ →
      call.decrypts = some (k, iv, ct) →
      ∃ k', k'.label = k.label ∧ Sealed g.integrityLabel h₁ k' iv ct) := by
  have hinv := AuthzTable.fromConfig_inv hcfg
  constructor
  · intro h₁ i m r h₂ heq
    obtain ⟨req, k, iv, ct, ev, -, -, hm, hev, henc⟩ := encrypted_of_sign hinv hc heq
    exact ⟨k, iv, ct, i, ev, hm, hev, henc⟩
  · intro h₁ i call r h₂ k iv ct heq hd
    obtain ⟨req, hreq, hk, hcar, hchk⟩ := checked_of_decrypt hc heq hd
    obtain ⟨k', hk', hs⟩ := sealed_of_checked hinv hmem hc ⟨_, heq.symm⟩ hreq hcar hchk
    exact ⟨k', hk'.trans hk.symm, hs⟩

end Runs

/-! ### Which keys a client can make the HSM use -/

section Keys

/-- The client may use the key `k`, by a grant for `plain` or one for `derive`. -/
def May (K : Crates) (t : AuthzTable) (cn : String) (plain derive : Operation) : KeyRef → Prop
  | .stored label => (cn, plain, label) ∈ t.grants
  | .derived label peer => ∃ set peerB64, t.peerKeys.lookup (cn, derive, label) = some set ∧
      peerB64 ∈ set ∧ K.b64.decode peerB64 = some peer

def MayEncrypt (K : Crates) (t : AuthzTable) (cn : String) (k : KeyRef) : Prop :=
  May K t cn .encrypt .deriveAndEncrypt k

def MayDecrypt (K : Crates) (t : AuthzTable) (cn : String) (k : KeyRef) : Prop :=
  May K t cn .decrypt .deriveAndDecrypt k

/-- No label is granted for encryption under one key and for decryption under another. -/
def KeySeparated (K : Crates) (t : AuthzTable) : Prop :=
  ∀ cn₁ cn₂ k₁ k₂, MayEncrypt K t cn₁ k₁ → MayDecrypt K t cn₂ k₂ → k₁.label = k₂.label → k₁ = k₂

variable {K : Crates} {g : Gateway} {cn : String} {req : Request} {h : List (Ev gwSig)}
  {ev : Ev gwSig} {k k₁ k₂ : KeyRef} {iv ct : List UInt8}

/-- What a derive request of an admitted client may use. -/
theorem Gateway.Admits.may_derived {peer : Option (List UInt8)} {plain derive : Operation}
    (hadm : g.Admits K cn req peer) (hop : req.operation = derive) (hd : derive.isDerive = true) :
    May K g.authz cn plain derive (.derived req.keyLabel (peer.getD [])) := by
  subst hop
  obtain ⟨peerB64, bytes, set, -, rfl, hdec, hset, hmem⟩ := hadm.peer_eq hd
  exact ⟨set, peerB64, hset, hmem, hdec⟩

theorem mayEncrypt_of_mediated {parse : String → Except String Request} {line : String}
    (hm : g.LineMediated K parse cn line h ev.op) (he : EncryptsTo ev iv ct k) :
    MayEncrypt K g.authz cn k := by
  cases k with
  | stored label =>
    obtain ⟨data, rfl⟩ := he
    obtain ⟨req, -, peer, hadm, -, rfl, hop⟩ := hm
    have hgrant := AuthzTable.isAuthorized_iff.mp hadm.1
    rwa [hop] at hgrant
  | derived label peer =>
    obtain ⟨data, rfl⟩ := he
    obtain ⟨req, -, peer', hadm, -, rfl, hop, rfl⟩ := hm
    exact hadm.may_derived hop rfl

theorem mayDecrypt_of_mediated {call : HsmCall} (hm : g.Mediated K cn req h (.hsm call))
    (hd : call.decrypts = some (k, iv, ct)) : MayDecrypt K g.authz cn k := by
  obtain ⟨peer, hadm, -, hpr⟩ := hm
  cases call with
  | decrypt label ct' iv' =>
    cases hd
    obtain ⟨rfl, hop, -⟩ := hpr
    have hgrant := AuthzTable.isAuthorized_iff.mp hadm.1
    rwa [hop] at hgrant
  | deriveAndDecrypt label peer' ct' iv' =>
    cases hd
    obtain ⟨rfl, hop, rfl, -⟩ := hpr
    exact hadm.may_derived hop rfl
  | sign label data => cases hd
  | verify label data sig => cases hd
  | encrypt label data => cases hd
  | deriveAndEncrypt label peer' data => cases hd

/-! ### Replay across keys -/

/-- What the HSM was asked to decrypt, it had encrypted under the same key. -/
def NoCrossKey {ι : Type} (c : Conf gwSig Unit ι Response) : Prop :=
  ∀ h₁ i call r h₂ k iv ct, c.hist = h₁ ++ (i, ⟨.hsm call, r⟩) :: h₂ →
    call.decrypts = some (k, iv, ct) → ∃ j ev, (j, ev) ∈ h₁ ∧ EncryptsTo ev iv ct k

theorem noCrossKey_of_separated {ι : Type} [DecidableEq ι]
    {parse : String → Except String Request} {lines : ι → String × String}
    {c : Conf gwSig Unit ι Response} (hinv : AuthzTable.Inv K g.integrityLabel g.authz)
    (hsep : KeySeparated K g.authz)
    (hmem : ∀ i req, parse (lines i).2 = .ok req → req.InMemory K)
    (hc : Reach anyAnswer (idealHsm g.integrityLabel) (g.serving K parse lines) c) :
    NoCrossKey c := by
  intro h₁ i call r h₂ k iv ct heq hd
  obtain ⟨req, hreq, hk, hcar, hchk⟩ := checked_of_decrypt hc heq hd
  obtain ⟨k', hk', a, j, sig, b, ev, rfl, hev, henc⟩ :=
    sealed_of_checked hinv hmem hc ⟨_, heq.symm⟩ hreq hcar hchk
  obtain ⟨req', -, hmed⟩ := mediated_of_reach hc heq
  -- the encryption that was sealed is under a key on the same label
  obtain ⟨a₁, a₂, rfl⟩ := List.append_of_mem hev
  have heq' := heq
  simp only [List.append_assoc, List.cons_append] at heq'
  have hmed' := hc.guar rfl (Gateway.processLine_lineMediated parse (lines j).1 (lines j).2 [])
    heq'
  have hkk : k' = k := hsep _ _ k' k (mayEncrypt_of_mediated hmed' henc)
    (mayDecrypt_of_mediated hmed hd) (hk'.trans hk.symm)
  subst hkk
  exact ⟨j, ev, List.mem_append_left _ hev, henc⟩

/-! ### A run that replays -/

variable (K g)

/-- A client's request to encrypt under `k`. -/
def encryptRequest : KeyRef → Request
  | .stored label => .encrypt label mechAesCbcPad (K.b64.encode [5])
  | .derived label peer => .deriveAndEncrypt label mechEcdh1Derive mechAesCbcPad
      (K.b64.encode peer) (K.b64.encode [5])

/-- What the HSM returns to it: a ciphertext, and a signature over it. -/
def sampleIv : List UInt8 := List.replicate 16 7

def sampleCt : List UInt8 := [9, 9]

def sampleSig : List UInt8 := [1, 2, 3, 4]

/-- A client's request to decrypt this under `k`. -/
def decryptRequest : KeyRef → Request
  | .stored label => .decrypt label mechAesCbcPad (K.b64.encode sampleCt) (K.b64.encode sampleIv)
      (K.b64.encode sampleSig)
  | .derived label peer => .deriveAndDecrypt label mechEcdh1Derive mechAesCbcPad
      (K.b64.encode peer) (K.b64.encode sampleIv) (K.b64.encode sampleSig)
      (K.b64.encode sampleCt)

def encryptEvent : KeyRef → Ev gwSig
  | .stored label => ⟨.hsm (.encrypt label [5]), .ok (sampleIv, sampleCt)⟩
  | .derived label peer => ⟨.hsm (.deriveAndEncrypt label peer [5]), .ok (sampleIv, sampleCt)⟩

def decryptEvent : KeyRef → Ev gwSig
  | .stored label => ⟨.hsm (.decrypt label sampleCt sampleIv), .ok [5]⟩
  | .derived label peer => ⟨.hsm (.deriveAndDecrypt label peer sampleCt sampleIv), .ok [5]⟩

/-- Encrypting under `k` and sealing. -/
def sealTrace (k : KeyRef) : List (Ev gwSig) :=
  [⟨.spawn, .ran⟩, encryptEvent k,
    ⟨.hsm (.sign g.integrityLabel (integrityPayload k.label sampleIv sampleCt)), .ok sampleSig⟩]

/-- Checking the seal and decrypting under `k`. -/
def openTrace (k : KeyRef) : List (Ev gwSig) :=
  [⟨.hsm (.verify g.integrityLabel (integrityPayload k.label sampleIv sampleCt) sampleSig),
      .ok true⟩, ⟨.spawn, .ran⟩, decryptEvent k]

/-- The peer key of a key. -/
def KeyRef.peer : KeyRef → Option (List UInt8)
  | .stored _ => none
  | .derived _ peer => some peer

variable {K g}

theorem steps_encryptRequest (hB : K.b64.Lawful) (k : KeyRef) :
    Steps (g.execute K (encryptRequest K k) k.peer) (sealTrace g k)
      (.ret (.ok (some (K.b64.encode sampleCt)) none (some (K.b64.encode sampleIv))
        (some (K.b64.encode sampleSig)))) := by
  cases k with
  | stored label =>
    rw [encryptRequest, Gateway.execute, Gateway.executeEncrypt, if_neg (by simp), b64,
      hB.decode_encode]
    exact .call (.call (.call (.refl _)))
  | derived label peer =>
    rw [encryptRequest, Gateway.execute, Gateway.executeDeriveAndEncrypt, if_neg (by simp), b64,
      hB.decode_encode]
    exact .call (.call (.call (.refl _)))

theorem steps_decryptRequest (hB : K.b64.Lawful) (k : KeyRef) :
    Steps (g.execute K (decryptRequest K k) k.peer) (openTrace g k)
      (.ret (okResult (K.b64.encode [5]))) := by
  cases k with
  | stored label =>
    rw [decryptRequest, Gateway.execute, Gateway.executeDecrypt, if_neg (by simp),
      Gateway.withIntegrity]
    simp only [Request.integrityInput, b64, hB.decode_encode]
    exact .call (.call (.call (.refl _)))
  | derived label peer =>
    rw [decryptRequest, Gateway.execute, Gateway.executeDeriveAndDecrypt, if_neg (by simp),
      Gateway.withIntegrity]
    simp only [Request.integrityInput, b64, hB.decode_encode]
    exact .call (.call (.call (.refl _)))

theorem May.granted {plain derive : Operation} (hinv : AuthzTable.Inv K g.integrityLabel g.authz)
    (hk : May K g.authz cn plain derive k) : ∃ op, (cn, op, k.label) ∈ g.authz.grants := by
  cases k with
  | stored label => exact ⟨plain, hk⟩
  | derived label peer =>
    obtain ⟨set, peerB64, hset, -⟩ := hk
    exact ⟨derive, hinv.mem_grants hset⟩

/-- The client's request passes the gates if it may use the key. -/
theorem admits_of_may (hB : K.b64.Lawful) (hinv : AuthzTable.Inv K g.integrityLabel g.authz)
    {plain derive : Operation} (hk : May K g.authz cn plain derive k)
    (hreq : req.keyLabel = k.label)
    (hop : match k with
      | .stored _ => req.operation = plain ∧ req.peerPublicKeyB64 = none
      | .derived _ peer =>
        req.operation = derive ∧ req.peerPublicKeyB64 = some (K.b64.encode peer)) :
    g.Admits K cn req k.peer := by
  cases k with
  | stored label =>
    obtain ⟨hop, hpeer⟩ := hop
    refine ⟨AuthzTable.isAuthorized_iff.mpr ?_, ?_⟩
    · rw [hop, hreq]
      exact hk
    · rw [Gateway.peerKey, hpeer]
      rfl
  | derived label peer =>
    obtain ⟨hop, hpeer⟩ := hop
    obtain ⟨set, peerB64, hset, hmem, hdec⟩ := hk
    -- the text in the allowlist is the canonical one
    have henc : K.b64.encode peer = peerB64 := hB.encode_decode _ _ hdec
    refine ⟨AuthzTable.isAuthorized_iff.mpr ?_, ?_⟩
    · rw [hop, hreq]
      exact hinv.mem_grants hset
    · have hauth : g.authz.isPeerKeyAuthorized cn req.operation req.keyLabel peerB64 = true := by
        rw [hop, hreq]
        exact AuthzTable.isPeerKeyAuthorized_iff.mpr ⟨set, hset, hmem⟩
      rw [Gateway.peerKey, hpeer, henc]
      dsimp only
      rw [hdec]
      dsimp only
      rw [if_neg (by rw [hauth]; simp)]
      rfl

theorem admits_encryptRequest (hB : K.b64.Lawful)
    (hinv : AuthzTable.Inv K g.integrityLabel g.authz) (hk : MayEncrypt K g.authz cn k) :
    g.Admits K cn (encryptRequest K k) k.peer :=
  admits_of_may hB hinv hk (by cases k <;> rfl) (by cases k <;> exact ⟨rfl, rfl⟩)

theorem admits_decryptRequest (hB : K.b64.Lawful)
    (hinv : AuthzTable.Inv K g.integrityLabel g.authz) (hk : MayDecrypt K g.authz cn k) :
    g.Admits K cn (decryptRequest K k) k.peer :=
  admits_of_may hB hinv hk (by cases k <;> rfl) (by cases k <;> exact ⟨rfl, rfl⟩)

/-- The events of the two requests, one after the other. -/
def replayTrace (K : Crates) (g : Gateway) (cn₁ cn₂ : String) (k₁ k₂ : KeyRef) :
    List (ℕ × Ev gwSig) :=
  (Gateway.intentOk cn₁ (encryptRequest K k₁) :: (sealTrace g k₁ ++
    [⟨.append (Gateway.entryFor cn₁ (encryptRequest K k₁) .authorized ""), .ok ()⟩])).map
      (Prod.mk 0) ++
  (Gateway.intentOk cn₂ (decryptRequest K k₂) :: (openTrace g k₂ ++
    [⟨.append (Gateway.entryFor cn₂ (decryptRequest K k₂) .authorized ""), .ok ()⟩])).map
      (Prod.mk 1)

theorem encryptsTo_encryptEvent : EncryptsTo (encryptEvent k) iv ct k₂ ↔
    k₂ = k ∧ iv = sampleIv ∧ ct = sampleCt := by
  constructor
  · intro h
    cases k <;> cases k₂ <;> obtain ⟨data, h⟩ := h <;> cases h <;> exact ⟨rfl, rfl, rfl⟩
  · rintro ⟨rfl, rfl, rfl⟩
    cases k₂ <;> exact ⟨_, rfl⟩

/-- Only these calls encrypt. -/
def GwOp.isEncrypt : GwOp → Bool
  | .hsm (.encrypt _ _) => true
  | .hsm (.deriveAndEncrypt _ _ _) => true
  | _ => false

theorem EncryptsTo.isEncrypt (h : EncryptsTo ev iv ct k) : ev.op.isEncrypt = true := by
  cases k <;> obtain ⟨data, rfl⟩ := h <;> rfl

section Ideal

variable {c : Conf gwSig Unit ℕ Response} {i : ℕ} {I : String}

theorem idealHsm_of_op (hv : ∀ m sig, ev.op ≠ .hsm (.verify I m sig))
    (he : ev.op.isEncrypt = false) : idealHsm I c i ev := by
  constructor
  · rintro m sig rfl
    exact absurd rfl (hv m sig)
  · intro k iv ct h
    rw [h.isEncrypt] at he
    cases he

theorem idealHsm_encryptEvent : idealHsm I c i (encryptEvent k) := by
  constructor
  · intro m sig h
    cases k <;> cases h
  · intro k' iv ct h
    obtain ⟨-, rfl, rfl⟩ := encryptsTo_encryptEvent.mp h
    exact ⟨by decide, by decide⟩

theorem idealHsm_decryptEvent : idealHsm I c i (decryptEvent k) := by
  cases k <;> exact idealHsm_of_op (fun _ _ h => by cases h) rfl

end Ideal

/-- A ciphertext sealed under `k₁` is decrypted under any `k₂` on the same label, if
clients may use these keys. -/
theorem replay_run (hB : K.b64.Lawful) (hinv : AuthzTable.Inv K g.integrityLabel g.authz)
    {parse : String → Except String Request} {lines : ℕ → String × String}
    (h₁ : parse (lines 0).2 = .ok (encryptRequest K k₁))
    (h₂ : parse (lines 1).2 = .ok (decryptRequest K k₂))
    (hm₁ : MayEncrypt K g.authz (lines 0).1 k₁) (hm₂ : MayDecrypt K g.authz (lines 1).1 k₂)
    (hlabel : k₁.label = k₂.label) :
    ∃ c, Reach anyAnswer (idealHsm g.integrityLabel) (g.serving K parse lines) c ∧
      c.hist = replayTrace K g (lines 0).1 (lines 1).1 k₁ k₂ := by
  have hs₁ := (admits_encryptRequest hB hinv hm₁).steps (steps_encryptRequest hB k₁) (.ok ())
  have hs₂ := (admits_decryptRequest hB hinv hm₂).steps (steps_decryptRequest hB k₂) (.ok ())
  have hp₁ : (g.serving K parse lines).prog 0 =
      g.processRequest K (lines 0).1 (encryptRequest K k₁) :=
    Gateway.processLine_of_parse h₁
  have hp₂ : (g.serving K parse lines).prog 1 =
      g.processRequest K (lines 1).1 (decryptRequest K k₂) :=
    Gateway.processLine_of_parse h₂
  have hany : ∀ s (ev : Ev gwSig), ∃ s', anyAnswer s ev s' := fun _ _ => ⟨(), trivial⟩
  have hinit : Reach anyAnswer (idealHsm g.integrityLabel) (g.serving K parse lines)
      (g.serving K parse lines) := .init
  rw [← hp₁] at hs₁
  -- the encrypting request runs to its end
  obtain ⟨c₁, hc₁, hhist₁, hne₁, -⟩ := hinit.thread (fun s ev _ => hany s ev) hs₁ (by
    intro t₁ ev t₂ heq c' _
    have hev : ev ∈ t₁ ++ ev :: t₂ := by simp
    rw [← heq] at hev
    simp only [Gateway.intentOk, sealTrace, List.cons_append, List.nil_append, List.mem_cons,
      List.not_mem_nil, or_false] at hev
    rcases hev with rfl | rfl | rfl | rfl | rfl
    · exact idealHsm_of_op (fun _ _ h => by cases h) rfl
    · exact idealHsm_of_op (fun _ _ h => by cases h) rfl
    · exact idealHsm_encryptEvent
    · exact idealHsm_of_op (fun _ _ h => by cases h) rfl
    · exact idealHsm_of_op (fun _ _ h => by cases h) rfl)
  rw [← hp₂, ← hne₁ 1 (by decide)] at hs₂
  -- then the decrypting one
  obtain ⟨c₂, hc₂, hhist₂, -, -⟩ := hc₁.thread (fun s ev _ => hany s ev) hs₂ (by
    intro t₁ ev t₂ heq c' hc'
    have hev : ev ∈ t₁ ++ ev :: t₂ := by simp
    rw [← heq] at hev
    simp only [Gateway.intentOk, openTrace, List.cons_append, List.nil_append, List.mem_cons,
      List.not_mem_nil, or_false] at hev
    rcases hev with rfl | rfl | rfl | rfl | rfl
    · exact idealHsm_of_op (fun _ _ h => by cases h) rfl
    · -- the payload was signed by the first request
      refine ⟨fun m sig h => ?_, fun k iv ct h => absurd h.isEncrypt Bool.false_ne_true⟩
      cases h
      refine ⟨0, sampleSig, ?_⟩
      rw [hc', hhist₁, ← hlabel]
      simp [sealTrace]
    · exact idealHsm_of_op (fun _ _ h => by cases h) rfl
    · exact idealHsm_decryptEvent
    · exact idealHsm_of_op (fun _ _ h => by cases h) rfl)
  refine ⟨c₂, hc₂, ?_⟩
  rw [hhist₂, hhist₁]
  rfl

/-- In that run the HSM decrypts under `k₂`, and has encrypted under `k₁` only. -/
theorem eq_of_noCrossKey {c : Conf gwSig Unit ℕ Response} {cn₁ cn₂ : String}
    (hhist : c.hist = replayTrace K g cn₁ cn₂ k₁ k₂) (hc : NoCrossKey c) : k₁ = k₂ := by
  obtain ⟨call, r, hev, hd⟩ : ∃ call r, decryptEvent k₂ = (⟨.hsm call, r⟩ : Ev gwSig) ∧
      call.decrypts = some (k₂, sampleIv, sampleCt) := by
    cases k₂ <;> exact ⟨_, _, rfl, rfl⟩
  obtain ⟨before, after, hsplit, hbefore⟩ : ∃ before after,
      c.hist = before ++ (1, decryptEvent k₂) :: after ∧
      ∀ j ev, (j, ev) ∈ before → ev = encryptEvent k₁ ∨ ev.op.isEncrypt = false := by
    -- the decryption is the ninth event; of those before, one encrypts
    refine ⟨(replayTrace K g cn₁ cn₂ k₁ k₂).take 8, _, hhist, ?_⟩
    intro j ev hmem
    simp only [replayTrace, sealTrace, openTrace, Gateway.intentOk, List.cons_append,
      List.nil_append, List.map_cons, List.map_nil, List.take_succ_cons, List.take_zero,
      List.mem_cons, Prod.mk.injEq, List.not_mem_nil, or_false] at hmem
    rcases hmem with ⟨-, rfl⟩ | ⟨-, rfl⟩ | ⟨-, rfl⟩ | ⟨-, rfl⟩ | ⟨-, rfl⟩ | ⟨-, rfl⟩ | ⟨-, rfl⟩ |
      ⟨-, rfl⟩
    all_goals first | exact Or.inl rfl | exact Or.inr rfl
  rw [hev] at hsplit
  obtain ⟨j, ev, hmem, henc⟩ := hc _ _ _ _ _ _ _ _ hsplit hd
  rcases hbefore j ev hmem with rfl | hno
  · exact (encryptsTo_encryptEvent.mp henc).1.symm
  · rw [henc.isEncrypt] at hno
    cases hno

/-- The two requests are in memory if the label is. -/
theorem inMemory_encryptRequest (hlen : (utf8 k.label).length < 2 ^ 64) :
    (encryptRequest K k).InMemory K := by
  cases k <;> refine ⟨hlen, ?_⟩ <;> rintro iv ct ⟨_, _, _, h, -⟩ <;> cases h

theorem inMemory_decryptRequest (hB : K.b64.Lawful) (hlen : (utf8 k.label).length < 2 ^ 64) :
    (decryptRequest K k).InMemory K := by
  cases k <;> refine ⟨hlen, ?_⟩ <;> rintro iv ct ⟨_, _, _, h, hiv, hct⟩ <;> cases h <;>
    rw [hB.decode_encode, Option.some_inj] at hiv hct <;> rw [← hiv, ← hct] <;>
    exact ⟨by decide, by decide⟩

/-- **When the seal keeps keys apart.**  Decryption only under the key of the encryption
holds in all runs exactly when no label is granted for encryption under one effective key
and for decryption under another. -/
theorem noCrossKey_iff (hB : K.b64.Lawful) {cfg : FileConfig}
    (hcfg : AuthzTable.fromConfig K cfg g.integrityLabel = .ok g.authz)
    {parse : String → Except String Request} (hparse : ∀ req, ∃ line, parse line = .ok req)
    (hlen : ∀ gr ∈ g.authz.grants, (utf8 gr.2.2).length < 2 ^ 64) :
    (∀ (lines : ℕ → String × String) c, (∀ i req, parse (lines i).2 = .ok req → req.InMemory K) →
      Reach anyAnswer (idealHsm g.integrityLabel) (g.serving K parse lines) c → NoCrossKey c) ↔
    KeySeparated K g.authz := by
  have hinv := AuthzTable.fromConfig_inv hcfg
  constructor
  · intro hall cn₁ cn₂ k₁ k₂ hm₁ hm₂ hlabel
    obtain ⟨line₁, h₁⟩ := hparse (encryptRequest K k₁)
    obtain ⟨line₂, h₂⟩ := hparse (decryptRequest K k₂)
    obtain ⟨c, hc, hhist⟩ := @replay_run K g k₁ k₂ hB hinv parse
      (fun i => if i = 0 then (cn₁, line₁) else (cn₂, line₂)) h₁ h₂ hm₁ hm₂ hlabel
    refine eq_of_noCrossKey hhist (hall _ c ?_ hc)
    obtain ⟨op, hgrant⟩ := May.granted hinv hm₂
    have hlab : (utf8 k₂.label).length < 2 ^ 64 := hlen _ hgrant
    intro i req hreq
    by_cases hi : i = 0
    · rw [if_pos hi, h₁, Except.ok.injEq] at hreq
      rw [← hreq]
      exact inMemory_encryptRequest (hlabel ▸ hlab)
    · rw [if_neg hi, h₂, Except.ok.injEq] at hreq
      rw [← hreq]
      exact inMemory_decryptRequest hB hlab
  · intro hsep lines c hmem hc
    exact noCrossKey_of_separated hinv hsep hmem hc

end Keys

/-! ### Two clients with one label -/

/-- `app-a` derives with its peer key and encrypts; `app-b` presents the ciphertext for
another one. -/
def replayLines : ℕ → String × String
  | 0 => ("app-a", Ref.requestText (encryptRequest Ref.crates (.derived "k1" (utf8 "peer-a"))))
  | _ => ("app-b", Ref.requestText (decryptRequest Ref.crates (.derived "k1" (utf8 "peer-b"))))

/-- **A replay across peer keys.**  The ciphertext sealed for one peer key passes the
integrity check and is decrypted under the key derived with the other one. -/
theorem crossKey_replayLines :
    ∃ c, Reach anyAnswer (idealHsm "gateway-integrity")
        (Ref.gateway.serving Ref.crates Ref.parseRequest replayLines) c ∧ ¬ NoCrossKey c := by
  obtain ⟨c, hc, hhist⟩ := @replay_run Ref.crates Ref.gateway (.derived "k1" (utf8 "peer-a"))
    (.derived "k1" (utf8 "peer-b")) Ref.base64_lawful
    (AuthzTable.fromConfig_inv Ref.gateway_loaded) Ref.parseRequest replayLines
    (Ref.parseRequest_requestText _) (Ref.parseRequest_requestText _)
    ⟨_, "cGVlci1h", rfl, by decide, by decide⟩ ⟨_, "cGVlci1i", rfl, by decide, by decide⟩ rfl
  exact ⟨c, hc, fun hno => absurd (eq_of_noCrossKey hhist hno) (by decide)⟩

/-- Reading back: one client encrypts under `k1`, another one decrypts. -/
def readBack (cn₁ cn₂ : String) : ℕ → String × String
  | 0 => (cn₁, Ref.requestText (encryptRequest Ref.crates (.stored "k1")))
  | _ => (cn₂, Ref.requestText (decryptRequest Ref.crates (.stored "k1")))

theorem inMemory_readBack (cn₁ cn₂ : String) (i : ℕ) (req : Request)
    (hreq : Ref.parseRequest (readBack cn₁ cn₂ i).2 = .ok req) : req.InMemory Ref.crates := by
  rcases i with _ | i
  · rw [readBack, Ref.parseRequest_requestText, Except.ok.injEq] at hreq
    rw [← hreq]
    exact inMemory_encryptRequest (by decide)
  · change Ref.parseRequest (Ref.requestText _) = _ at hreq
    rw [Ref.parseRequest_requestText, Except.ok.injEq] at hreq
    rw [← hreq]
    exact inMemory_decryptRequest Ref.base64_lawful (by decide)

theorem ciphertext_integrity_readBack :
    ∃ k', k'.label = "k1" ∧ Sealed "gateway-integrity"
      ((replayTrace Ref.crates Ref.gateway "app-a" "app-b" (.stored "k1") (.stored "k1")).take 8)
      k' sampleIv sampleCt := by
  obtain ⟨c, hc, hhist⟩ := @replay_run Ref.crates Ref.gateway (.stored "k1") (.stored "k1")
    Ref.base64_lawful (AuthzTable.fromConfig_inv Ref.gateway_loaded) Ref.parseRequest
    (readBack "app-a" "app-b")
    (Ref.parseRequest_requestText _) (Ref.parseRequest_requestText _)
    (show ("app-a", Operation.encrypt, "k1") ∈ Ref.gateway.authz.grants by decide)
    (show ("app-b", Operation.decrypt, "k1") ∈ Ref.gateway.authz.grants by decide) rfl
  exact (ciphertext_integrity Ref.gateway_loaded (inMemory_readBack "app-a" "app-b") hc).2 _ 1
    (.decrypt "k1" sampleCt sampleIv) (.ok [5]) _ _ _ _ hhist rfl

/-- A configuration in which every label has one key. -/
def separatedConfig : FileConfig :=
  ⟨[⟨"app-a", [⟨.encrypt, ["k1"], none⟩, ⟨.decrypt, ["k1"], none⟩]⟩]⟩

def separatedGateway : Gateway :=
  { Ref.gateway with authz := ⟨{("app-a", .decrypt, "k1"), ("app-a", .encrypt, "k1")}, ∅⟩ }

theorem keySeparated_separatedGateway : KeySeparated Ref.crates separatedGateway.authz := by
  have hone : ∀ {cn : String} {plain derive : Operation} {k : KeyRef},
      May Ref.crates separatedGateway.authz cn plain derive k → k = .stored "k1" := by
    intro cn plain derive k hk
    cases k with
    | stored label =>
      simp only [May, separatedGateway, Finset.mem_insert, Finset.mem_singleton,
        Prod.mk.injEq] at hk
      rcases hk with ⟨-, -, rfl⟩ | ⟨-, -, rfl⟩ <;> rfl
    | derived label peer =>
      obtain ⟨set, peerB64, hset, -⟩ := hk
      exact absurd hset (by simp [separatedGateway])
  intro cn₁ cn₂ k₁ k₂ h₁ h₂ _
  rw [hone h₁, hone h₂]

theorem noCrossKey_separatedGateway :
    ∃ c, Reach anyAnswer (idealHsm "gateway-integrity")
        (separatedGateway.serving Ref.crates Ref.parseRequest (readBack "app-a" "app-a")) c ∧
      c.hist = replayTrace Ref.crates separatedGateway "app-a" "app-a" (.stored "k1")
        (.stored "k1") ∧ NoCrossKey c := by
  have hcfg : AuthzTable.fromConfig Ref.crates separatedConfig separatedGateway.integrityLabel =
      .ok separatedGateway.authz := rfl
  obtain ⟨c, hc, hhist⟩ := @replay_run Ref.crates separatedGateway (.stored "k1") (.stored "k1")
    Ref.base64_lawful (AuthzTable.fromConfig_inv hcfg) Ref.parseRequest
    (readBack "app-a" "app-a") (Ref.parseRequest_requestText _) (Ref.parseRequest_requestText _)
    (show ("app-a", Operation.encrypt, "k1") ∈ separatedGateway.authz.grants by decide)
    (show ("app-a", Operation.decrypt, "k1") ∈ separatedGateway.authz.grants by decide) rfl
  refine ⟨c, hc, hhist, ?_⟩
  exact (noCrossKey_iff Ref.base64_lawful hcfg
    (fun req => ⟨_, Ref.parseRequest_requestText req⟩) (by decide)).mpr
    keySeparated_separatedGateway _ c (inMemory_readBack "app-a" "app-a") hc

end PicoHsm
