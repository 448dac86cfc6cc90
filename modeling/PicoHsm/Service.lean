/-
What the gateway computes on a device, without sessions and handles.

`Service` says what each operation of `HsmClient` comes to on the device of
`Firmware.lean`: a script of steps on the objects of the token, each of which may fail.
Its only state is the number of steps so far, on which failures and random numbers depend.
There are no sessions, no login and no handles in it, and nothing is left of a request.

* `Service.perform` — the six operations;
* `Provides`, `Provides.perform` — on a token that answers each step as the service has it, the
  operations of `HsmClient` do what the service says;
* `provides_device` — the device does so, to a client that is alone;
* `visit_eq_service` — after any requests, whatever failed in them, and under any handles,
  the answer to a request line is the one `process_line` gives over the service.
-/
import PicoHsm.Implements
import PicoHsm.Stateless

namespace PicoHsm

open Text Effects Prog

/-! ### The service -/

/-- Steps of the HSM, counted, the first failure of which ends them. -/
abbrev Script (α : Type) : Type := ℕ → Except String α × ℕ

/-- A key as the mechanisms see it. -/
abbrev Material (Key : Type) : Type := List Attribute × Key

namespace Service

variable {Key α : Type} (K : Crates) (F : Firmware Key) (L : Luck) (objs : List (Object Key))

/-- What step `n` gives. -/
def outcome (f : ℕ → Except Pkcs11Error α) (n : ℕ) : Except Pkcs11Error α :=
  match L.fault n with
  | some e => .error e
  | none => f n

def tick (f : ℕ → Except Pkcs11Error α) : ℕ → Except Pkcs11Error α × ℕ := fun n =>
  (outcome L f n, n + 1)

/-- One step, and the context of its error. -/
def step (ctx : String) (f : ℕ → Except Pkcs11Error α) : Script α :=
  sequence (tick L f) fun r n => (questionWith ctx r, n)

/-- The one key of the token with this label and class. -/
def key (label : String) (cls : ObjectClass) : Script (Material Key) :=
  sequence (tick L fun _ => .ok ()) fun r n =>
    match r with
    | .error e => (.error e.display, n)
    | .ok _ =>
      match objs.filter fun k => k.has (HsmClient.keyTemplate label cls) with
      | [k] => (.ok k.material, n)
      | [] => (.error ("key " ++ debugStr K.escaped label ++ ": " ++ "not found"), n)
      | _ => (.error ("key " ++ debugStr K.escaped label ++ ": " ++
          "ambiguous (multiple objects with this label+class)"), n)

def iv : Script (List UInt8) :=
  sequence (tick L fun n => .ok (L.random n)) fun r n =>
    match questionWith "HSM RNG failed" r with
    | .error e => (.error e, n)
    | .ok bytes =>
      if bytes.length = 16 then (.ok bytes, n) else (.error "HSM RNG returned wrong length", n)

/-- The key derived from `base`, with the attributes of the client's template. -/
def derived (label : String) (peer : List UInt8) (base : Material Key) : Script (Material Key) :=
  sequence (tick L fun _ =>
    F.derive base.1 base.2 (.ecdh1Derive kdfSharedData peer) HsmClient.derivedTemplate) fun r n =>
      (questionWith ("HSM ECDH derive failed for " ++ debugStr K.escaped label)
        (r.map fun key => (World.attributesOf HsmClient.derivedTemplate, key)), n)

def encrypted (ctx : String) (m : Material Key) (plaintext : List UInt8) :
    Script (List UInt8 × List UInt8) :=
  followedBy (iv L) fun iv =>
    sequence (tick L fun _ => F.encrypt m.1 m.2 (.aesCbcPad iv) plaintext) fun r n =>
      ((questionWith ctx r).map fun ct => (iv, ct), n)

def decrypted (ctx : String) (m : Material Key) (ciphertext iv : List UInt8) :
    Script (List UInt8) :=
  step L ctx fun _ => F.decrypt m.1 m.2 (.aesCbcPad iv) ciphertext

/-- Opening a session and logging in; behind a failed login it is closed. -/
def opening (pin : String) : Script Unit :=
  sequence (tick L fun _ => .ok ()) fun r n =>
    match r with
    | .error e => (.error e.display, n)
    | .ok _ =>
      sequence (tick L fun _ => if pin = F.pin then .ok () else .error Firmware.pinIncorrect)
        (fun r n =>
          match r with
          | .error e => (.error e.display, n + 1)
          | .ok _ => (.ok (), n)) n

/-- Work between opening and closing. -/
def session (pin : String) (work : Script α) : Script α :=
  followedBy (opening F L pin) fun _ => sequence work fun r n => (r, n + 1)

/-- The verdict on a signature. -/
def verdict (label : String) : Except Pkcs11Error Unit → Except String Bool
  | .ok _ => .ok true
  | .error (.pkcs11 .signatureInvalid _) => .ok false
  | .error e =>
    .error (withContext ("HSM verify failed for " ++ debugStr K.escaped label) e.display)

def decryptAesCbcPad (pin label : String) (ciphertext iv : List UInt8) : Script (List UInt8) :=
  if iv.length = 16 then
    session F L pin (followedBy (key K L objs label .secretKey) fun m =>
      decrypted F L ("HSM decrypt failed for " ++ debugStr K.escaped label) m ciphertext iv)
  else fun n => (.error "decrypt: iv must be 16 bytes", n)

def deriveAndDecrypt (pin label : String) (peer ciphertext iv : List UInt8) :
    Script (List UInt8) :=
  if iv.length = 16 then
    session F L pin (followedBy (key K L objs label .privateKey) fun base =>
      followedBy (derived K F L label peer base) fun m =>
        decrypted F L ("HSM derive_and_decrypt failed for " ++ debugStr K.escaped label) m
          ciphertext iv)
  else fun n => (.error "derive_and_decrypt: iv must be 16 bytes", n)

/-- The operations of `HsmClient`. -/
def perform (pin : String) : (call : HsmCall) → ℕ → call.Ret × ℕ
  | .sign label data =>
    session F L pin (followedBy (key K L objs label .privateKey) fun m =>
      step L ("HSM sign failed for " ++ debugStr K.escaped label) fun n =>
        F.sign m.1 m.2 .ecdsaSha256 data (L.random n))
  | .verify label data sig =>
    session F L pin (followedBy (key K L objs label .publicKey) fun m =>
      sequence (tick L fun _ => F.verify m.1 m.2 .ecdsaSha256 data sig) fun r n =>
        (verdict K label r, n))
  | .encrypt label plaintext =>
    session F L pin (followedBy (key K L objs label .secretKey) fun m =>
      encrypted F L ("HSM encrypt failed for " ++ debugStr K.escaped label) m plaintext)
  | .decrypt label ciphertext iv => decryptAesCbcPad K F L objs pin label ciphertext iv
  | .deriveAndEncrypt label peer plaintext =>
    session F L pin (followedBy (key K L objs label .privateKey) fun base =>
      followedBy (derived K F L label peer base) fun m =>
        encrypted F L ("HSM derive_and_encrypt failed for " ++ debugStr K.escaped label) m
          plaintext)
  | .deriveAndDecrypt label peer ciphertext iv =>
    deriveAndDecrypt K F L objs pin label peer ciphertext iv

/-- The answers to the operations of `process_line`, from the steps so far of the HSM and of
the log and the runtime. -/
def answer (pin : String) (t : ℕ × ℕ) : (e : GwOp) → GwOp.Ret e × (ℕ × ℕ)
  | .append a => (L.append t.2 a, (t.1, t.2 + 1))
  | .spawn => (L.spawn t.2, (t.1, t.2 + 1))
  | .hsm c => ((perform K F L objs pin c t.1).1, ((perform K F L objs pin c t.1).2, t.2))

end Service

/-! ### The client of a token that does as the service says -/

/-- Where a client stands with the token, whose state is a `σ`, the service having taken so
many steps: in no session, in one it has not logged in to, logged in, or with a key at hand. -/
structure Standing (σ Key : Type) where
  rest : σ → ℕ → Prop
  opened : ℕ → σ → ℕ → Prop
  /-- Logged in, and nothing derived yet. -/
  fresh : ℕ → σ → ℕ → Prop
  inside : ℕ → σ → ℕ → Prop
  hand : ℕ → ℕ → Material Key → σ → ℕ → Prop

/-- The token answers each operation with what the step of the service gives. -/
structure Provides {σ Key : Type} (F : Firmware Key) (L : Luck) (objs : List (Object Key))
    (c : HsmClient) (names : String → ObjectClass → Prop) (act : σ → Ev p11Sig → σ → Prop)
    (P : Standing σ Key) : Prop where
  inside_of_fresh : ∀ {x s n}, P.fresh x s n → P.inside x s n
  inside_of_hand : ∀ {x a m s n}, P.hand x a m s n → P.inside x s n
  openSession : Answers act P.rest (.openRwSession c.slot)
    (Agree P.rest fun x s (_ : Unit) n => P.opened x s n) (Service.tick L fun _ => .ok ())
  login : ∀ x, Answers act (P.opened x) (.login x c.pin)
    (Agree (P.opened x) fun _ s (_ : Unit) n => P.fresh x s n)
    (Service.tick L fun _ => if c.pin = F.pin then .ok () else .error Firmware.pinIncorrect)
  find : ∀ x label cls, names label cls →
    Answers act (P.fresh x) (.findObjects x (HsmClient.keyTemplate label cls))
      (Agree (P.inside x) fun found s (_ : Unit) n => P.inside x s n ∧
        found.length = (objs.filter fun k => k.has (HsmClient.keyTemplate label cls)).length ∧
        ∀ a k, found = [a] → objs.filter (fun k => k.has (HsmClient.keyTemplate label cls)) = [k] →
          P.hand x a k.material s n)
      (Service.tick L fun _ => .ok ())
  random : ∀ x a m, Answers act (P.hand x a m) (.generateRandom x 16) (Same (P.hand x a m))
    (Service.tick L fun n => .ok (L.random n))
  sign : ∀ x a m data, Answers act (P.hand x a m) (.sign x .ecdsaSha256 a data)
    (Same (P.inside x)) (Service.tick L fun n => F.sign m.1 m.2 .ecdsaSha256 data (L.random n))
  verify : ∀ x a m data sig, Answers act (P.hand x a m) (.verify x .ecdsaSha256 a data sig)
    (Same (P.inside x)) (Service.tick L fun _ => F.verify m.1 m.2 .ecdsaSha256 data sig)
  encrypt : ∀ x a m iv data, Answers act (P.hand x a m) (.encrypt x (.aesCbcPad iv) a data)
    (Same (P.inside x)) (Service.tick L fun _ => F.encrypt m.1 m.2 (.aesCbcPad iv) data)
  decrypt : ∀ x a m iv data, Answers act (P.hand x a m) (.decrypt x (.aesCbcPad iv) a data)
    (Same (P.inside x)) (Service.tick L fun _ => F.decrypt m.1 m.2 (.aesCbcPad iv) data)
  derive : ∀ x a m mech,
    Answers act (P.hand x a m) (.deriveKey x mech a HsmClient.derivedTemplate)
      (Agree (P.inside x) fun b s key n =>
        P.hand x b (World.attributesOf HsmClient.derivedTemplate, key) s n)
      (Service.tick L fun _ => F.derive m.1 m.2 mech HsmClient.derivedTemplate)
  drop : ∀ x, Answers act (P.opened x) (.closeSession x) (fun _ s (_ : Unit) n => P.rest s n)
    fun n => ((), n + 1)
  close : ∀ x, Answers act (P.inside x) (.closeSession x) (fun _ s (_ : Unit) n => P.rest s n)
    fun n => ((), n + 1)

section Client

open HsmClient

variable {σ Key : Type} {K : Crates} {F : Firmware Key} {L : Luck} {objs : List (Object Key)}
  {c : HsmClient} {names : String → ObjectClass → Prop} {act : σ → Ev p11Sig → σ → Prop}
  {P : Standing σ Key} {label ctx : String} {m : Material Key} {x a : ℕ}

theorem Provides.randomIv (o : Provides F L objs c names act P) :
    Implements act (P.hand x a m)
      (Agree (P.inside x) fun iv s iv' n => iv = iv' ∧ P.hand x a m s n)
      (HsmClient.randomIv x) (Service.iv L) := by
  refine Implements.call (o.random x a m) (Implements.same fun r => ?_)
  rcases r with e | bytes
  · exact Implements.ret fun s n h => .error _ (o.inside_of_hand h)
  simp only [questionWith]
  by_cases hlen : bytes.length = 16
  · simp only [hlen, if_true]
    exact Implements.ret fun s n h => .ok ⟨rfl, h⟩
  · simp only [hlen, if_false]
    exact Implements.ret fun s n h => .error _ (o.inside_of_hand h)

theorem Provides.encryptWith (o : Provides F L objs c names act P) {plaintext : List UInt8} :
    Implements act (P.hand x a m) (Agree (P.inside x) (Same (P.inside x)))
      ((HsmClient.randomIv x).andThen fun iv => HsmClient.encryptWith x iv a plaintext ctx)
      (Service.encrypted F L ctx m plaintext) := by
  refine Implements.andThen o.randomIv (Implements.same fun iv => ?_)
  refine Implements.call (o.encrypt x a m iv plaintext) (Implements.same fun r => ?_)
  rcases r with e | ct
  · exact Implements.ret fun s n h => .error _ h
  · exact Implements.ret fun s n h => .ok ⟨rfl, h⟩

theorem Provides.decryptWith (o : Provides F L objs c names act P) {ct iv : List UInt8} :
    Implements act (P.hand x a m) (Agree (P.inside x) (Same (P.inside x)))
      (HsmClient.decryptWith x iv a ct ctx) (Service.decrypted F L ctx m ct iv) :=
  Implements.call (o.decrypt x a m iv ct)
    (Implements.same fun _ => Implements.ret fun _ _ h => agree_same.mpr ⟨rfl, h⟩)

theorem Provides.deriveAesKey (o : Provides F L objs c names act P) {peer : List UInt8} :
    Implements act (P.hand x a m) (Agree (P.inside x) fun b s m n => P.hand x b m s n)
      (HsmClient.deriveAesKey K x a peer label) (Service.derived K F L label peer m) :=
  Implements.call (o.derive x a m (.ecdh1Derive kdfSharedData peer))
    (Implements.cases (fun _ => Implements.ret fun _ _ h => .error _ h)
      fun _ _ => Implements.ret fun _ _ h => .ok h)

theorem Provides.findKey (o : Provides F L objs c names act P) {cls : ObjectClass}
    (hn : names label cls) :
    Implements act (P.fresh x) (Agree (P.inside x) fun a s m n => P.hand x a m s n)
      (findKeyByLabel K x label cls) (Service.key K L objs label cls) := by
  refine Implements.call (o.find x label cls hn) (Implements.cases (fun e => ?_) fun found _ => ?_)
  · exact Implements.ret fun s n h => .error _ h
  rintro s n r s' ⟨hin, hlen, hkey⟩ hr
  generalize (objs.filter fun k => k.has (keyTemplate label cls)) = ks at hlen hkey ⊢
  -- none, one or several, on both sides
  rcases found with _ | ⟨a, _ | ⟨a', found⟩⟩ <;> rcases ks with _ | ⟨k, _ | ⟨k', ks⟩⟩
  · cases hr
    exact .error _ hin
  · cases hlen
  · cases hlen
  · cases hlen
  · cases hr
    exact .ok (hkey a k rfl rfl)
  · cases hlen
  · cases hlen
  · cases hlen
  · cases hr
    exact .error _ hin

theorem Provides.opening (o : Provides F L objs c names act P) :
    Implements act P.rest (Agree P.rest fun x s (_ : Unit) n => P.fresh x s n)
      c.openSession (Service.opening F L c.pin) := by
  refine Implements.call o.openSession (Implements.cases (fun e => ?_) fun x _ => ?_)
  · exact Implements.ret fun s n h => .error _ h
  refine Implements.call (o.login x) (Implements.cases (fun e => ?_) fun _ _ => ?_)
  · -- behind a failed login the session is closed
    intro s n r s' h hr
    cases hr with
    | call ha hr =>
      cases hr
      exact .error _ (o.drop x _ _ _ _ h ha)
  · exact Implements.ret fun s n h => .ok h

/-- The session is closed whatever has happened in it. -/
theorem Provides.withSession {α : Type} (o : Provides F L objs c names act P)
    {body : ℕ → Prog p11Sig (Except String α)} {work : Script α}
    (hb : ∀ x, Implements act (P.fresh x) (Agree (P.inside x) (Same (P.inside x))) (body x) work) :
    Implements act P.rest (Same P.rest) (c.withSession body) (Service.session F L c.pin work) := by
  refine Implements.mono (Implements.andThen o.opening fun x _ => ?_) (fun _ _ h => h)
    fun _ _ _ _ h => agree_same.mp h
  refine Implements.bind ((hb x).mono (fun _ _ h => h) fun _ _ _ _ h => agree_same.mp h)
    (Implements.same fun r => ?_)
  intro s n r' s' h hr
  cases hr with
  | call ha hr =>
    cases hr
    exact agree_same.mpr ⟨rfl, o.close x _ _ _ _ h ha⟩

/-- Work on the key under a label. -/
theorem Provides.onKey {α : Type} (o : Provides F L objs c names act P) {cls : ObjectClass}
    (hn : names label cls) {f : ℕ → ℕ → Prog p11Sig (Except String α)}
    {work : Material Key → Script α}
    (hf : ∀ x a m, Implements act (P.hand x a m) (Agree (P.inside x) (Same (P.inside x))) (f x a)
      (work m)) :
    Implements act P.rest (Same P.rest)
      (c.withSession fun x => (findKeyByLabel K x label cls).andThen (f x))
      (Service.session F L c.pin (followedBy (Service.key K L objs label cls) work)) :=
  o.withSession fun x => Implements.andThen (o.findKey hn) fun a m => hf x a m

theorem Provides.decryptAesCbcPad (o : Provides F L objs c names act P) {ct iv : List UInt8}
    (hn : names label .secretKey) :
    Implements act P.rest (Same P.rest) (c.decryptAesCbcPad K label ct iv)
      (Service.decryptAesCbcPad K F L objs c.pin label ct iv) := by
  rw [HsmClient.decryptAesCbcPad, Service.decryptAesCbcPad]
  by_cases hlen : iv.length = 16
  · rw [if_pos hlen, if_pos hlen]
    exact o.onKey hn fun x a m => o.decryptWith
  · rw [if_neg hlen, if_neg hlen]
    exact Implements.ret fun s n h => ⟨rfl, h⟩

theorem Provides.deriveAndDecrypt (o : Provides F L objs c names act P) {peer ct iv : List UInt8}
    (hn : names label .privateKey) :
    Implements act P.rest (Same P.rest) (c.deriveAndDecrypt K label peer ct iv)
      (Service.deriveAndDecrypt K F L objs c.pin label peer ct iv) := by
  rw [HsmClient.deriveAndDecrypt, Service.deriveAndDecrypt]
  by_cases hlen : iv.length = 16
  · rw [if_pos hlen, if_pos hlen]
    exact o.onKey hn fun x a m => Implements.andThen o.deriveAesKey fun b m' => o.decryptWith
  · rw [if_neg hlen, if_neg hlen]
    exact Implements.ret fun s n h => ⟨rfl, h⟩

/-- **The client does what the service says**, if the token provides the steps. -/
theorem Provides.perform (o : Provides F L objs c names act P) (call : HsmCall)
    (hn : names call.label call.objectClass) :
    Implements act P.rest (Same P.rest) (c.perform K call)
      (Service.perform K F L objs c.pin call) := by
  cases call with
  | sign label data =>
    exact o.onKey hn fun x a m => Implements.call (o.sign x a m data)
      (Implements.same fun r => Implements.ret fun s n h => agree_same.mpr ⟨rfl, h⟩)
  | verify label data sig =>
    refine o.onKey hn fun x a m => Implements.call (o.verify x a m data sig)
      (Implements.same fun r => ?_)
    rcases r with (⟨_ | _ | _ | n, text⟩ | text) | u <;>
      exact Implements.ret fun s n h => agree_same.mpr ⟨rfl, h⟩
  | encrypt label plaintext => exact o.onKey hn fun x a m => o.encryptWith
  | decrypt label ct iv => exact o.decryptAesCbcPad hn
  | deriveAndEncrypt label peer plaintext =>
    exact o.onKey hn fun x a m => Implements.andThen o.deriveAesKey fun b m' => o.encryptWith
  | deriveAndDecrypt label peer ct iv => exact o.deriveAndDecrypt hn

end Client

/-! ### Whole requests -/

section Requests

variable {σ Key α : Type} {K : Crates} {g : Gateway} {F : Firmware Key} {L : Luck}
  {objs : List (Object Key)} {names : String → ObjectClass → Prop}

/-- The PKCS#11 part of what answers a request. -/
def onToken (act : σ → Ev lowSig → σ → Prop) (s : σ) (ev : Ev p11Sig) (s' : σ) : Prop :=
  act s ⟨.p11 ev.op, ev.ret⟩ s'

theorem returns_liftP11 {act : σ → Ev lowSig → σ → Prop} {p : Prog p11Sig α} {s s' : σ} {a : α}
    (h : Returns act (liftP11 p) s a s') : Returns (onToken act) p s a s' := by
  induction p generalizing s with
  | ret b =>
    cases h
    exact .ret _ _
  | call e k ih =>
    cases h with
    | call ha h => exact .call ha (ih _ h)

/-- A request against a token that provides the steps, and a log and a runtime that answer as
`L` has it. -/
theorem implements_lower {act : σ → Ev lowSig → σ → Prop} (P : ℕ → Standing σ Key)
    (ho : ∀ k, Provides F L objs g.hsm names (onToken act) (P k))
    (happend : ∀ a, Answers act (fun s (t : ℕ × ℕ) => (P t.2).rest s t.1) (.append a)
      (Same fun s t => (P t.2).rest s t.1) fun t => (L.append t.2 a, (t.1, t.2 + 1)))
    (hspawn : Answers act (fun s (t : ℕ × ℕ) => (P t.2).rest s t.1) .spawn
      (Same fun s t => (P t.2).rest s t.1) fun t => (L.spawn t.2, (t.1, t.2 + 1)))
    (e : GwOp) (he : ∀ c, e = .hsm c → names c.label c.objectClass) :
    Implements act (fun s t => (P t.2).rest s t.1) (Same fun s t => (P t.2).rest s t.1)
      (g.lower K e) fun t => Service.answer K F L objs g.hsm.pin t e := by
  intro s t r s' hst hr
  cases e with
  | append a =>
    cases hr with
    | call ha hr =>
      cases hr
      exact happend a _ _ _ _ hst ha
  | spawn =>
    cases hr with
    | call ha hr =>
      cases hr
      exact hspawn _ _ _ _ hst ha
  | hsm c => exact (ho t.2).perform c (he c rfl) s t.1 r s' hst (returns_liftP11 hr)

end Requests

/-! ### The device, request after request -/

section Device

variable {Key α : Type} {K : Crates} {F : Firmware Key} {L : Luck} {H : Numbering}
  {objs : List (Object Key)} {out : ℕ} {w : World Key Inner ℕ} {n x a : ℕ}

/-- The client holds this session or none, and the HSM has taken `n` steps. -/
structure Counted (objs : List (Object Key)) (out : ℕ) (o : Option (ℕ × Bool))
    (w : World Key Inner ℕ) (n : ℕ) : Prop where
  holds : Holds objs o w
  step : w.device.step = n
  outside : w.outside = out

/-- In the session `x`, the handle `a` stands for a key. -/
def KeyInHand (objs : List (Object Key)) (out x a : ℕ) (m : Material Key)
    (w : World Key Inner ℕ) (n : ℕ) : Prop :=
  Counted objs out (some (x, true)) w n ∧ (w.lookup a).map Object.material = some m

def standing (objs : List (Object Key)) (out : ℕ) : Standing (World Key Inner ℕ) Key where
  rest := Counted objs out none
  opened x w n := Counted objs out (some (x, false)) w n ∧ w.contents = objs
  fresh x w n := Counted objs out (some (x, true)) w n ∧ w.contents = objs
  inside x := Counted objs out (some (x, true))
  hand := KeyInHand objs out

theorem Counted.ask (h : Counted objs out (some (x, true)) w n) (user : Bool)
    (f : ℕ → Except Pkcs11Error α) :
    (w.ask (Firmware.attempt L (Firmware.inSession x user f))).1 = Service.outcome L f n ∧
      Counted objs out (some (x, true))
        (w.ask (Firmware.attempt L (Firmware.inSession x user f))).2 (n + 1) := by
  refine ⟨?_, h.holds.ask x user f, ?_, h.outside⟩
  · have hin : Firmware.inSession x user f ⟨[x], true⟩ n = (f n, ⟨[x], true⟩) := by
      simp [Firmware.inSession]
    simp only [World.ask, Firmware.attempt, h.holds.2, h.step, hin, Service.outcome]
    rcases L.fault n with _ | e <;> rfl
  · simp only [World.ask, Firmware.attempt_step, h.step]

theorem KeyInHand.use {m : Material Key} (h : KeyInHand objs out x a m w n) (user : Bool)
    (f : Material Key → ℕ → Except Pkcs11Error α) :
    (w.use a fun k => Firmware.attempt L (Firmware.inSession x user (f k.material))).1 =
        Service.outcome L (f m) n ∧
      Counted objs out (some (x, true))
        (w.use a fun k => Firmware.attempt L (Firmware.inSession x user (f k.material))).2
        (n + 1) := by
  obtain ⟨hin, hkey⟩ := h
  rw [World.use]
  generalize w.lookup a = k at hkey ⊢
  rcases k with _ | k
  · cases hkey
  · rw [Option.map_some, Option.some_inj] at hkey
    dsimp only
    rw [hkey]
    exact hin.ask user (f m)

theorem KeyInHand.derive {m : Material Key} (h : KeyInHand objs out x a m w n) (mech : Mechanism)
    {template : List Attribute} (ht : .token true ∉ template) :
    Agree (Counted objs out (some (x, true)))
      (fun b w key n => KeyInHand objs out x b (World.attributesOf template, key) w n)
      (w.derive (F.device L H) x mech a template).1 (w.derive (F.device L H) x mech a template).2
      (Service.tick L (fun _ => F.derive m.1 m.2 mech template) n).1
      (Service.tick L (fun _ => F.derive m.1 m.2 mech template) n).2 := by
  obtain ⟨hr, hin⟩ := h.use (L := L) true fun m _ => F.derive m.1 m.2 mech template
  change (w.use a ((F.device L H).deriveKey x mech template)).1 = _ at hr
  change Counted objs out _ (w.use a ((F.device L H).deriveKey x mech template)).2 _ at hin
  rw [World.derive, Service.tick, ← hr]
  generalize w.use a ((F.device L H).deriveKey x mech template) = y at hin
  obtain ⟨r, v⟩ := y
  rcases r with e | key
  · exact .error _ hin
  · refine .ok ⟨⟨hin.holds.add ht _ key, hin.step, hin.outside⟩, ?_⟩
    rw [v.lookup_add]
    rfl

theorem Counted.openSession (hobjs : ∀ k ∈ objs, k.session = none)
    (h : Counted objs out none w n) :
    Agree (Counted objs out none) (fun x w (_ : Unit) n => (standing objs out).opened x w n)
      (w.ask (Firmware.attempt L (Firmware.openSession H))).1
      (w.ask (Firmware.attempt L (Firmware.openSession H))).2
      (Service.tick L (fun _ => .ok ()) n).1 (Service.tick L (fun _ => .ok ()) n).2 := by
  simp only [World.ask, Firmware.attempt, Firmware.openSession, Service.tick, Service.outcome,
    h.step, h.holds.2]
  rcases L.fault n with _ | e
  · refine .ok ⟨⟨⟨?_, rfl⟩, rfl, h.outside⟩, h.holds.1⟩
    exact (congrArg _ h.holds.1).trans (filter_of_token hobjs)
  · exact .error _ ⟨⟨h.holds.1, rfl⟩, rfl, h.outside⟩

theorem Counted.login {pin : String} (h : Counted objs out (some (x, false)) w n)
    (hw : w.contents = objs) :
    Agree ((standing objs out).opened x) (fun _ w (_ : Unit) n => (standing objs out).fresh x w n)
      (w.ask (Firmware.attempt L (F.login x pin))).1 (w.ask (Firmware.attempt L (F.login x pin))).2
      (Service.tick L (fun _ => if pin = F.pin then .ok () else .error Firmware.pinIncorrect) n).1
      (Service.tick L (fun _ => if pin = F.pin then .ok () else .error Firmware.pinIncorrect)
        n).2 := by
  simp only [World.ask, Firmware.attempt, Firmware.login, Service.tick, Service.outcome, h.step,
    h.holds.2, List.mem_singleton, not_true_eq_false, if_false, Bool.false_eq_true]
  rcases L.fault n with _ | e
  · by_cases hpin : pin = F.pin
    · simp only [hpin, if_true]
      exact .ok ⟨⟨⟨h.holds.1, rfl⟩, rfl, h.outside⟩, hw⟩
    · simp only [hpin, if_false]
      exact .error _ ⟨⟨⟨h.holds.1, rfl⟩, rfl, h.outside⟩, hw⟩
  · exact .error _ ⟨⟨⟨h.holds.1, rfl⟩, rfl, h.outside⟩, hw⟩

theorem Counted.find (h : Counted objs out (some (x, true)) w n) (hw : w.contents = objs)
    (template : List Attribute) :
    Agree (Counted objs out (some (x, true)))
      (fun found w (_ : Unit) n => Counted objs out (some (x, true)) w n ∧
        found.length = (objs.filter fun k => k.has template).length ∧
        ∀ a k, found = [a] → objs.filter (fun k => k.has template) = [k] →
          KeyInHand objs out x a k.material w n)
      (w.answer (F.device L H) (.findObjects x template)).1
      (w.answer (F.device L H) (.findObjects x template)).2
      (Service.tick L (fun _ => .ok ()) n).1 (Service.tick L (fun _ => .ok ()) n).2 := by
  obtain ⟨hr, hin⟩ := h.ask (L := L) true fun _ => (.ok () : Except Pkcs11Error Unit)
  have hlook := w.lookup_find template
  rw [hw] at hlook
  simp only [World.answer, Firmware.device]
  rw [hr, Service.tick]
  rcases Service.outcome L (fun _ => (.ok () : Except Pkcs11Error Unit)) n with e | ⟨⟩
  · exact .error _ hin
  · refine .ok ⟨hin, by simpa using congrArg List.length hlook, fun a k ha hk => ⟨hin, ?_⟩⟩
    rw [show (w.find template).map Prod.fst = [a] from ha, hk] at hlook
    exact congrArg (Option.map Object.material) (List.singleton_inj.mp hlook)

/-- Closing a session that is held. -/
theorem Counted.close {b : Bool} (h : Counted objs out (some (x, b)) w n) :
    Counted objs out none (w.answer (F.device L H) (.closeSession x)).2 (n + 1) := by
  refine ⟨⟨(w.close_contents _ x).trans h.holds.1, ?_⟩, congrArg (· + 1) h.step, h.outside⟩
  show Firmware.closed x w.device.state = _
  rw [h.holds.2, Firmware.closed]
  simp

variable (F L H) in
/-- **The device provides the steps** to a client that is alone, whatever handles it gives
out. -/
theorem provides_device (hobjs : ∀ k ∈ objs, k.session = none) (c : HsmClient) (out : ℕ) :
    Provides F L objs c (fun _ _ => True) (HandledBy (World.answer (F.device L H)))
      (standing objs out) where
  inside_of_fresh h := h.1
  inside_of_hand h := h.1
  openSession := answers_of_handler fun w n h => h.openSession hobjs
  login x := answers_of_handler fun w n h => h.1.login h.2
  find x label cls _ := answers_of_handler fun w n h =>
    h.1.find h.2 (HsmClient.keyTemplate label cls)
  random x a m := answers_of_handler fun w n h => by
    obtain ⟨hr, hin⟩ := h.1.ask (L := L) false fun n =>
      (.ok (L.random n) : Except Pkcs11Error (List UInt8))
    exact ⟨hr, hin, h.2⟩
  sign x a m data := answers_of_handler fun w n h =>
    h.use true fun m n => F.sign m.1 m.2 .ecdsaSha256 data (L.random n)
  verify x a m data sig := answers_of_handler fun w n h =>
    h.use false fun m _ => F.verify m.1 m.2 .ecdsaSha256 data sig
  encrypt x a m iv data := answers_of_handler fun w n h =>
    h.use true fun m _ => F.encrypt m.1 m.2 (.aesCbcPad iv) data
  decrypt x a m iv data := answers_of_handler fun w n h =>
    h.use true fun m _ => F.decrypt m.1 m.2 (.aesCbcPad iv) data
  derive x a m mech := answers_of_handler fun w n h =>
    h.derive mech (by simp [HsmClient.derivedTemplate])
  drop x := answers_of_handler fun w n h => h.1.close
  close x := answers_of_handler fun w n h => h.close

end Device

section Visit

variable {Key : Type} {K : Crates} {g : Gateway} {parse : String → Except String Request}
  {F : Firmware Key} {objs : List (Object Key)}

theorem implements_lower_device (hobjs : ∀ k ∈ objs, k.session = none) (v : Visit) (e : GwOp) :
    Implements (HandledBy (v.answer F)) (fun w (t : ℕ × ℕ) => Counted objs t.2 none w t.1)
      (Same fun w t => Counted objs t.2 none w t.1) (g.lower K e)
      fun t => Service.answer K F v.luck objs g.hsm.pin t e := by
  refine implements_lower (standing objs)
    (fun k => provides_device F v.luck v.numbering hobjs g.hsm k) (fun a => ?_) ?_ e
    fun _ _ => trivial
  · refine answers_of_handler fun w t h => ⟨congrArg (fun n => v.luck.append n a) h.outside, ?_⟩
    exact ⟨h.holds, h.step, congrArg (· + 1) h.outside⟩
  · refine answers_of_handler fun w t h => ⟨congrArg v.luck.spawn h.outside, ?_⟩
    exact ⟨h.holds, h.step, congrArg (· + 1) h.outside⟩

/-- **The gateway computes a function of the token's objects.**  After any requests, whatever
failed in them, the answer to a request line on the device is the one `process_line` gives
over the service: sessions, login and handles have no part in it, and neither have the
requests before. -/
theorem visit_eq_service (K : Crates) (g : Gateway) (parse : String → Except String Request)
    (F : Firmware Key) {w : World Key Inner ℕ} (hw : w.Idle) (vs : List Visit) (v : Visit) :
    (g.visit K parse F v (g.visits K parse F vs w)).1 =
      ((g.processLine K parse v.cn v.line).run
        (Service.answer K F v.luck w.contents g.hsm.pin) (0, 0)).1 := by
  obtain ⟨hidle, hobj⟩ := visits_idle K g parse F hw vs
  have hrest : Counted w.contents 0 none (g.visits K parse F vs w).begin 0 :=
    ⟨⟨hobj, hidle.state⟩, rfl, rfl⟩
  have hany : Safe (fun _ _ => True) (fun _ _ => True) (fun _ _ => True) []
      (g.processLine K parse v.cn v.line) :=
    safe_of_steps (fun _ _ _ _ => trivial) fun _ _ _ => trivial
  exact (Implements.interp (fun h e _ => implements_lower_device hw.token v e) hany _ (0, 0) _ _
    hrest (returns_run _ _ _)).1

end Visit

/-- Behind a request that failed with a derived key at hand, the service signs with the key of
the token. -/
theorem visit_eq_service_failing :
    (Ref.gateway.visit Ref.crates Ref.parseRequest Ref.firmware Ref.signing
        (Ref.gateway.visits Ref.crates Ref.parseRequest Ref.firmware [Ref.failing] Ref.desk)).1 =
      ((Ref.gateway.processLine Ref.crates Ref.parseRequest Ref.signing.cn Ref.signing.line).run
        (Service.answer Ref.crates Ref.firmware (Ref.luckBut none) [Ref.signingKey] "648219")
        (0, 0)).1 :=
  visit_eq_service Ref.crates Ref.gateway Ref.parseRequest Ref.firmware Ref.desk_idle
    [Ref.failing] Ref.signing

end PicoHsm
