/-
Sessions and derived keys of requests that run at once.

Any number of requests work on one device (`Firmware.lean`) at the same time; any steps may
fail, and any request may be turned away at its login because another one is logged in.
Handles of sessions and of objects are given out again when they are free, and the token's
objects may have other ones whenever no session is left open.

* `perform_ownKeys` — an operation of the client uses only handles it has found or derived
  in the session it holds;
* `Custody` — whose the open sessions and the session objects are;
* `custody_of_reach` — under every schedule each open session is held by exactly one
  request that has not returned, each session object goes with one of them, and the token
  objects are what they were;
* `keys_apart` — a request never uses a key that another request has derived.
-/
import PicoHsm.Stateless

namespace PicoHsm

open Text Effects Prog

/-! ### The handles a request may use -/

/-- The handles found or derived in the session that is held. -/
def keysStep : List Nat → Ev p11Sig → List Nat
  | _, ⟨.openRwSession _, .ok _⟩ => []
  | keys, ⟨.findObjects _ _, .ok found⟩ => found ++ keys
  | keys, ⟨.deriveKey _ _ _ _, .ok key⟩ => key :: keys
  | _, ⟨.closeSession _, _⟩ => []
  | keys, _ => keys

def keysOf (h : List (Ev p11Sig)) : List Nat := h.foldl keysStep []

@[simp] theorem keysOf_snoc (h : List (Ev p11Sig)) (ev : Ev p11Sig) :
    keysOf (h ++ [ev]) = keysStep (keysOf h) ev := by
  rw [keysOf, List.foldl_append]
  rfl

/-- The key an operation uses. -/
def P11Op.key : P11Op → Option Nat
  | .sign _ _ key _ => some key
  | .verify _ _ key _ _ => some key
  | .encrypt _ _ key _ => some key
  | .decrypt _ _ key _ => some key
  | .deriveKey _ _ base _ => some base
  | _ => none

/-- The lookup cannot hit a derived key: those are secret keys without a label. -/
def Named (label : String) (cls : ObjectClass) : Prop := label ≠ "" ∨ cls ≠ .secretKey

/-- Keys are looked up by a name, derived under the client's template, and used only when
found or derived in the session that is held. -/
def OwnKeys (h : List (Ev p11Sig)) (op : P11Op) : Prop :=
  (∀ key, op.key = some key → key ∈ keysOf h) ∧
  (∀ s template, op = .findObjects s template →
    ∃ label cls, template = HsmClient.keyTemplate label cls ∧ Named label cls) ∧
  ∀ s mech base template, op = .deriveKey s mech base template →
    template = HsmClient.derivedTemplate

namespace HsmClient

variable {K : Crates} {c : HsmClient} {α : Type} {h : List (Ev p11Sig)} {s : Nat}

theorem ownKeys_allowsSessions : AllowsSessions OwnKeys := by
  intro h
  refine ⟨fun slot => ⟨?_, ?_, ?_⟩, fun s pin => ⟨?_, ?_, ?_⟩, fun s => ⟨?_, ?_, ?_⟩⟩ <;>
    simp [P11Op.key]

theorem ownKeys_use {op : P11Op} {key : Nat} (hop : op.key = some key) (hkey : key ∈ keysOf h)
    (hderive : ∀ s mech base template, op = .deriveKey s mech base template →
      template = derivedTemplate) : OwnKeys h op := by
  refine ⟨fun key' hk => ?_, ?_, hderive⟩
  · rw [hop, Option.some_inj] at hk
    exact hk ▸ hkey
  · rintro s template rfl
    cases hop

/-- Looking up a key by name, and going on with the key found. -/
theorem safe_findThen {label : String} {cls : ObjectClass} (hn : Named label cls)
    {f : Nat → Prog p11Sig (Except String α)}
    (hf : ∀ h key, key ∈ keysOf h → Safe (fun _ _ => True) OwnKeys (fun _ _ => True) h (f key)) :
    Safe (fun _ _ => True) OwnKeys (fun _ _ => True) h
      ((findKeyByLabel K s label cls).andThen f) := by
  rw [safe_andThen]
  refine ⟨⟨by simp [P11Op.key], ?_, by simp⟩, fun r _ => ?_⟩
  · rintro s' template hop
    cases hop
    exact ⟨label, cls, rfl, hn⟩
  rcases r with e | _ | ⟨key, _ | ⟨key', keys⟩⟩
  · trivial
  · trivial
  · exact hf _ key (by rw [keysOf_snoc]; exact List.mem_cons_self)
  · trivial

/-- Going on with a fresh IV; the handles stay at hand. -/
theorem safe_ivThen {f : List UInt8 → Prog p11Sig (Except String α)}
    (hf : ∀ h' iv, keysOf h' = keysOf h →
      Safe (fun _ _ => True) OwnKeys (fun _ _ => True) h' (f iv)) :
    Safe (fun _ _ => True) OwnKeys (fun _ _ => True) h ((randomIv s).andThen f) := by
  rw [safe_andThen]
  refine ⟨⟨by simp [P11Op.key], by simp, by simp⟩, fun r _ => ?_⟩
  have hkeep : keysOf (h ++ [⟨.generateRandom s 16, r⟩]) = keysOf h := keysOf_snoc _ _
  rcases r with e | bytes
  · trivial
  · simp only [questionWith]
    split
    · exact hf _ bytes hkeep
    · trivial

theorem safe_deriveThen {base : Nat} {peer : List UInt8} {label : String}
    {f : Nat → Prog p11Sig (Except String α)} (hbase : base ∈ keysOf h)
    (hf : ∀ h key, key ∈ keysOf h → Safe (fun _ _ => True) OwnKeys (fun _ _ => True) h (f key)) :
    Safe (fun _ _ => True) OwnKeys (fun _ _ => True) h
      ((deriveAesKey K s base peer label).andThen f) := by
  rw [safe_andThen]
  refine ⟨ownKeys_use rfl hbase ?_, fun r _ => ?_⟩
  · rintro s' mech base' template hop
    cases hop
    rfl
  · rcases r with e | key
    · trivial
    · exact hf _ key (by rw [keysOf_snoc]; exact List.mem_cons_self)

theorem safe_encryptKey {key : Nat} {iv data : List UInt8} {ctx : String} (hkey : key ∈ keysOf h) :
    Safe (fun _ _ => True) OwnKeys (fun _ _ => True) h (encryptWith s iv key data ctx) :=
  safe_encryptWith (ownKeys_use rfl hkey (by simp))

/-- **An operation uses its own keys only**: those it has found or derived in the session it
holds. -/
theorem perform_ownKeys (K : Crates) (c : HsmClient) (call : HsmCall)
    (hn : Named call.label call.objectClass) (h : List (Ev p11Sig)) :
    Safe (fun _ _ => True) OwnKeys (fun _ _ => True) h (c.perform K call) := by
  have hg := ownKeys_allowsSessions
  cases call with
  | sign label data =>
    refine safe_withSession hg (fun h session => safe_findThen hn fun h key hkey => ?_) h
    exact ⟨ownKeys_use rfl hkey (by simp), fun _ _ => trivial⟩
  | verify label data sig =>
    refine safe_withSession hg (fun h session => safe_findThen hn fun h key hkey => ?_) h
    refine ⟨ownKeys_use rfl hkey (by simp), fun r _ => ?_⟩
    rcases r with (⟨_ | _ | _ | n, text⟩ | text) | u <;> trivial
  | encrypt label plaintext =>
    refine safe_withSession hg (fun h session => safe_findThen hn fun h key hkey => ?_) h
    exact safe_ivThen fun h' iv hh => safe_encryptKey (hh ▸ hkey)
  | decrypt label ciphertext iv =>
    rw [perform, decryptAesCbcPad]
    split
    · refine safe_withSession hg (fun h session => safe_findThen hn fun h key hkey => ?_) h
      exact ⟨ownKeys_use rfl hkey (by simp), fun _ _ => trivial⟩
    · trivial
  | deriveAndEncrypt label peer plaintext =>
    refine safe_withSession hg (fun h session => safe_findThen hn fun h base hbase => ?_) h
    refine safe_deriveThen hbase fun h key hkey => ?_
    exact safe_ivThen fun h' iv hh => safe_encryptKey (hh ▸ hkey)
  | deriveAndDecrypt label peer ciphertext iv =>
    rw [perform, deriveAndDecrypt]
    split
    · refine safe_withSession hg (fun h session => safe_findThen hn fun h base hbase => ?_) h
      refine safe_deriveThen hbase fun h key hkey => ?_
      exact ⟨ownKeys_use rfl hkey (by simp), fun _ _ => trivial⟩
    · trivial

end HsmClient

/-- Under a loaded configuration, every HSM call of a request looks its key up by a name. -/
theorem Gateway.LineMediated.named {K : Crates} {g : Gateway}
    (hinv : AuthzTable.Inv K g.integrityLabel g.authz) {parse : String → Except String Request}
    {cn line : String} {h : List (Ev gwSig)} {c : HsmCall}
    (hm : g.LineMediated K parse cn line h (.hsm c)) : Named c.label c.objectClass := by
  obtain ⟨req, -, peer, hadm, -, hpr⟩ := hm
  have hlabel : req.keyLabel ≠ "" :=
    (hinv.label_ok _ (AuthzTable.isAuthorized_iff.mp hadm.1)).1
  cases c with
  | sign label data => exact Or.inr (by simp [HsmCall.objectClass])
  | verify label data sig => exact Or.inr (by simp [HsmCall.objectClass])
  | encrypt label data => exact Or.inl (hpr.1 ▸ hlabel)
  | decrypt label ct iv => exact Or.inl (hpr.1 ▸ hlabel)
  | deriveAndEncrypt label peer data => exact Or.inl (hpr.1 ▸ hlabel)
  | deriveAndDecrypt label peer ct iv => exact Or.inl (hpr.1 ▸ hlabel)

theorem processLine_named {K : Crates} {g : Gateway}
    (hinv : AuthzTable.Inv K g.integrityLabel g.authz) (parse : String → Except String Request)
    (cn line : String) :
    Safe (fun _ _ => True) (fun _ e => ∀ c, e = GwOp.hsm c → Named c.label c.objectClass)
      (fun _ _ => True) [] (g.processLine K parse cn line) := by
  refine (Gateway.processLine_lineMediated parse cn line []).mono (fun _ _ hr => hr) ?_
    fun _ _ hp => hp
  rintro h e hm c rfl
  exact Gateway.LineMediated.named hinv hm

theorem processLineP11_ownKeys {K : Crates} {g : Gateway}
    (hinv : AuthzTable.Inv K g.integrityLabel g.authz) (parse : String → Except String Request)
    (cn line : String) :
    Safe (fun _ _ => True) (OnP11 OwnKeys) (fun _ _ => True) []
      (g.processLineP11 K parse cn line) :=
  safe_processLineP11 (fun _ => True) (processLine_named hinv parse cn line)
    (fun c h hn _ => HsmClient.perform_ownKeys K g.hsm c hn h) trivial

/-! ### Whose the sessions are -/

section Held

variable {ι : Type} [DecidableEq ι] {ss : List Nat} {sess : ι → Option (Nat × Bool)} {i : ι}
  {x : Nat}

/-- The sessions that are open are those held, each by one request. -/
structure Assigned (ss : List Nat) (sess : ι → Option (Nat × Bool)) : Prop where
  nodup : ss.Nodup
  held_iff : ∀ x, x ∈ ss ↔ ∃ i b, sess i = some (x, b)
  unique : ∀ {i j : ι} {x : Nat} {b b' : Bool}, sess i = some (x, b) → sess j = some (x, b') → i = j

theorem Assigned.opened (h : Assigned ss sess) (hi : sess i = none) (hx : x ∉ ss) :
    Assigned (x :: ss) (Function.update sess i (some (x, false))) := by
  have hne : ∀ {j b}, sess j ≠ some (x, b) := fun hj => hx ((h.held_iff x).mpr ⟨_, _, hj⟩)
  refine ⟨List.nodup_cons.mpr ⟨hx, h.nodup⟩, fun y => ?_, ?_⟩
  · rw [List.mem_cons, h.held_iff]
    constructor
    · rintro (rfl | ⟨j, b, hj⟩)
      · exact ⟨i, false, Function.update_self i _ sess⟩
      · refine ⟨j, b, ?_⟩
        rw [Function.update_of_ne, hj]
        rintro rfl
        cases hi.symm.trans hj
    · rintro ⟨j, b, hj⟩
      rcases eq_or_ne j i with rfl | hji
      · rw [Function.update_self] at hj
        cases hj
        exact Or.inl rfl
      · rw [Function.update_of_ne hji] at hj
        exact Or.inr ⟨j, b, hj⟩
  · intro j k y b b' hj hk
    rcases eq_or_ne j i with rfl | hji
    · rcases eq_or_ne k j with rfl | hkj
      · rfl
      rw [Function.update_self] at hj
      rw [Function.update_of_ne hkj] at hk
      cases hj
      exact absurd hk hne
    rw [Function.update_of_ne hji] at hj
    rcases eq_or_ne k i with rfl | hki
    · rw [Function.update_self] at hk
      cases hk
      exact absurd hj hne
    · rw [Function.update_of_ne hki] at hk
      exact h.unique hj hk

/-- Logging in changes who is logged in, not who holds what. -/
theorem Assigned.loggedIn (h : Assigned ss sess) {b : Bool} (hi : sess i = some (x, b))
    (b' : Bool) : Assigned ss (Function.update sess i (some (x, b'))) := by
  have hsame : ∀ j y, (∃ c, Function.update sess i (some (x, b')) j = some (y, c)) ↔
      ∃ c, sess j = some (y, c) := by
    intro j y
    rcases eq_or_ne j i with rfl | hji
    · rw [Function.update_self, hi]
      simp
    · rw [Function.update_of_ne hji]
  refine ⟨h.nodup, fun y => ?_, fun {j k y c c'} hj hk => ?_⟩
  · rw [h.held_iff]
    exact exists_congr fun j => (hsame j y).symm
  · obtain ⟨d, hj⟩ := (hsame j y).mp ⟨c, hj⟩
    obtain ⟨d', hk⟩ := (hsame k y).mp ⟨c', hk⟩
    exact h.unique hj hk

theorem Assigned.closed (h : Assigned ss sess) {b : Bool} (hi : sess i = some (x, b)) :
    Assigned (ss.erase x) (Function.update sess i none) := by
  refine ⟨h.nodup.erase x, fun y => ?_, fun {j k y c c'} hj hk => ?_⟩
  · rw [h.nodup.mem_erase_iff, h.held_iff]
    constructor
    · rintro ⟨hyx, j, c, hj⟩
      refine ⟨j, c, ?_⟩
      rw [Function.update_of_ne, hj]
      rintro rfl
      rw [hi] at hj
      cases hj
      exact hyx rfl
    · rintro ⟨j, c, hj⟩
      rcases eq_or_ne j i with rfl | hji
      · rw [Function.update_self] at hj
        cases hj
      · rw [Function.update_of_ne hji] at hj
        refine ⟨?_, j, c, hj⟩
        rintro rfl
        exact hji (h.unique hj hi)
  · rcases eq_or_ne j i with rfl | hji
    · rw [Function.update_self] at hj
      cases hj
    rcases eq_or_ne k i with rfl | hki
    · rw [Function.update_self] at hk
      cases hk
    rw [Function.update_of_ne hji] at hj
    rw [Function.update_of_ne hki] at hk
    exact h.unique hj hk

end Held

/-! ### Whose the objects are -/

section Custody

variable {Key ι : Type} {objs : List (Object Key)} {w w' : World Key Inner Nat}
  {sess sess' : ι → Option (Nat × Bool)} {keys keys' : ι → List Nat}

/-- The token while requests are running: `sess` says which session each of them holds, `keys`
which handles it has found or derived there, and `objs` are the objects that were there
before. -/
structure Custody (objs : List (Object Key)) (w : World Key Inner Nat)
    (sess : ι → Option (Nat × Bool)) (keys : ι → List Nat) : Prop where
  sessions : Assigned w.device.state.sessions sess
  logout : w.device.state.sessions = [] → w.device.state.loggedIn = false
  token : w.contents.filter (fun k => k.session.isNone) = objs
  /-- An object of a session is a derived key, and the session is open. -/
  local' : ∀ k ∈ w.contents, ∀ s, k.session = some s →
    s ∈ w.device.state.sessions ∧ k.attributes = World.attributesOf HsmClient.derivedTemplate
  /-- A request that knows a handle holds a session; the handle stands for a token object, or
  for an object of that session. -/
  known : ∀ i, ∀ key ∈ keys i, ∃ o s b, (key, o) ∈ w.objects ∧ sess i = some (s, b) ∧
    ∀ s', o.session = some s' → s' = s

theorem Custody.of_kept (h : Custody objs w sess keys) (hobj : w'.objects = w.objects)
    (hstate : w'.device.state = w.device.state) : Custody objs w' sess keys := by
  have hcont : w'.contents = w.contents := congrArg (List.map Prod.snd) hobj
  refine ⟨?_, ?_, ?_, ?_, ?_⟩
  · rw [hstate]
    exact h.sessions
  · rw [hstate]
    exact h.logout
  · rw [hcont]
    exact h.token
  · rw [hcont, hstate]
    exact h.local'
  · rw [hobj]
    exact h.known

variable [DecidableEq ι] {F : Firmware Key} {L : Luck} {H : Numbering} {i : ι} {α : Type}
  {own : List (Ev p11Sig)} {pin : String}

/-- The request has done `op`, and was answered `r`. -/
def Custody.After (objs : List (Object Key)) (sess : ι → Option (Nat × Bool))
    (keys : ι → List Nat) (i : ι) (op : P11Op) (y : op.Ret × World Key Inner Nat) : Prop :=
  Custody objs y.2 (Function.update sess i (heldStep (sess i) ⟨op, y.1⟩))
    (Function.update keys i (keysStep (keys i) ⟨op, y.1⟩))

/-- An operation that changes neither the token nor what is known of it. -/
theorem Custody.same (h : Custody objs w sess keys) (i : ι) (hobj : w'.objects = w.objects)
    (hstate : w'.device.state = w.device.state) :
    Custody objs w' (Function.update sess i (sess i)) (Function.update keys i (keys i)) := by
  rw [Function.update_eq_self, Function.update_eq_self]
  exact h.of_kept hobj hstate

/-- Asking for something in a session. -/
theorem World.ask_kept (w : World Key Inner Nat) (session : Nat) (user : Bool)
    (f : Nat → Except Pkcs11Error α) :
    (w.ask (Firmware.attempt L (Firmware.inSession session user f))).2.objects = w.objects ∧
      (w.ask (Firmware.attempt L (Firmware.inSession session user f))).2.device.state =
        w.device.state :=
  ⟨rfl, Firmware.attempt_inSession_state L session user f w.device⟩

theorem World.use_kept (w : World Key Inner Nat) (handle session : Nat) (user : Bool)
    (f : Object Key → Nat → Except Pkcs11Error α) :
    (w.use handle fun k => Firmware.attempt L (Firmware.inSession session user (f k))).2.objects =
        w.objects ∧
      (w.use handle fun k =>
        Firmware.attempt L (Firmware.inSession session user (f k))).2.device.state =
        w.device.state := by
  rw [World.use]
  rcases w.lookup handle with _ | k
  · exact ⟨rfl, rfl⟩
  · exact w.ask_kept session user (f k)

theorem Custody.openSession (h : Custody objs w sess keys) (hi : sess i = none) (slot : Nat) :
    Custody.After objs sess keys i (.openRwSession slot)
      (w.answer (F.device L H) (.openRwSession slot)) := by
  simp only [Custody.After, World.answer, World.ask, Firmware.device, Firmware.attempt]
  rcases L.fault w.device.step with _ | e
  · have hfresh := H.session_fresh w.device.step w.device.state.sessions
    have hsess := h.sessions.opened hi hfresh
    refine ⟨hsess, fun hnil => (by cases hnil), h.token, fun x hx s hs => ?_, fun j key hkey => ?_⟩
    · obtain ⟨hmem, hattr⟩ := h.local' x hx s hs
      exact ⟨List.mem_cons_of_mem _ hmem, hattr⟩
    · rcases eq_or_ne j i with rfl | hj
      · rw [Function.update_self] at hkey
        cases hkey
      · rw [Function.update_of_ne hj] at hkey ⊢
        exact h.known j key hkey
  · exact h.same i rfl rfl

theorem Custody.login (h : Custody objs w sess keys) {x : Nat} (hi : sess i = some (x, false))
    (pin : String) :
    Custody.After objs sess keys i (.login x pin) (w.answer (F.device L H) (.login x pin)) := by
  have hx : x ∈ w.device.state.sessions := (h.sessions.held_iff x).mpr ⟨i, false, hi⟩
  simp only [Custody.After, World.answer, World.ask, Firmware.device, Firmware.attempt]
  rcases L.fault w.device.step with _ | e
  · simp only [Firmware.login, hx, not_true_eq_false, if_false]
    split
    · exact h.same i rfl rfl
    split
    · refine ⟨h.sessions.loggedIn hi true, fun hnil => ?_, h.token, h.local', fun j key hkey => ?_⟩
      · rw [hnil] at hx
        cases hx
      · have hkeys : Function.update keys i (keysStep (keys i) ⟨.login x pin, .ok ()⟩) = keys :=
          Function.update_eq_self i keys
        rw [hkeys] at hkey
        obtain ⟨o, s, b, ho, hb, hown⟩ := h.known j key hkey
        rcases eq_or_ne j i with rfl | hj
        · rw [hi] at hb
          cases hb
          exact ⟨o, x, true, ho, Function.update_self j _ sess, hown⟩
        · exact ⟨o, s, b, ho, by rwa [Function.update_of_ne hj], hown⟩
    · exact h.same i rfl rfl
  · exact h.same i rfl rfl

/-- While another session is open the objects keep their handles. -/
theorem World.close_of_open {x y : Nat} (hy : y ∈ w.device.state.sessions) (hne : y ≠ x) :
    (w.close (F.device L H) x).objects = w.objects.filter fun z => z.2.session ≠ some x := by
  have hstill : (Firmware.closed x w.device.state).sessions ≠ [] :=
    List.ne_nil_of_mem ((List.mem_erase_of_ne hne).mpr hy)
  have hkeep : (F.device L H).renumber x w.device = id := if_neg hstill
  rw [World.close_objects, hkeep, Prod.map_id, List.map_id]

/-- A session is closed: its objects go, and nobody else's. -/
theorem Custody.close (h : Custody objs w sess keys) {x : Nat} {b : Bool}
    (hi : sess i = some (x, b)) :
    Custody.After objs sess keys i (.closeSession x)
      (w.answer (F.device L H) (.closeSession x)) := by
  have hcont : (w.answer (F.device L H) (.closeSession x)).2.contents =
      w.contents.filter fun k => k.session ≠ some x := w.close_contents _ x
  refine ⟨h.sessions.closed hi, fun hnil => ?_, ?_, fun k hk s hs => ?_, fun j key hkey => ?_⟩
  · change (w.device.state.loggedIn && !(w.device.state.sessions.erase x).isEmpty) = false
    rw [show w.device.state.sessions.erase x = [] from hnil]
    simp
  · rw [hcont, List.filter_filter, ← h.token]
    refine List.filter_congr fun k _ => ?_
    rcases hs : k.session with _ | s <;> simp
  · rw [hcont] at hk
    obtain ⟨hk, hne⟩ := List.mem_filter.mp hk
    obtain ⟨hmem, hattr⟩ := h.local' k hk s hs
    refine ⟨?_, hattr⟩
    change s ∈ w.device.state.sessions.erase x
    rw [h.sessions.nodup.mem_erase_iff]
    refine ⟨?_, hmem⟩
    rintro rfl
    simp [hs] at hne
  · rcases eq_or_ne j i with rfl | hj
    · rw [Function.update_self] at hkey
      cases hkey
    rw [Function.update_of_ne hj] at hkey ⊢
    obtain ⟨o, s, b', ho, hb', hown⟩ := h.known j key hkey
    have hsx : s ≠ x := by
      rintro rfl
      exact hj (h.sessions.unique hb' hi)
    refine ⟨o, s, b', ?_, hb', hown⟩
    -- the object is a token object, or one of a session that stays open
    change (key, o) ∈ (w.close (F.device L H) x).objects
    rw [World.close_of_open ((h.sessions.held_iff s).mpr ⟨j, b', hb'⟩) hsx, List.mem_filter,
      decide_eq_true_eq]
    exact ⟨ho, fun hs => hsx (hown x hs).symm⟩

/-- A derived key is a secret key with an empty label. -/
theorem attributesOf_derivedTemplate :
    World.attributesOf HsmClient.derivedTemplate = .label [] :: HsmClient.derivedTemplate := rfl

omit [DecidableEq ι] in
/-- A search by name finds token objects only. -/
theorem Custody.find_token (h : Custody objs w sess keys) {label : String} {cls : ObjectClass}
    (hn : Named label cls) {k : Object Key} (hk : k ∈ w.contents)
    (hhas : k.has (HsmClient.keyTemplate label cls) = true) : k.session = none := by
  rcases hs : k.session with _ | s
  · rfl
  obtain ⟨-, hattr⟩ := h.local' k hk s hs
  rw [attributesOf_derivedTemplate] at hattr
  simp only [Object.has, hattr, HsmClient.keyTemplate, HsmClient.derivedTemplate] at hhas
  have hlabel : cls = .secretKey ∧ utf8 label = [] := by simpa using hhas
  rcases hn with hn | hn
  · exact absurd (utf8_inj (hlabel.2.trans (show [] = utf8 "" from rfl))) hn
  · exact absurd hlabel.1 hn

theorem Custody.find (h : Custody objs w sess keys) {label : String} {cls : ObjectClass}
    (hn : Named label cls) {x : Nat} {b : Bool} (hi : sess i = some (x, b)) :
    Custody.After objs sess keys i (.findObjects x (HsmClient.keyTemplate label cls))
      (w.answer (F.device L H) (.findObjects x (HsmClient.keyTemplate label cls))) := by
  obtain ⟨hobj, hstate⟩ := w.ask_kept (L := L) x true fun _ => (.ok () : Except Pkcs11Error Unit)
  rw [Custody.After, World.answer]
  change Custody objs (w.ask (Firmware.attempt L (Firmware.inSession x true fun _ => .ok ()))).2 _ _
  generalize hr : (w.ask ((F.device L H).findObjects x)).1 = r
  rcases r with e | ⟨⟩
  · exact h.same i hobj hstate
  have hkept := h.same i hobj hstate
  refine ⟨hkept.sessions, hkept.logout, hkept.token, hkept.local', fun j key hkey => ?_⟩
  rcases eq_or_ne j i with rfl | hj
  · rw [Function.update_self] at hkey
    rcases List.mem_append.mp hkey with hfound | hkey
    · obtain ⟨y, hy, rfl⟩ := List.mem_map.mp hfound
      obtain ⟨hmem, hhas⟩ := List.mem_filter.mp hy
      have hnone := h.find_token hn (List.mem_map_of_mem hmem) hhas
      refine ⟨y.2, x, b, hmem, (Function.update_self j _ sess).trans hi, fun s hs => ?_⟩
      cases hnone.symm.trans hs
    · exact hkept.known j key (by rwa [Function.update_self])
  · exact hkept.known j key (by rwa [Function.update_of_ne hj] at hkey ⊢)

theorem Custody.derive (h : Custody objs w sess keys) {x : Nat} {b : Bool}
    (hi : sess i = some (x, b)) (mech : Mechanism) (base : Nat) :
    Custody.After objs sess keys i (.deriveKey x mech base HsmClient.derivedTemplate)
      (w.answer (F.device L H) (.deriveKey x mech base HsmClient.derivedTemplate)) := by
  obtain ⟨hobj, hstate⟩ := w.use_kept (L := L) base x true fun k _ =>
    F.derive k.attributes k.key mech HsmClient.derivedTemplate
  rw [Custody.After, World.answer, World.derive]
  change (w.use base ((F.device L H).deriveKey x mech HsmClient.derivedTemplate)).2.objects = _
    at hobj
  change (w.use base ((F.device L H).deriveKey x mech HsmClient.derivedTemplate)).2.device.state = _
    at hstate
  generalize w.use base ((F.device L H).deriveKey x mech HsmClient.derivedTemplate) = y
    at hobj hstate
  obtain ⟨r, w'⟩ := y
  rcases r with e | key
  · exact h.same i hobj hstate
  have hkept := h.of_kept hobj hstate
  have hsess : Function.update sess i (sess i) = sess := Function.update_eq_self i sess
  have hx : x ∈ w'.device.state.sessions := (hkept.sessions.held_iff x).mpr ⟨i, b, hi⟩
  refine ⟨?_, hkept.logout, ?_, fun y hy s hs => ?_, fun j k hk => ?_⟩
  · exact hsess.symm ▸ hkept.sessions
  · exact hkept.token
  · rcases List.mem_cons.mp hy with rfl | hy
    · cases hs
      exact ⟨hx, rfl⟩
    · exact hkept.local' y hy s hs
  · change ∃ o s b, _ ∧ Function.update sess i (sess i) j = some (s, b) ∧ _
    rw [hsess]
    have hold : k ∈ keys j → ∃ o s b, (k, o) ∈ (w'.add (F.device L H) x HsmClient.derivedTemplate
        key).objects ∧ sess j = some (s, b) ∧ ∀ s', o.session = some s' → s' = s := by
      intro hk
      obtain ⟨o, s, b, ho, hrest⟩ := hkept.known j k hk
      exact ⟨o, s, b, List.mem_cons_of_mem _ ho, hrest⟩
    rcases eq_or_ne j i with rfl | hj
    · rw [Function.update_self] at hk
      rcases List.mem_cons.mp hk with rfl | hk
      · refine ⟨_, x, b, List.mem_cons_self, hi, fun s hs => ?_⟩
        cases hs
        rfl
      · exact hold hk
    · rw [Function.update_of_ne hj] at hk
      exact hold hk

/-- **One step of one request**, whatever the others hold. -/
theorem Custody.step (h : Custody objs w sess keys) {op : P11Op} (hheld : held own = sess i)
    (hd : Disciplined pin own op) (hk : OwnKeys own op) :
    Custody.After objs sess keys i op (w.answer (F.device L H) op) := by
  cases op with
  | openRwSession slot => exact h.openSession (hheld.symm.trans hd) slot
  | login x pin' => exact h.login (hheld.symm.trans hd.1) pin'
  | closeSession x =>
    obtain ⟨b, hb⟩ := hd
    exact h.close (hheld.symm.trans hb)
  | findObjects x template =>
    obtain ⟨label, cls, rfl, hn⟩ := hk.2.1 x template rfl
    exact h.find hn (hheld.symm.trans hd)
  | deriveKey x mech base template =>
    obtain rfl := hk.2.2 x mech base template rfl
    exact h.derive (hheld.symm.trans hd) mech base
  | generateRandom x len =>
    obtain ⟨hobj, hstate⟩ := w.ask_kept (L := L) x false fun n =>
      (.ok (L.random n) : Except Pkcs11Error (List UInt8))
    exact h.same i hobj hstate
  | sign x mech key data =>
    obtain ⟨hobj, hstate⟩ := w.use_kept (L := L) key x true fun k n =>
      F.sign k.attributes k.key mech data (L.random n)
    exact h.same i hobj hstate
  | verify x mech key data sig =>
    obtain ⟨hobj, hstate⟩ := w.use_kept (L := L) key x false fun k _ =>
      F.verify k.attributes k.key mech data sig
    exact h.same i hobj hstate
  | encrypt x mech key data =>
    obtain ⟨hobj, hstate⟩ := w.use_kept (L := L) key x true fun k _ =>
      F.encrypt k.attributes k.key mech data
    exact h.same i hobj hstate
  | decrypt x mech key data =>
    obtain ⟨hobj, hstate⟩ := w.use_kept (L := L) key x true fun k _ =>
      F.decrypt k.attributes k.key mech data
    exact h.same i hobj hstate

end Custody

/-! ### Runs -/

section Runs

variable {Key ι : Type}

/-- The device, the audit log and the runtime, as `L` has it. -/
def worldAct (F : Firmware Key) (L : Luck) (H : Numbering) (w : World Key Inner Nat)
    (ev : Ev lowSig) (w' : World Key Inner Nat) : Prop :=
  World.answerLow (F.device L H) L.surroundings w ev.op = (ev.ret, w')

/-- The lines `(cn, line)`, all still to be handled. -/
def Gateway.servingOn (K : Crates) (g : Gateway) (parse : String → Except String Request)
    (w : World Key Inner Nat) (lines : ι → String × String) :
    Conf lowSig (World Key Inner Nat) ι Response :=
  ⟨w, fun i => g.processLineP11 K parse (lines i).1 (lines i).2, []⟩

variable [DecidableEq ι] {K : Crates} {g : Gateway} {parse : String → Except String Request}
  {F : Firmware Key} {L : Luck} {H : Numbering} {w : World Key Inner Nat}
  {lines : ι → String × String} {c : Conf lowSig (World Key Inner Nat) ι Response}

theorem custody_of_reach (hinv : AuthzTable.Inv K g.integrityLabel g.authz) (hw : w.Idle)
    (hc : Reach (worldAct F L H) anySchedule (g.servingOn K parse w lines) c) :
    Custody w.contents c.shared (fun i => sessionOf (c.own i))
      (fun i => keysOf (p11Part (c.own i))) := by
  refine Reach.inv (fun c => Custody w.contents c.shared (fun i => sessionOf (c.own i))
    (fun i => keysOf (p11Part (c.own i)))) ?_ ?_ hc
  · refine ⟨⟨?_, fun x => ?_, fun hi => by cases hi⟩, fun _ => ?_, ?_, fun x hx s hs => ?_,
      fun i key hkey => ?_⟩
    · exact hw.state ▸ List.nodup_nil
    · change x ∈ w.device.state.sessions ↔ _
      rw [hw.state]
      refine ⟨fun hx => (by cases hx), ?_⟩
      rintro ⟨i, b, hi⟩
      cases hi
    · exact congrArg TokenState.loggedIn hw.state
    · refine List.filter_eq_self.mpr fun x hx => ?_
      rw [hw.token x hx]
      rfl
    · cases (hw.token x hx).symm.trans hs
    · cases hkey
  · intro c i e k r w' hr ih hp ha _
    have hd := hr.guar_next rfl (processLineP11_disciplined K g parse (lines i).1 (lines i).2) hp
    have hk := hr.guar_next rfl (processLineP11_ownKeys hinv parse (lines i).1 (lines i).2) hp
    rw [Conf.advance_shared, Conf.map_own_advance sessionOf,
      Conf.map_own_advance fun h => keysOf (p11Part h)]
    rw [worldAct] at ha
    cases e with
    | append a =>
      obtain rfl := congrArg Prod.snd ha
      rw [sessionOf_other rfl, p11Part_snoc]
      exact (List.append_nil (p11Part (c.own i))).symm ▸ ih.same i rfl rfl
    | spawn =>
      obtain rfl := congrArg Prod.snd ha
      rw [sessionOf_other rfl, p11Part_snoc]
      exact (List.append_nil (p11Part (c.own i))).symm ▸ ih.same i rfl rfl
    | p11 op =>
      rw [sessionOf_p11, p11Part_snoc]
      have hstep := ih.step (i := i) (F := F) (L := L) (H := H) rfl hd hk
      change c.shared.answer (F.device L H) op = (r, w') at ha
      rw [Custody.After, ha] at hstep
      simpa [p11Event] using hstep

/-- **Sessions and session objects are in custody.**  Under a loaded configuration, from a token
at rest, under every schedule of any number of requests and whatever fails: the open
sessions are those held by requests that have not returned, each by one of them; every
object that is not one of the token's own goes with an open session; the token's own are
what they were; and when no request is running, nothing is left of any of them. -/
theorem sessions_in_custody {cfg : FileConfig}
    (hcfg : AuthzTable.fromConfig K cfg g.integrityLabel = .ok g.authz) (hw : w.Idle)
    (hc : Reach (worldAct F L H) anySchedule (g.servingOn K parse w lines) c) :
    (∀ x, x ∈ c.shared.device.state.sessions ↔
      ∃ i, ¬ c.Done i ∧ ∃ b, sessionOf (c.own i) = some (x, b)) ∧
    (∀ i j x b b', sessionOf (c.own i) = some (x, b) → sessionOf (c.own j) = some (x, b') →
      i = j) ∧
    (∀ o ∈ c.shared.contents, ∀ x, o.session = some x → x ∈ c.shared.device.state.sessions) ∧
    c.shared.contents.filter (fun o => o.session.isNone) = w.contents ∧
    ((∀ i, ¬ c.InFlight i) →
      c.shared.device.state = ⟨[], false⟩ ∧ c.shared.contents = w.contents) := by
  have h := custody_of_reach (AuthzTable.fromConfig_inv hcfg) hw hc
  -- a request that has returned holds nothing
  have hdone : ∀ i, c.Done i → sessionOf (c.own i) = none := by
    rintro i ⟨resp, hp⟩
    have hs := hc.own_steps rfl i
    rw [hp] at hs
    exact (processLineP11_disciplined K g parse (lines i).1 (lines i).2).post_of_steps hs
      fun _ _ _ _ => trivial
  have hlocal : ∀ o ∈ c.shared.contents, ∀ x, o.session = some x →
      x ∈ c.shared.device.state.sessions := fun o ho x hx => (h.local' o ho x hx).1
  refine ⟨fun x => ?_, fun i j x b b' => h.sessions.unique, hlocal, h.token, fun hrest => ?_⟩
  · rw [h.sessions.held_iff]
    refine exists_congr fun i => ⟨?_, And.right⟩
    rintro ⟨b, hb⟩
    refine ⟨fun hd => ?_, b, hb⟩
    cases (hdone i hd).symm.trans hb
  · have hnone : ∀ i, sessionOf (c.own i) = none := by
      intro i
      by_cases hi : c.own i = []
      · rw [hi]
        rfl
      · exact hdone i (by_contra fun hd => hrest i ⟨hi, hd⟩)
    have hnil : c.shared.device.state.sessions = [] := by
      refine List.eq_nil_iff_forall_not_mem.mpr fun x hx => ?_
      obtain ⟨i, b, hb⟩ := (h.sessions.held_iff x).mp hx
      cases (hnone i).symm.trans hb
    refine ⟨?_, ?_⟩
    · have hout := h.logout hnil
      rcases hst : c.shared.device.state with ⟨ss, b⟩
      rw [hst] at hnil hout
      obtain rfl : ss = [] := hnil
      obtain rfl : b = false := hout
      rfl
    · rw [← h.token, eq_comm, List.filter_eq_self]
      intro o ho
      rcases hs : o.session with _ | s
      · rfl
      · have := hlocal o ho s hs
        rw [hnil] at this
        cases this

/-- **Derived keys stay apart.**  Under a loaded configuration, under every schedule and whatever
fails: the key a request is about to use is one of the token's own, or was derived in the
request's own session, which no other request holds. -/
theorem keys_apart {cfg : FileConfig}
    (hcfg : AuthzTable.fromConfig K cfg g.integrityLabel = .ok g.authz) (hw : w.Idle)
    (hc : Reach (worldAct F L H) anySchedule (g.servingOn K parse w lines) c) {i : ι}
    {op : P11Op} {k : op.Ret → Prog lowSig Response} (hp : c.prog i = .call (.p11 op) k)
    {key : Nat} (hkey : op.key = some key) :
    ∃ o, c.shared.lookup key = some o ∧
      ((o.session = none ∧ o ∈ w.contents) ∨
        (o.session = some op.session ∧ sessionOf (c.own i) = some (op.session, true) ∧
          ∀ j b, sessionOf (c.own j) = some (op.session, b) → j = i)) := by
  have hinv := AuthzTable.fromConfig_inv hcfg
  have h := custody_of_reach hinv hw hc
  have hd := hc.guar_next rfl (processLineP11_disciplined K g parse (lines i).1 (lines i).2) hp
  have hk := hc.guar_next rfl (processLineP11_ownKeys hinv parse (lines i).1 (lines i).2) hp
  obtain ⟨o, s, b, ho, hb, hown⟩ := h.known i key (hk.1 key hkey)
  have hheld : sessionOf (c.own i) = some (op.session, true) := by
    cases op <;> first | exact hd | cases hkey
  refine ⟨o, c.shared.lookup_of_mem (x := (key, o)) ho, ?_⟩
  rcases hs : o.session with _ | s'
  · refine Or.inl ⟨rfl, ?_⟩
    rw [← h.token, List.mem_filter]
    exact ⟨List.mem_map_of_mem (f := Prod.snd) ho, by rw [hs]; rfl⟩
  · obtain rfl := hown s' hs
    obtain ⟨rfl, -⟩ := Prod.mk.inj (Option.some_inj.mp (hb.symm.trans hheld))
    exact Or.inr ⟨rfl, hheld, fun j b' hj => h.sessions.unique hj hheld⟩

end Runs

/-! ### Two requests that derive at once -/

/-- A request of `app-a` to derive a key and encrypt with it. -/
def deriveRequest : Request :=
  .deriveAndEncrypt "k1" "ecdh1_derive" "aes_cbc_pad" "cGVlci1h" "aGVsbG8="

def twoDerives : Conf lowSig (World (List UInt8) Inner Nat) Bool Response :=
  Ref.gateway.servingOn Ref.crates Ref.parseRequest Ref.desk
    fun _ => ("app-a", Ref.requestText deriveRequest)

theorem twoDerives_eq : twoDerives = ⟨Ref.desk, fun _ => (Ref.gateway.processRequest Ref.crates
    "app-a" deriveRequest).interp (Ref.gateway.lower Ref.crates), []⟩ := by
  simp only [twoDerives, Gateway.servingOn,
    Gateway.processLineP11_of_parse (Ref.parseRequest_requestText _)]

/-- What answers them: a device on which nothing fails. -/
def twoAnswer : World (List UInt8) Inner Nat → (e : LowOp) →
    LowOp.Ret e × World (List UInt8) Inner Nat :=
  World.answerLow (Ref.firmware.device (Ref.luckBut none) Ref.numbering)
    (Ref.luckBut none).surroundings

/-- The first request has derived its key and drawn its IV when the second one opens a
session. -/
def twoDerived : Conf lowSig (World (List UInt8) Inner Nat) Bool Response :=
  twoDerives.exec twoAnswer
    [false, false, false, false, false, false, false, true, true, true]

theorem reach_twoDerived :
    Reach (worldAct Ref.firmware (Ref.luckBut none) Ref.numbering) anySchedule twoDerives
      twoDerived :=
  Reach.init.exec (fun _ _ => rfl) _

theorem sessions_in_custody_twoDerived :
    (∀ x, x ∈ twoDerived.shared.device.state.sessions ↔
      ∃ i, ¬ twoDerived.Done i ∧ ∃ b, sessionOf (twoDerived.own i) = some (x, b)) ∧
    twoDerived.shared.contents.filter (fun o => o.session.isNone) = Ref.desk.contents := by
  obtain ⟨hopen, -, -, htoken, -⟩ :=
    sessions_in_custody Ref.gateway_loaded Ref.desk_idle reach_twoDerived
  exact ⟨hopen, htoken⟩

/-- The key the first request is about to encrypt with is its own. -/
theorem keys_apart_twoDerived :
    ∃ x key k o, twoDerived.prog false =
        .call (.p11 (.encrypt x (.aesCbcPad (List.replicate 16 7)) key (utf8 "hello"))) k ∧
      twoDerived.shared.lookup key = some o ∧ o.session = some x ∧
      ∀ j b, sessionOf (twoDerived.own j) = some (x, b) → j = false := by
  have hp : ∃ x key k, twoDerived.prog false =
      .call (.p11 (.encrypt x (.aesCbcPad (List.replicate 16 7)) key (utf8 "hello"))) k ∧
      (key, x) = (6, 1) ∧ (twoDerived.shared.lookup 6).map Object.session = some (some 1) := by
    rw [twoDerived, twoDerives_eq]
    exact ⟨_, _, _, rfl, rfl, rfl⟩
  obtain ⟨x, key, k, hp, hkey, hsession⟩ := hp
  cases hkey
  obtain ⟨o, ho, ⟨hnone, -⟩ | ⟨hs, -, hapart⟩⟩ :=
    keys_apart Ref.gateway_loaded Ref.desk_idle reach_twoDerived hp rfl
  · -- the key is not one of the token's own
    rw [ho, Option.map_some, hnone] at hsession
    cases hsession
  · exact ⟨1, 6, k, o, hp, ho, hs, hapart⟩

end PicoHsm
