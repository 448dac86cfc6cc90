/-
What concurrency can do to a request.

Any number of requests run at once on one device (`Firmware.lean`), under every schedule and
with any faults.  They share the login, see the session objects of one another, and are given
handles that others have had before.  A request that returns has then still the response that
`process_line` gives over the service of `Service.lean`, which knows of no other request; and
the only failures that are not the device's are logins refused with
`CKR_USER_ALREADY_LOGGED_IN`.

* `knownKeys`, `Explained` — the key a handle stands for, as the request's own steps tell, and
  answers that the service gives as well;
* `Insight.step` — one step of one request on the shared device;
* `explained_of_reach` — every answer of every interleaved run is explained;
* `provides_trace` — the trace of a request, as a token that provides the steps;
* `concurrent_eq_service` — the response of each request.
-/
import PicoHsm.Custody
import PicoHsm.Service

namespace PicoHsm

open Text Effects Prog

/-! ### What a request's own steps tell -/

section Knowledge

variable {Key : Type} (F : Firmware Key) (objs : List (Object Key))

/-- The one handle found stands for the one key there is to be found. -/
def foundKey (known : Nat → Option (Material Key)) :
    List Nat → List (Object Key) → Nat → Option (Material Key)
  | [a], [k] => Function.update known a (some k.material)
  | _, _ => known

/-- The keys the handles stand for: those found are the token's, those derived are computed
from the key they are derived from. -/
def knowStep (known : Nat → Option (Material Key)) : Ev p11Sig → Nat → Option (Material Key)
  | ⟨.openRwSession _, .ok _⟩ => fun _ => none
  | ⟨.findObjects _ template, .ok found⟩ =>
    foundKey known found (objs.filter fun k => k.has template)
  | ⟨.deriveKey _ mech base template, .ok key⟩ =>
    Function.update known key <| (known base).bind fun m =>
      (F.derive m.1 m.2 mech template).toOption.map fun k => (World.attributesOf template, k)
  | ⟨.closeSession _, _⟩ => fun _ => none
  | _ => known

def knownKeys (h : List (Ev p11Sig)) : Nat → Option (Material Key) :=
  h.foldl (knowStep F objs) fun _ => none

theorem knownKeys_snoc (h : List (Ev p11Sig)) (ev : Ev p11Sig) :
    knownKeys F objs (h ++ [ev]) = knowStep F objs (knownKeys F objs h) ev := by
  rw [knownKeys, List.foldl_append]
  rfl

/-- The answer to step `n` of a request that knows these keys is what the service has. -/
def Explained (L : Luck) (known : Nat → Option (Material Key)) (n : ℕ) : Ev p11Sig → Prop
  | ⟨.openRwSession _, r⟩ =>
    Except.map (fun _ => ()) r = Service.outcome L (fun _ => .ok ()) n
  | ⟨.login _ pin, r⟩ =>
    r = Service.outcome L (fun _ => if pin = F.pin then .ok () else .error Firmware.pinIncorrect) n
  | ⟨.findObjects _ template, r⟩ =>
    Except.map List.length r = (Service.outcome L (fun _ => .ok ()) n).map fun _ =>
      (objs.filter fun k => k.has template).length
  | ⟨.sign _ mech a data, r⟩ =>
    ∀ m, known a = some m → r = Service.outcome L (fun n => F.sign m.1 m.2 mech data (L.random n)) n
  | ⟨.verify _ mech a data sig, r⟩ =>
    ∀ m, known a = some m → r = Service.outcome L (fun _ => F.verify m.1 m.2 mech data sig) n
  | ⟨.generateRandom _ _, r⟩ => r = Service.outcome L (fun n => .ok (L.random n)) n
  | ⟨.encrypt _ mech a data, r⟩ =>
    ∀ m, known a = some m → r = Service.outcome L (fun _ => F.encrypt m.1 m.2 mech data) n
  | ⟨.decrypt _ mech a data, r⟩ =>
    ∀ m, known a = some m → r = Service.outcome L (fun _ => F.decrypt m.1 m.2 mech data) n
  | ⟨.deriveKey _ mech a template, r⟩ =>
    ∀ m, known a = some m → Except.map (fun _ => ()) r =
      (Service.outcome L (fun _ => F.derive m.1 m.2 mech template) n).map fun _ => ()
  | ⟨.closeSession _, _⟩ => True

end Knowledge

/-! ### One step on the shared device -/

section Insight

variable {Key ι α : Type} {F : Firmware Key} {L : Luck} {H : Numbering}
  {objs : List (Object Key)} {w w' : World Key Inner Nat} {sess : ι → Option (Nat × Bool)}
  {keys : ι → List Nat} {known : ι → Nat → Option (Material Key)} {i : ι}

/-- A session is held, and the handle stands for this key, which is one of the token's own or
of that session. -/
def StandsFor (w : World Key Inner Nat) (held : Option (Nat × Bool)) (a : Nat)
    (m : Material Key) : Prop :=
  ∃ o s b, (a, o) ∈ w.objects ∧ o.material = m ∧ held = some (s, b) ∧
    ∀ s', o.session = some s' → s' = s

/-- What the requests have been told is so: who has logged in is, and the handles stand for the
keys they are known for. -/
structure Insight (w : World Key Inner Nat) (sess : ι → Option (Nat × Bool))
    (known : ι → Nat → Option (Material Key)) : Prop where
  loggedIn : ∀ i x, sess i = some (x, true) → w.device.state.loggedIn = true
  stands : ∀ i a m, known i a = some m → StandsFor w (sess i) a m

variable [DecidableEq ι]

/-- One request has moved. -/
theorem Insight.update (h : Insight w sess known) {s : Option (Nat × Bool)}
    {k : Nat → Option (Material Key)}
    (hlog : ∀ j x, j ≠ i → sess j = some (x, true) → w'.device.state.loggedIn = true)
    (hown : ∀ x, s = some (x, true) → w'.device.state.loggedIn = true)
    (hothers : ∀ j a m, j ≠ i → StandsFor w (sess j) a m → StandsFor w' (sess j) a m)
    (hself : ∀ a m, k a = some m → StandsFor w' s a m) :
    Insight w' (Function.update sess i s) (Function.update known i k) := by
  refine ⟨fun j x hj => ?_, fun j a m hk => ?_⟩
  · rcases eq_or_ne j i with rfl | hji
    · rw [Function.update_self] at hj
      exact hown x hj
    · rw [Function.update_of_ne hji] at hj
      exact hlog j x hji hj
  · rcases eq_or_ne j i with rfl | hji
    · rw [Function.update_self] at hk ⊢
      exact hself a m hk
    · rw [Function.update_of_ne hji] at hk ⊢
      exact hothers j a m hji (h.stands j a m hk)

/-- An operation that changes neither the token nor what is known of it. -/
theorem Insight.same (h : Insight w sess known) (i : ι) (hobj : w'.objects = w.objects)
    (hlog : w'.device.state.loggedIn = w.device.state.loggedIn) :
    Insight w' (Function.update sess i (sess i)) (Function.update known i (known i)) := by
  have hstands : ∀ j a m, StandsFor w (sess j) a m → StandsFor w' (sess j) a m := by
    rintro j a m ⟨o, s, b, ho, hrest⟩
    exact ⟨o, s, b, hobj.symm ▸ ho, hrest⟩
  refine h.update (fun j x _ hj => ?_) (fun x hi => ?_) (fun j a m _ => hstands j a m)
    fun a m hk => ?_
  · rw [hlog]
    exact h.loggedIn j x hj
  · rw [hlog]
    exact h.loggedIn i x hi
  · exact hstands i a m (h.stands i a m hk)

/-- A login that is refused because another request is logged in. -/
def Refused (ev : Ev p11Sig) : Prop :=
  ∃ x pin, ev = ⟨.login x pin, .error Firmware.userAlreadyLoggedIn⟩

/-- What `op` has done, and its answer explained by a failure that is the device's or the login
of another request. -/
def Insight.After (F : Firmware Key) (L : Luck) (objs : List (Object Key))
    (w : World Key Inner Nat) (sess : ι → Option (Nat × Bool))
    (known : ι → Nat → Option (Material Key)) (i : ι) (n : ℕ) (op : P11Op)
    (y : op.Ret × World Key Inner Nat) : Prop :=
  Insight y.2 (Function.update sess i (heldStep (sess i) ⟨op, y.1⟩))
    (Function.update known i (knowStep F objs (known i) ⟨op, y.1⟩)) ∧
  ∃ f, (f = L.fault w.device.step ∨
      f = some Firmware.userAlreadyLoggedIn ∧ Refused ⟨op, y.1⟩) ∧
    ∀ L' : Luck, L'.fault n = f → L'.random n = L.random w.device.step →
      Explained F objs L' (known i) n ⟨op, y.1⟩

/-- Two steps that fail alike, and give the same otherwise. -/
theorem Service.outcome_congr {L L' : Luck} {f f' : ℕ → Except Pkcs11Error α} {n N : ℕ}
    (hfault : L'.fault n = L.fault N) (hf : f' n = f N) :
    Service.outcome L' f' n = Service.outcome L f N := by
  rw [Service.outcome, Service.outcome, hfault, hf]

theorem Service.outcome_ok {L : Luck} {f : ℕ → Except Pkcs11Error α} {n : ℕ} {v : α}
    (h : Service.outcome L f n = .ok v) : f n = .ok v := by
  rw [Service.outcome] at h
  rcases hf : L.fault n with _ | e
  · rwa [hf] at h
  · rw [hf] at h
    cases h

/-- In an open session, with the user logged in, a step does what it says or fails. -/
theorem World.ask_eq {x : Nat} (hx : x ∈ w.device.state.sessions)
    (hlog : w.device.state.loggedIn = true) (user : Bool) (f : Nat → Except Pkcs11Error α) :
    (w.ask (Firmware.attempt L (Firmware.inSession x user f))).1 =
      Service.outcome L f w.device.step := by
  have hin : Firmware.inSession x user f w.device.state w.device.step =
      (f w.device.step, w.device.state) := by
    simp [Firmware.inSession, hx, hlog]
  simp only [World.ask, Firmware.attempt, Service.outcome, hin]
  rcases L.fault w.device.step with _ | e <;> rfl

theorem World.use_eq {x a : Nat} {m : Material Key} {held : Option (Nat × Bool)}
    (hm : StandsFor w held a m) (hx : x ∈ w.device.state.sessions)
    (hlog : w.device.state.loggedIn = true) (user : Bool)
    (f : Material Key → Nat → Except Pkcs11Error α) :
    (w.use a fun k => Firmware.attempt L (Firmware.inSession x user (f k.material))).1 =
      Service.outcome L (f m) w.device.step := by
  obtain ⟨o, -, -, ho, rfl, -⟩ := hm
  have hlook : w.lookup a = some o := w.lookup_of_mem (x := (a, o)) ho
  rw [World.use, hlook]
  exact World.ask_eq hx hlog user (f o.material)

theorem Insight.openSession (h : Insight w sess known) (slot : Nat) (n : ℕ) :
    Insight.After F L objs w sess known i n (.openRwSession slot)
      (w.answer (F.device L H) (.openRwSession slot)) := by
  simp only [Insight.After, World.answer, World.ask, Firmware.device, Firmware.attempt]
  rcases hf : L.fault w.device.step with _ | e
  · refine ⟨h.update (fun j x _ hj => h.loggedIn j x hj) (fun x hx => by cases hx)
      (fun j a m _ hm => hm) fun a m hk => (by cases hk), none, Or.inl rfl, fun L' hL' _ => ?_⟩
    rw [Explained, Service.outcome, hL']
    rfl
  · refine ⟨h.same i rfl rfl, some e, Or.inl rfl, fun L' hL' _ => ?_⟩
    rw [Explained, Service.outcome, hL']
    rfl

theorem Insight.login (h : Insight w sess known) (hc : Custody objs w sess keys) {x : Nat}
    (hi : sess i = some (x, false)) (pin : String) (n : ℕ) :
    Insight.After F L objs w sess known i n (.login x pin)
      (w.answer (F.device L H) (.login x pin)) := by
  have hx : x ∈ w.device.state.sessions := (hc.sessions.held_iff x).mpr ⟨i, false, hi⟩
  simp only [Insight.After, World.answer, World.ask, Firmware.device, Firmware.attempt]
  rcases hf : L.fault w.device.step with _ | e
  · simp only [Firmware.login, hx, not_true_eq_false, if_false]
    by_cases hlog : w.device.state.loggedIn = true
    · -- another request is logged in
      rw [if_pos hlog]
      refine ⟨h.same i rfl rfl, _, Or.inr ⟨rfl, x, pin, rfl⟩, fun L' hL' _ => ?_⟩
      change Except.error Firmware.userAlreadyLoggedIn = Service.outcome L' _ n
      rw [Service.outcome, hL']
    rw [if_neg hlog]
    by_cases hpin : pin = F.pin
    · rw [if_pos hpin]
      refine ⟨?_, none, Or.inl rfl, fun L' hL' _ => ?_⟩
      · refine h.update (fun _ _ _ _ => rfl) (fun _ _ => rfl) (fun _ _ _ _ hm => hm)
          fun a m hk => ?_
        obtain ⟨o, s, b, ho, hm, hb, hown⟩ := h.stands i a m hk
        rw [hi] at hb
        cases hb
        exact ⟨o, x, true, ho, hm, rfl, hown⟩
      · change Except.ok () = Service.outcome L' _ n
        rw [Service.outcome, hL', if_pos hpin]
    · rw [if_neg hpin]
      refine ⟨h.same i rfl rfl, none, Or.inl rfl, fun L' hL' _ => ?_⟩
      change Except.error Firmware.pinIncorrect = Service.outcome L' _ n
      rw [Service.outcome, hL', if_neg hpin]
  · refine ⟨h.same i rfl rfl, some e, Or.inl rfl, fun L' hL' _ => ?_⟩
    rw [Explained, Service.outcome, hL']

/-- A session is closed: who else is logged in stays so, and keeps its keys. -/
theorem Insight.close (h : Insight w sess known) (hc : Custody objs w sess keys) {x : Nat}
    {b : Bool} (hi : sess i = some (x, b)) (n : ℕ) :
    Insight.After F L objs w sess known i n (.closeSession x)
      (w.answer (F.device L H) (.closeSession x)) := by
  have hne : ∀ j y b', j ≠ i → sess j = some (y, b') → y ≠ x := by
    rintro j y b' hji hj rfl
    exact hji (hc.sessions.unique hj hi)
  refine ⟨h.update (fun j y hji hj => ?_) (fun y hy => by cases hy) ?_ fun a m hk => (by cases hk),
    _, Or.inl rfl, fun L' _ _ => trivial⟩
  · -- its session is still open, so that the login stays
    have hy : y ∈ w.device.state.sessions := (hc.sessions.held_iff y).mpr ⟨j, true, hj⟩
    have hstill : y ∈ w.device.state.sessions.erase x :=
      (List.mem_erase_of_ne (hne j y true hji hj)).mpr hy
    change (w.device.state.loggedIn && !(w.device.state.sessions.erase x).isEmpty) = true
    rw [h.loggedIn j y hj]
    rcases hss : w.device.state.sessions.erase x with _ | ⟨s, ss⟩
    · rw [hss] at hstill
      cases hstill
    · rfl
  · rintro j a m hji ⟨o, s, b', ho, hm, hb', hown⟩
    refine ⟨o, s, b', ?_, hm, hb', hown⟩
    have hsx : s ≠ x := hne j s b' hji hb'
    -- its session is open, so that the handles stay
    change (a, o) ∈ (w.close (F.device L H) x).objects
    rw [World.close_of_open ((hc.sessions.held_iff s).mpr ⟨j, b', hb'⟩) hsx, List.mem_filter,
      decide_eq_true_eq]
    exact ⟨ho, fun hs => hsx (hown x hs).symm⟩

theorem Insight.find (h : Insight w sess known) (hc : Custody objs w sess keys) {x : Nat}
    (hi : sess i = some (x, true)) {label : String} {cls : ObjectClass} (hn : Named label cls)
    (n : ℕ) :
    Insight.After F L objs w sess known i n (.findObjects x (HsmClient.keyTemplate label cls))
      (w.answer (F.device L H) (.findObjects x (HsmClient.keyTemplate label cls))) := by
  have hx : x ∈ w.device.state.sessions := (hc.sessions.held_iff x).mpr ⟨i, true, hi⟩
  -- the search finds what it finds among the token's own objects
  have hfind : (w.find (HsmClient.keyTemplate label cls)).map Prod.snd =
      objs.filter fun k => k.has (HsmClient.keyTemplate label cls) := by
    rw [World.find_contents, ← hc.token, List.filter_filter]
    refine List.filter_congr fun k hk => ?_
    rcases hhas : k.has (HsmClient.keyTemplate label cls)
    · rw [Bool.false_and]
    · rw [hc.find_token hn hk hhas]
      rfl
  have hr := World.ask_eq (L := L) hx (h.loggedIn i x hi) true fun _ =>
    (.ok () : Except Pkcs11Error Unit)
  obtain ⟨hobj, hstate⟩ := w.ask_kept (L := L) x true fun _ => (.ok () : Except Pkcs11Error Unit)
  have hlog := congrArg TokenState.loggedIn hstate
  rw [Insight.After, World.answer, show (F.device L H).findObjects x =
    Firmware.attempt L (Firmware.inSession x true fun _ => .ok ()) from rfl, hr]
  refine ⟨?_, L.fault w.device.step, Or.inl rfl, fun L' hL' _ => ?_⟩
  · rcases Service.outcome L (fun _ => (.ok () : Except Pkcs11Error Unit)) w.device.step with e | ⟨⟩
    · exact h.same i hobj hlog
    have hkept := h.same i hobj hlog
    rw [Function.update_eq_self, Function.update_eq_self] at hkept
    have hself : Function.update sess i (sess i) = sess := Function.update_eq_self i sess
    refine hkept.update (fun j y _ hj => hkept.loggedIn j y hj) (fun y hy => hkept.loggedIn i y hy)
      (fun j a m _ hm => hm) fun a m hk => ?_
    change foundKey (known i) ((w.find (HsmClient.keyTemplate label cls)).map Prod.fst)
      (objs.filter fun k => k.has (HsmClient.keyTemplate label cls)) a = some m at hk
    rw [← hfind] at hk
    have hmem : ∀ y ∈ w.find (HsmClient.keyTemplate label cls), y ∈ w.objects ∧
        y.2.session = none := by
      intro y hy
      obtain ⟨hmem, hhas⟩ := List.mem_filter.mp hy
      exact ⟨hmem, hc.find_token hn (List.mem_map_of_mem hmem) hhas⟩
    generalize w.find (HsmClient.keyTemplate label cls) = ys at hk hmem
    rcases ys with _ | ⟨y, _ | ⟨y', ys⟩⟩
    · exact hkept.stands i a m hk
    · change Function.update (known i) y.1 (some y.2.material) a = some m at hk
      rcases eq_or_ne a y.1 with rfl | hne
      · -- one of the token's own
        obtain ⟨hy, hnone⟩ := hmem y List.mem_cons_self
        rw [Function.update_self] at hk
        obtain rfl := Option.some_inj.mp hk
        refine ⟨y.2, x, true, hobj.symm ▸ hy, rfl, hi, fun s hs => ?_⟩
        cases hnone.symm.trans hs
      · rw [Function.update_of_ne hne] at hk
        exact hkept.stands i a m hk
    · exact hkept.stands i a m hk
  · have heq : Service.outcome L' (fun _ => (.ok () : Except Pkcs11Error Unit)) n =
        Service.outcome L (fun _ => .ok ()) w.device.step := Service.outcome_congr hL' rfl
    have hlen := congrArg List.length hfind
    rw [List.length_map] at hlen
    rw [Explained, heq, ← hlen]
    rcases Service.outcome L (fun _ => (.ok () : Except Pkcs11Error Unit)) w.device.step with e | ⟨⟩
    · rfl
    · exact congrArg Except.ok (List.length_map _)

/-- Using a key that is known. -/
theorem Insight.use (h : Insight w sess known) (hc : Custody objs w sess keys) {x : Nat}
    (hi : sess i = some (x, true)) (a : Nat) (user : Bool)
    (f : Material Key → Nat → Except Pkcs11Error α) :
    (∀ m, known i a = some m →
      (w.use a fun k => Firmware.attempt L (Firmware.inSession x user (f k.material))).1 =
        Service.outcome L (f m) w.device.step) ∧
    Insight (w.use a fun k => Firmware.attempt L (Firmware.inSession x user (f k.material))).2
      (Function.update sess i (sess i)) (Function.update known i (known i)) := by
  have hx : x ∈ w.device.state.sessions := (hc.sessions.held_iff x).mpr ⟨i, true, hi⟩
  obtain ⟨hobj, hstate⟩ := w.use_kept (L := L) a x user fun k => f k.material
  refine ⟨fun m hm => ?_, h.same i hobj (congrArg TokenState.loggedIn hstate)⟩
  exact World.use_eq (h.stands i a m hm) hx (h.loggedIn i x hi) user f

theorem Insight.derive (h : Insight w sess known) (hc : Custody objs w sess keys) {x : Nat}
    (hi : sess i = some (x, true)) (mech : Mechanism) (base n : ℕ) :
    Insight.After F L objs w sess known i n (.deriveKey x mech base HsmClient.derivedTemplate)
      (w.answer (F.device L H) (.deriveKey x mech base HsmClient.derivedTemplate)) := by
  obtain ⟨hr, hkept⟩ := h.use (L := L) hc hi base true fun m _ =>
    F.derive m.1 m.2 mech HsmClient.derivedTemplate
  rw [Insight.After, World.answer, World.derive]
  change ∀ m, known i base = some m →
    (w.use base ((F.device L H).deriveKey x mech HsmClient.derivedTemplate)).1 = _ at hr
  change Insight (w.use base ((F.device L H).deriveKey x mech HsmClient.derivedTemplate)).2 _ _
    at hkept
  generalize w.use base ((F.device L H).deriveKey x mech HsmClient.derivedTemplate) = y at hr hkept
  obtain ⟨r, w'⟩ := y
  have hexp : ∀ L' : Luck, L'.fault n = L.fault w.device.step → ∀ m, known i base = some m →
      Except.map (fun _ => ()) r = (Service.outcome L' (fun _ =>
        F.derive m.1 m.2 mech HsmClient.derivedTemplate) n).map fun _ => () := by
    intro L' hL' m hm
    have heq : Service.outcome L' (fun _ => F.derive m.1 m.2 mech HsmClient.derivedTemplate) n =
        Service.outcome L (fun _ => F.derive m.1 m.2 mech HsmClient.derivedTemplate)
          w.device.step := Service.outcome_congr hL' rfl
    rw [heq, ← hr m hm]
  rcases r with e | key
  · exact ⟨hkept, L.fault w.device.step, Or.inl rfl, fun L' hL' _ => hexp L' hL'⟩
  refine ⟨?_, L.fault w.device.step, Or.inl rfl, fun L' hL' _ => hexp L' hL'⟩
  rw [Function.update_eq_self, Function.update_eq_self] at hkept
  refine hkept.update (fun j y _ hj => hkept.loggedIn j y hj) (fun y hy => hkept.loggedIn i y hy)
    (fun j a m _ hm => ?_) fun a m hk => ?_
  · obtain ⟨o, s, b, ho, hrest⟩ := hm
    exact ⟨o, s, b, List.mem_cons_of_mem _ ho, hrest⟩
  change Function.update (known i) (w'.nextHandle (F.device L H))
    ((known i base).bind fun m =>
      (F.derive m.1 m.2 mech HsmClient.derivedTemplate).toOption.map fun k =>
        (World.attributesOf HsmClient.derivedTemplate, k)) a = some m at hk
  rcases eq_or_ne a (w'.nextHandle (F.device L H)) with rfl | hne
  · -- the new key, computed from the one at hand
    rw [Function.update_self] at hk
    obtain ⟨m₀, hm₀, hk⟩ := Option.bind_eq_some_iff.mp hk
    rw [Service.outcome_ok (hr m₀ hm₀).symm] at hk
    refine ⟨_, x, true, List.mem_cons_self, Option.some_inj.mp hk, hi, fun s hs => ?_⟩
    cases hs
    rfl
  · rw [Function.update_of_ne hne] at hk
    obtain ⟨o, s, b, ho, hrest⟩ := hkept.stands i a m hk
    exact ⟨o, s, b, List.mem_cons_of_mem _ ho, hrest⟩

/-- **One step of one request** on the shared device. -/
theorem Insight.step (h : Insight w sess known) (hc : Custody objs w sess keys) {pin : String}
    {own : List (Ev p11Sig)} {op : P11Op} (hheld : held own = sess i) (hd : Disciplined pin own op)
    (hk : OwnKeys own op) (n : ℕ) :
    Insight.After F L objs w sess known i n op (w.answer (F.device L H) op) := by
  cases op with
  | openRwSession slot => exact h.openSession slot n
  | login x pin' => exact h.login hc (hheld.symm.trans hd.1) pin' n
  | closeSession x =>
    obtain ⟨b, hb⟩ := hd
    exact h.close hc (hheld.symm.trans hb) n
  | findObjects x template =>
    obtain ⟨label, cls, rfl, hn⟩ := hk.2.1 x template rfl
    exact h.find hc (hheld.symm.trans hd) hn n
  | deriveKey x mech base template =>
    obtain rfl := hk.2.2 x mech base template rfl
    exact h.derive hc (hheld.symm.trans hd) mech base n
  | generateRandom x len =>
    have hi : sess i = some (x, true) := hheld.symm.trans hd
    have hx : x ∈ w.device.state.sessions := (hc.sessions.held_iff x).mpr ⟨i, true, hi⟩
    obtain ⟨hobj, hstate⟩ := w.ask_kept (L := L) x false fun n =>
      (.ok (L.random n) : Except Pkcs11Error (List UInt8))
    have hr := World.ask_eq (L := L) hx (h.loggedIn i x hi) false fun n =>
      (.ok (L.random n) : Except Pkcs11Error (List UInt8))
    refine ⟨h.same i hobj (congrArg TokenState.loggedIn hstate), _, Or.inl rfl,
      fun L' hL' hR' => ?_⟩
    have hdrawn : (.ok (L'.random n) : Except Pkcs11Error (List UInt8)) =
        .ok (L.random w.device.step) := congrArg Except.ok hR'
    exact hr.trans (Service.outcome_congr hL' hdrawn).symm
  | sign x mech key data =>
    obtain ⟨hr, hkept⟩ := h.use (L := L) hc (hheld.symm.trans hd) key true fun m n =>
      F.sign m.1 m.2 mech data (L.random n)
    refine ⟨hkept, _, Or.inl rfl, fun L' hL' hR' m hm => (hr m hm).trans ?_⟩
    have hsigned : F.sign m.1 m.2 mech data (L'.random n) =
        F.sign m.1 m.2 mech data (L.random w.device.step) := congrArg _ hR'
    exact (Service.outcome_congr hL' hsigned).symm
  | verify x mech key data sig =>
    obtain ⟨hr, hkept⟩ := h.use (L := L) hc (hheld.symm.trans hd) key false fun m _ =>
      F.verify m.1 m.2 mech data sig
    exact ⟨hkept, _, Or.inl rfl, fun L' hL' _ m hm =>
      (hr m hm).trans (Service.outcome_congr hL' rfl).symm⟩
  | encrypt x mech key data =>
    obtain ⟨hr, hkept⟩ := h.use (L := L) hc (hheld.symm.trans hd) key true fun m _ =>
      F.encrypt m.1 m.2 mech data
    exact ⟨hkept, _, Or.inl rfl, fun L' hL' _ m hm =>
      (hr m hm).trans (Service.outcome_congr hL' rfl).symm⟩
  | decrypt x mech key data =>
    obtain ⟨hr, hkept⟩ := h.use (L := L) hc (hheld.symm.trans hd) key true fun m _ =>
      F.decrypt m.1 m.2 mech data
    exact ⟨hkept, _, Or.inl rfl, fun L' hL' _ m hm =>
      (hr m hm).trans (Service.outcome_congr hL' rfl).symm⟩

end Insight

/-! ### Interleaved runs -/

section Runs

variable {Key ι : Type} {F : Firmware Key} {L : Luck} {objs : List (Object Key)}
  {t : List (Ev p11Sig)} {N : ℕ}

/-- Every answer of the token is explained, by random bytes of the device, and failures that are
its own or come from the login of another request. -/
def TokenExplained (F : Firmware Key) (L : Luck) (objs : List (Object Key))
    (t : List (Ev p11Sig)) : Prop :=
  ∀ n ev, t[n]? = some ev →
    ∃ N f, (f = L.fault N ∨ f = some Firmware.userAlreadyLoggedIn ∧ Refused ev) ∧
      ∀ L' : Luck, L'.fault n = f → L'.random n = L.random N →
        Explained F objs L' (knownKeys F objs (t.take n)) n ev

theorem TokenExplained.snoc (h : TokenExplained F L objs t) {ev : Ev p11Sig}
    {f : Option Pkcs11Error}
    (hf : f = L.fault N ∨ f = some Firmware.userAlreadyLoggedIn ∧ Refused ev)
    (hexp : ∀ L' : Luck, L'.fault t.length = f → L'.random t.length = L.random N →
      Explained F objs L' (knownKeys F objs t) t.length ev) :
    TokenExplained F L objs (t ++ [ev]) := by
  intro n ev' hn
  rcases lt_trichotomy n t.length with hlt | rfl | hgt
  · rw [List.getElem?_append_left hlt] at hn
    rw [List.take_append_of_le_length hlt.le]
    exact h n ev' hn
  · rw [List.getElem?_concat_length, Option.some_inj] at hn
    subst hn
    rw [List.take_left]
    exact ⟨N, f, hf, hexp⟩
  · rw [List.getElem?_eq_none (by simp; omega)] at hn
    cases hn

/-- Step `N` of the log and the runtime. -/
def OutsideAt (L : Luck) (N : ℕ) : Ev lowSig → Prop
  | ⟨.append a, r⟩ => r = L.append N a
  | ⟨.spawn, r⟩ => r = L.spawn N
  | _ => True

/-- The events of a request beside the token. -/
def otherPart (t : List (Ev lowSig)) : List (Ev lowSig) :=
  t.filter fun ev => (p11Event ev).isNone

variable [DecidableEq ι] {K : Crates} {g : Gateway} {parse : String → Except String Request}
  {H : Numbering} {w : World Key Inner Nat} {lines : ι → String × String}
  {c : Conf lowSig (World Key Inner Nat) ι Response}

/-- **Every answer is explained**, to every request, at every moment of every interleaved run. -/
theorem explained_of_reach (hinv : AuthzTable.Inv K g.integrityLabel g.authz) (hw : w.Idle)
    (hc : Reach (worldAct F L H) anySchedule (g.servingOn K parse w lines) c) :
    Insight c.shared (fun i => sessionOf (c.own i))
      (fun i => knownKeys F w.contents (p11Part (c.own i))) ∧
    ∀ i, TokenExplained F L w.contents (p11Part (c.own i)) ∧
      ∀ ev ∈ c.own i, ∃ N, OutsideAt L N ev := by
  refine Reach.inv (fun c => Insight c.shared (fun i => sessionOf (c.own i))
    (fun i => knownKeys F w.contents (p11Part (c.own i))) ∧
    ∀ i, TokenExplained F L w.contents (p11Part (c.own i)) ∧
      ∀ ev ∈ c.own i, ∃ N, OutsideAt L N ev) ?_ ?_ hc
  · refine ⟨⟨fun i x hi => (by cases hi), fun i a m hk => (by cases hk)⟩, fun i => ⟨?_, ?_⟩⟩
    · intro n ev hn
      cases hn
    · intro ev hev
      cases hev
  intro c i e k r w' hr ih hp ha _
  have hd := hr.guar_next rfl (processLineP11_disciplined K g parse (lines i).1 (lines i).2) hp
  have hk := hr.guar_next rfl (processLineP11_ownKeys hinv parse (lines i).1 (lines i).2) hp
  have hcust := custody_of_reach hinv hw hr
  obtain ⟨hins, htrace⟩ := ih
  -- what is left to show is about the request that has moved
  suffices hmoved : Insight w'
      (Function.update (fun i => sessionOf (c.own i)) i (sessionOf (c.own i ++ [⟨e, r⟩])))
      (Function.update (fun i => knownKeys F w.contents (p11Part (c.own i))) i
        (knownKeys F w.contents (p11Part (c.own i ++ [⟨e, r⟩])))) ∧
      TokenExplained F L w.contents (p11Part (c.own i ++ [⟨e, r⟩])) ∧
      ∃ N, OutsideAt L N ⟨e, r⟩ by
    obtain ⟨hins', htok, hout⟩ := hmoved
    refine ⟨?_, fun j => ?_⟩
    · rw [Conf.advance_shared, Conf.map_own_advance sessionOf,
        Conf.map_own_advance fun h => knownKeys F w.contents (p11Part h)]
      exact hins'
    rcases eq_or_ne j i with rfl | hji
    · rw [Conf.advance_own_self]
      refine ⟨htok, fun ev hev => ?_⟩
      rcases List.mem_append.mp hev with hev | hev
      · exact (htrace j).2 ev hev
      · rw [List.mem_singleton.mp hev]
        exact hout
    · rw [Conf.advance_own_ne c hji]
      exact htrace j
  rw [worldAct] at ha
  cases e with
  | append a =>
    obtain rfl := congrArg Prod.snd ha
    rw [sessionOf_other rfl, p11Part_snoc]
    refine ⟨?_, ?_, c.shared.outside, (congrArg Prod.fst ha).symm⟩
    · exact (List.append_nil (p11Part (c.own i))).symm ▸ hins.same i rfl rfl
    · exact (List.append_nil (p11Part (c.own i))).symm ▸ (htrace i).1
  | spawn =>
    obtain rfl := congrArg Prod.snd ha
    rw [sessionOf_other rfl, p11Part_snoc]
    refine ⟨?_, ?_, c.shared.outside, (congrArg Prod.fst ha).symm⟩
    · exact (List.append_nil (p11Part (c.own i))).symm ▸ hins.same i rfl rfl
    · exact (List.append_nil (p11Part (c.own i))).symm ▸ (htrace i).1
  | p11 op =>
    have hstep := hins.step (i := i) (F := F) (L := L) (H := H) hcust rfl hd hk
      (p11Part (c.own i)).length
    change c.shared.answer (F.device L H) op = (r, w') at ha
    rw [Insight.After, ha] at hstep
    obtain ⟨hins', f, hf, hexp⟩ := hstep
    rw [sessionOf_p11, p11Part_snoc]
    change Insight w' _ (Function.update _ i
        (knownKeys F w.contents (p11Part (c.own i) ++ [⟨op, r⟩]))) ∧
      TokenExplained F L w.contents (p11Part (c.own i) ++ [⟨op, r⟩]) ∧ _
    rw [knownKeys_snoc]
    exact ⟨hins', (htrace i).1.snoc hf hexp, 0, trivial⟩

end Runs

/-! ### The trace of a request, as a token -/

section Trace

variable {Key : Type} {F : Firmware Key} {L : Luck} {objs : List (Object Key)}
  {T : List (Ev lowSig)} {k m n x : ℕ} {o : Option (ℕ × Bool)}

/-- The events of the trace, one by one. -/
def onTrace (T : List (Ev lowSig)) (m : ℕ) (ev : Ev lowSig) (m' : ℕ) : Prop :=
  T[m]? = some ev ∧ m' = m + 1

/-- Behind `m` events, `n` of them at the token and `k` beside it, this session or none is
held. -/
structure Behind (T : List (Ev lowSig)) (k : ℕ) (o : Option (ℕ × Bool)) (m n : ℕ) : Prop where
  token : (p11Part (T.take m)).length = n
  others : (otherPart (T.take m)).length = k
  held : held (p11Part (T.take m)) = o

def traceStanding (F : Firmware Key) (objs : List (Object Key)) (T : List (Ev lowSig))
    (k : ℕ) : Standing ℕ Key where
  rest := Behind T k none
  opened x := Behind T k (some (x, false))
  fresh x := Behind T k (some (x, true))
  inside x := Behind T k (some (x, true))
  hand x a key m n :=
    Behind T k (some (x, true)) m n ∧ knownKeys F objs (p11Part (T.take m)) a = some key

/-- All answers of the token in the trace are what the service has. -/
def AllExplained (F : Firmware Key) (L : Luck) (objs : List (Object Key))
    (t : List (Ev p11Sig)) : Prop :=
  ∀ n ev, t[n]? = some ev → Explained F objs L (knownKeys F objs (t.take n)) n ev

theorem take_succ_of_getElem? {α : Type} {l : List α} {a : α} (h : l[m]? = some a) :
    l.take (m + 1) = l.take m ++ [a] := by
  rw [List.take_add_one, h, Option.toList_some]

theorem Behind.step (h : Behind T k o m n) (hexp : AllExplained F L objs (p11Part T)) {op : P11Op}
    {r : op.Ret} (hev : T[m]? = some ⟨.p11 op, r⟩) :
    Explained F objs L (knownKeys F objs (p11Part (T.take m))) n ⟨op, r⟩ ∧
      Behind T k (heldStep o ⟨op, r⟩) (m + 1) (n + 1) ∧
      knownKeys F objs (p11Part (T.take (m + 1))) =
        knowStep F objs (knownKeys F objs (p11Part (T.take m))) ⟨op, r⟩ := by
  have htake := take_succ_of_getElem? hev
  have hp11 : p11Part (T.take (m + 1)) = p11Part (T.take m) ++ [⟨op, r⟩] := by
    rw [htake, p11Part_snoc]
    rfl
  -- the event is number `n` at the token
  have hsplit : p11Part T = p11Part (T.take m) ++ ⟨op, r⟩ :: p11Part (T.drop (m + 1)) := by
    conv_lhs => rw [← List.take_append_drop (m + 1) T]
    rw [p11Part, List.filterMap_append]
    change p11Part _ ++ p11Part _ = _
    rw [hp11, List.append_assoc]
    rfl
  have hn := h.token
  refine ⟨?_, ⟨?_, ?_, ?_⟩, ?_⟩
  · have hget : (p11Part T)[n]? = some ⟨op, r⟩ := by simp [hsplit, ← hn]
    have hthis := hexp n _ hget
    rwa [hsplit, ← hn, List.take_left, hn] at hthis
  · rw [hp11, List.length_append, hn]
    rfl
  · rw [htake, otherPart, List.filter_append, List.length_append]
    exact h.others
  · rw [hp11, held_snoc, h.held]
  · rw [hp11, knownKeys_snoc]

theorem Behind.aside (h : Behind T k o m n) {ev : Ev lowSig} (hev : T[m]? = some ev)
    (hother : p11Event ev = none) :
    (otherPart T)[k]? = some ev ∧ Behind T (k + 1) o (m + 1) n := by
  have htake := take_succ_of_getElem? hev
  have hp11 : p11Part (T.take (m + 1)) = p11Part (T.take m) := by
    rw [htake, p11Part_snoc, hother, Option.toList_none, List.append_nil]
  have hothers : otherPart (T.take (m + 1)) = otherPart (T.take m) ++ [ev] := by
    rw [htake, otherPart, List.filter_append, List.filter_cons_of_pos (by rw [hother]; rfl)]
    rfl
  refine ⟨?_, ⟨?_, ?_, ?_⟩⟩
  · have hsplit : otherPart T = otherPart (T.take (m + 1)) ++ otherPart (T.drop (m + 1)) := by
      rw [otherPart, otherPart, otherPart, ← List.filter_append, List.take_append_drop]
    simp [hsplit, hothers, ← h.others]
  · rw [hp11]
    exact h.token
  · rw [hothers, List.length_append, h.others]
    rfl
  · rw [hp11]
    exact h.held

/-- **The trace of a request provides the steps** of the service. -/
theorem provides_trace (hexp : AllExplained F L objs (p11Part T)) (c : HsmClient) (k : ℕ) :
    Provides F L objs c Named (onToken (onTrace T)) (traceStanding F objs T k) where
  inside_of_fresh h := h
  inside_of_hand h := h.1
  openSession := by
    rintro m n r m' h ⟨hev, rfl⟩
    obtain ⟨hex, hnext, -⟩ := h.step hexp hev
    change Except.map _ r = _ at hex
    rw [Service.tick, ← hex]
    rcases r with e | x
    · exact .error e hnext
    · exact .ok hnext
  login x := by
    rintro m n r m' h ⟨hev, rfl⟩
    obtain ⟨hex, hnext, -⟩ := h.step hexp hev
    change r = _ at hex
    rw [Service.tick, ← hex]
    rcases r with e | ⟨⟩
    · exact .error e hnext
    · exact .ok hnext
  find x label cls hn := by
    rintro m n r m' h ⟨hev, rfl⟩
    obtain ⟨hex, hnext, hknown⟩ := h.step hexp hev
    change Except.map _ r = _ at hex
    rw [Service.tick]
    rcases hout : Service.outcome L (fun _ => (.ok () : Except Pkcs11Error Unit)) n with e | ⟨⟩
    · rw [hout] at hex
      rcases r with e' | found
      · cases hex
        exact .error e hnext
      · cases hex
    · rw [hout] at hex
      rcases r with e' | found
      · cases hex
      refine .ok ⟨hnext, Except.ok.inj hex, fun a y ha hy => ⟨hnext, ?_⟩⟩
      rw [hknown, knowStep, ha, hy, foundKey, Function.update_self]
  random x a key := by
    rintro m n r m' ⟨h, hkey⟩ ⟨hev, rfl⟩
    obtain ⟨hex, hnext, hknown⟩ := h.step hexp hev
    exact ⟨hex, hnext, hknown ▸ hkey⟩
  sign x a key data := by
    rintro m n r m' ⟨h, hkey⟩ ⟨hev, rfl⟩
    obtain ⟨hex, hnext, -⟩ := h.step hexp hev
    exact ⟨hex key hkey, hnext⟩
  verify x a key data sig := by
    rintro m n r m' ⟨h, hkey⟩ ⟨hev, rfl⟩
    obtain ⟨hex, hnext, -⟩ := h.step hexp hev
    exact ⟨hex key hkey, hnext⟩
  encrypt x a key iv data := by
    rintro m n r m' ⟨h, hkey⟩ ⟨hev, rfl⟩
    obtain ⟨hex, hnext, -⟩ := h.step hexp hev
    exact ⟨hex key hkey, hnext⟩
  decrypt x a key iv data := by
    rintro m n r m' ⟨h, hkey⟩ ⟨hev, rfl⟩
    obtain ⟨hex, hnext, -⟩ := h.step hexp hev
    exact ⟨hex key hkey, hnext⟩
  derive x a key mech := by
    rintro m n r m' ⟨h, hkey⟩ ⟨hev, rfl⟩
    obtain ⟨hex, hnext, hknown⟩ := h.step hexp hev
    have hex := hex key hkey
    rw [Service.tick]
    rcases hout : Service.outcome L (fun _ =>
      F.derive key.1 key.2 mech HsmClient.derivedTemplate) n with e | v
    · rw [hout] at hex
      rcases r with e' | b
      · cases hex
        exact .error e hnext
      · cases hex
    · rw [hout] at hex
      rcases r with e' | b
      · cases hex
      · refine .ok ⟨hnext, ?_⟩
        rw [hknown]
        change Function.update _ b _ b = _
        rw [Function.update_self, hkey, Option.bind_some, Service.outcome_ok hout]
        rfl
  drop x := by
    rintro m n r m' h ⟨hev, rfl⟩
    exact (h.step hexp hev).2.1
  close x := by
    rintro m n r m' h ⟨hev, rfl⟩
    exact (h.step hexp hev).2.1

/-- What answers beside the token, in the trace. -/
theorem trace_outside {ev : Ev lowSig} {m' : ℕ} (h : Behind T k none m n)
    (ha : onTrace T m ev m') (hother : p11Event ev = none) :
    (otherPart T)[k]? = some ev ∧ Behind T (k + 1) none m' n := by
  obtain ⟨hev, rfl⟩ := ha
  exact h.aside hev hother

end Trace

/-! ### Every response -/

section Responses

variable {Key ι : Type} [DecidableEq ι] {K : Crates} {g : Gateway}
  {parse : String → Except String Request} {F : Firmware Key} {L : Luck} {H : Numbering}
  {w : World Key Inner Nat} {lines : ι → String × String}
  {c : Conf lowSig (World Key Inner Nat) ι Response}

/-- Each step of `L'` is as some step of `L`, except for the logins that are refused in the trace
`t` because another request is logged in. -/
structure Luck.Within (L' L : Luck) (t : List (Ev p11Sig)) : Prop where
  token : ∀ n, ∃ N, L'.random n = L.random N ∧ (L'.fault n = L.fault N ∨
    L'.fault n = some Firmware.userAlreadyLoggedIn ∧ ∃ ev, t[n]? = some ev ∧ Refused ev)
  outside : ∀ k, ∃ N, L'.append k = L.append N ∧ L'.spawn k = L.spawn N

/-- The luck a request has had. -/
theorem exists_luck {objs : List (Object Key)} {T : List (Ev lowSig)}
    (htok : TokenExplained F L objs (p11Part T)) (hout : ∀ ev ∈ T, ∃ N, OutsideAt L N ev) :
    ∃ L' : Luck, L'.Within L (p11Part T) ∧ AllExplained F L' objs (p11Part T) ∧
      ∀ (k : ℕ) ev, (otherPart T)[k]? = some ev → OutsideAt L' k ev := by
  have hstep : ∀ n : ℕ, ∃ N f, (f = L.fault N ∨ f = some Firmware.userAlreadyLoggedIn ∧
        ∃ ev, (p11Part T)[n]? = some ev ∧ Refused ev) ∧
      ∀ ev, (p11Part T)[n]? = some ev → ∀ L' : Luck, L'.fault n = f → L'.random n = L.random N →
        Explained F objs L' (knownKeys F objs ((p11Part T).take n)) n ev := by
    intro n
    rcases hn : (p11Part T)[n]? with _ | ev
    · exact ⟨0, L.fault 0, Or.inl rfl, fun ev hev => by cases hev⟩
    · obtain ⟨N, f, hf, hexp⟩ := htok n ev hn
      refine ⟨N, f, hf.imp_right fun hr => ⟨hr.1, ev, rfl, hr.2⟩, fun ev' hev => ?_⟩
      cases hev
      exact hexp
  have hbeside : ∀ k : ℕ, ∃ N, ∀ ev, (otherPart T)[k]? = some ev → OutsideAt L N ev := by
    intro k
    rcases hk : (otherPart T)[k]? with _ | ev
    · exact ⟨0, fun ev hev => by cases hev⟩
    · have hmem : ev ∈ T := List.mem_of_mem_filter (List.mem_of_getElem? hk)
      obtain ⟨N, hN⟩ := hout ev hmem
      refine ⟨N, fun ev' hev => ?_⟩
      cases hev
      exact hN
  choose num fault hfault hexp using hstep
  choose other hother using hbeside
  refine ⟨⟨fault, fun n => L.random (num n), fun k => L.append (other k),
      fun k => L.spawn (other k)⟩,
    ⟨fun n => ⟨num n, rfl, hfault n⟩, fun k => ⟨other k, rfl, rfl⟩⟩, ?_, fun k ev hk => ?_⟩
  · exact fun n ev hn => hexp n ev hn _ rfl rfl
  · have hthis := hother k ev hk
    obtain ⟨e, r⟩ := ev
    cases e <;> exact hthis

/-- **Concurrency adds failures only, and of one kind.**  Under a loaded configuration, from a
token at rest, under every schedule of any number of requests and whatever fails: each
request that has returned has the response `process_line` gives over the service, with the
faults, random numbers and appends of the steps it has met, except that its logins may have
been refused because another request was logged in. -/
theorem concurrent_eq_service {cfg : FileConfig}
    (hcfg : AuthzTable.fromConfig K cfg g.integrityLabel = .ok g.authz) (hw : w.Idle)
    (hc : Reach (worldAct F L H) anySchedule (g.servingOn K parse w lines) c) {i : ι}
    {resp : Response} (hp : c.prog i = .ret resp) :
    ∃ L' : Luck, L'.Within L (p11Part (c.own i)) ∧
      resp = ((g.processLine K parse (lines i).1 (lines i).2).run
        (Service.answer K F L' w.contents g.hsm.pin) (0, 0)).1 := by
  have hinv := AuthzTable.fromConfig_inv hcfg
  obtain ⟨htok, hout⟩ := (explained_of_reach hinv hw hc).2 i
  obtain ⟨L', hwithin, hexp, hother⟩ := exists_luck htok hout
  refine ⟨L', hwithin, ?_⟩
  have hrun := hc.own_steps rfl i
  rw [hp] at hrun
  have hret : Returns (onTrace (c.own i)) (g.processLineP11 K parse (lines i).1 (lines i).2) 0 resp
      (c.own i).length :=
    hrun.returns (h := []) (fun n ev hn => ⟨hn, rfl⟩) rfl
  -- each operation does what the service says, on the request's own trace
  have hlower : ∀ (h : List (Ev gwSig)) (e : GwOp),
      (∀ call, e = .hsm call → Named call.label call.objectClass) →
      Implements (onTrace (c.own i))
        (fun m (t : ℕ × ℕ) => (traceStanding F w.contents (c.own i) t.2).rest m t.1)
        (Same fun m t => (traceStanding F w.contents (c.own i) t.2).rest m t.1) (g.lower K e)
        fun t => Service.answer K F L' w.contents g.hsm.pin t e := by
    intro h e he
    refine implements_lower (traceStanding F w.contents (c.own i))
      (fun k => provides_trace hexp g.hsm k) (fun a => ?_) ?_ e he
    · intro m t r m' hm ha
      obtain ⟨hk, hnext⟩ := trace_outside hm ha rfl
      exact ⟨hother _ _ hk, hnext⟩
    · intro m t r m' hm ha
      obtain ⟨hk, hnext⟩ := trace_outside hm ha rfl
      exact ⟨hother _ _ hk, hnext⟩
  have hstart : (traceStanding F w.contents (c.own i) 0).rest 0 0 := ⟨rfl, rfl, rfl⟩
  exact (Implements.interp hlower (processLine_named hinv parse (lines i).1 (lines i).2) 0 (0, 0)
    resp _ hstart hret).1

end Responses

/-! ### A login that is refused -/

/-- The second request opens its session while the first one is logged in, and is turned
away. -/
def turnedAway : Conf lowSig (World (List UInt8) Inner Nat) Bool Response :=
  twoDerives.exec twoAnswer
    [false, false, false, false, false, false, false, true, true, true, true, true, true]

theorem reach_turnedAway :
    Reach (worldAct Ref.firmware (Ref.luckBut none) Ref.numbering) anySchedule twoDerives
      turnedAway :=
  Reach.init.exec (fun _ _ => rfl) _

theorem concurrent_eq_service_turnedAway : ∃ (resp : Response) (L' : Luck),
    turnedAway.prog true = .ret resp ∧ resp.status = .error ∧
    L'.Within (Ref.luckBut none) (p11Part (turnedAway.own true)) ∧
    resp = ((Ref.gateway.processLine Ref.crates Ref.parseRequest "app-a"
      (Ref.requestText deriveRequest)).run (Service.answer Ref.crates Ref.firmware L'
        Ref.desk.contents Ref.gateway.hsm.pin) (0, 0)).1 := by
  have hp : ∃ resp, turnedAway.prog true = .ret resp ∧ resp.status = .error := by
    rw [turnedAway, twoDerives_eq]
    exact ⟨_, rfl, rfl⟩
  obtain ⟨resp, hp, hstatus⟩ := hp
  obtain ⟨L', hwithin, hresp⟩ :=
    concurrent_eq_service Ref.gateway_loaded Ref.desk_idle reach_turnedAway hp
  exact ⟨resp, L', hp, hstatus, hwithin, hresp⟩

end PicoHsm
