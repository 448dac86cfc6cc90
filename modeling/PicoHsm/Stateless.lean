/-
Requests leave the HSM as they found it.

Request lines of any clients, handled one after another on the device of `Firmware.lean`;
for each, any choice of which steps fail, of the random numbers and of the handles.  What
stays of an object is its contents; its handle may be another one when the last session has
been closed.

* `visit_idle` — when a request has been handled, no session is open, nobody is logged
  in, and the token has the objects it had before;
* `twins` — the device under two choices of handles, as a `Simulation`;
* `visits_stateless` — over whole histories: every request finds the token at rest, leaves
  it so, and has the answer it would have without the requests before it.
-/
import PicoHsm.Firmware
import PicoHsm.Isolation

namespace PicoHsm

open Text Effects Prog

/-! ### Requests one after another -/

/-- A request line, and what happens while it is handled. -/
structure Visit where
  cn : String
  line : String
  luck : Luck
  numbering : Numbering

section Visits

variable {Key : Type}

/-- The steps of a request are counted from its start. -/
def World.begin (w : World Key Inner Nat) : World Key Inner Nat :=
  { w with device := ⟨w.device.state, 0⟩, outside := 0 }

variable (K : Crates) (g : Gateway) (parse : String → Except String Request) (F : Firmware Key)

/-- What answers the operations of the request. -/
def Visit.answer (v : Visit) :
    World Key Inner Nat → (e : LowOp) → LowOp.Ret e × World Key Inner Nat :=
  World.answerLow (F.device v.luck v.numbering) v.luck.surroundings

def Gateway.visit (v : Visit) (w : World Key Inner Nat) : Response × World Key Inner Nat :=
  (g.processLineP11 K parse v.cn v.line).run (v.answer F) w.begin

/-- The world after the requests. -/
def Gateway.visits (vs : List Visit) (w : World Key Inner Nat) : World Key Inner Nat :=
  vs.foldl (fun w v => (g.visit K parse F v w).2) w

/-- No session is open and nobody is logged in, so there are token objects only. -/
structure World.Idle (w : World Key Inner Nat) : Prop where
  state : w.device.state = ⟨[], false⟩
  token : ∀ k ∈ w.contents, k.session = none

variable {w : World Key Inner Nat}

/-- A request works in one session at a time, and makes objects of that session only. -/
theorem processLineP11_tidy (cn line : String) :
    Safe (fun _ _ => True)
      (fun h e => OnP11 (Disciplined g.hsm.pin) h e ∧ OnP11 (fun _ op => op.SessionLocal) h e)
      (fun h _ => sessionOf h = none) [] (g.processLineP11 K parse cn line) := by
  have hlocal := safe_processLineP11 (fun _ => True) (anyCalls K g parse cn line)
    (fun c h _ _ => (HsmClient.perform_keeps K g.hsm c h).mono (fun _ _ hr => hr)
      (fun _ _ hk => hk.sessionLocal) fun _ _ hp => hp) trivial
  exact ((processLineP11_disciplined K g parse cn line).and hlocal).mono (fun _ _ hr => hr)
    (fun _ _ hg => hg) fun _ _ hp => hp.1

/-- The token through a request: what it holds is what the request has opened. -/
theorem visit_holds (hw : w.Idle) (v : Visit) :
    (∀ x ∈ (g.processLineP11 K parse v.cn v.line).moments (v.answer F) w.begin,
      ∃ h, Holds w.contents (sessionOf h) x.1 ∧ OnP11 (Disciplined g.hsm.pin) h x.2) ∧
    Holds w.contents none (g.visit K parse F v w).2 := by
  have hstep : ∀ h w' e,
      (OnP11 (Disciplined g.hsm.pin) h e ∧ OnP11 (fun _ op => op.SessionLocal) h e) →
      Holds w.contents (sessionOf h) w' →
      Holds w.contents (sessionOf (h ++ [⟨e, (v.answer F w' e).1⟩])) (v.answer F w' e).2 := by
    rintro h w' e ⟨hd, hl⟩ hI
    cases e with
    | append a =>
      rw [sessionOf_other rfl]
      exact hI.of_kept rfl rfl
    | spawn =>
      rw [sessionOf_other rfl]
      exact hI.of_kept rfl rfl
    | p11 op =>
      rw [sessionOf_p11]
      exact hI.step hw.token hd hl
  have hstart : Holds w.contents (sessionOf []) w.begin := ⟨rfl, hw.state⟩
  obtain ⟨hmom, h, hh, hend⟩ :=
    Safe.run_inv hstep (processLineP11_tidy K g parse v.cn v.line) hstart
  refine ⟨fun x hx => (hmom x hx).imp fun h hh => ⟨hh.1, hh.2.1⟩, ?_⟩
  rw [hend] at hh
  exact hh

theorem visit_idle (hw : w.Idle) (v : Visit) :
    (g.visit K parse F v w).2.Idle ∧ (g.visit K parse F v w).2.contents = w.contents := by
  obtain ⟨hobj, hstate⟩ := (visit_holds K g parse F hw v).2
  refine ⟨⟨hstate, ?_⟩, hobj⟩
  rw [hobj]
  exact hw.token

theorem visits_idle (hw : w.Idle) (vs : List Visit) :
    (g.visits K parse F vs w).Idle ∧ (g.visits K parse F vs w).contents = w.contents := by
  induction vs generalizing w with
  | nil => exact ⟨hw, rfl⟩
  | cons v vs ih =>
    obtain ⟨hidle, hobj⟩ := visit_idle K g parse F hw v
    obtain ⟨hidle', hobj'⟩ := ih hidle
    exact ⟨hidle', hobj'.trans hobj⟩

end Visits

/-! ### Two choices of handles -/

section Twins

variable {Key α : Type} {objs : List (Object Key)} {o o' : Option (Nat × Bool)}
  {w w' : World Key Inner Nat} {F : Firmware Key} {L : Luck} {H H' : Numbering} {x y a b : Nat}

/-- What the mechanisms see of an object. -/
def Object.material (k : Object Key) : List Attribute × Key := (k.attributes, k.key)

/-- Two worlds that have come equally far, each with its own session. -/
structure Twin (objs : List (Object Key)) (o o' : Option (Nat × Bool))
    (w w' : World Key Inner Nat) : Prop where
  left : Holds objs o w
  right : Holds objs o' w'
  step : w.device.step = w'.device.step
  outside : w.outside = w'.outside

/-- The two handles stand for keys of the same material. -/
def SameMaterial (a : Nat) (w : World Key Inner Nat) (b : Nat) (w' : World Key Inner Nat) : Prop :=
  (w.lookup a).map Object.material = (w'.lookup b).map Object.material

/-- The same step on both sides, with the same result. -/
theorem Twin.ask (h : Twin objs (some (x, true)) (some (y, true)) w w') (user : Bool)
    (f : Nat → Except Pkcs11Error α) :
    Same (Twin objs (some (x, true)) (some (y, true)))
      (w.ask (Firmware.attempt L (Firmware.inSession x user f))).1
      (w.ask (Firmware.attempt L (Firmware.inSession x user f))).2
      (w'.ask (Firmware.attempt L (Firmware.inSession y user f))).1
      (w'.ask (Firmware.attempt L (Firmware.inSession y user f))).2 := by
  have hin : ∀ x n, Firmware.inSession x user f ⟨[x], true⟩ n = (f n, ⟨[x], true⟩) := by
    intro x n
    simp [Firmware.inSession]
  refine ⟨?_, h.left.ask x user f, h.right.ask y user f, ?_, h.outside⟩
  · simp only [World.ask, Firmware.attempt, h.left.2, h.right.2, h.step, hin]
    rcases L.fault w'.device.step with _ | e <;> rfl
  · simp only [World.ask, Firmware.attempt_step, h.step]

theorem Twin.use (h : Twin objs (some (x, true)) (some (y, true)) w w')
    (hkey : SameMaterial a w b w') (user : Bool)
    (f : List Attribute × Key → Nat → Except Pkcs11Error α) :
    Same (Twin objs (some (x, true)) (some (y, true)))
      (w.use a fun k => Firmware.attempt L (Firmware.inSession x user (f k.material))).1
      (w.use a fun k => Firmware.attempt L (Firmware.inSession x user (f k.material))).2
      (w'.use b fun k => Firmware.attempt L (Firmware.inSession y user (f k.material))).1
      (w'.use b fun k => Firmware.attempt L (Firmware.inSession y user (f k.material))).2 := by
  rw [SameMaterial] at hkey
  rw [World.use, World.use]
  generalize w.lookup a = k at hkey ⊢
  generalize w'.lookup b = k' at hkey ⊢
  rcases k with _ | k <;> rcases k' with _ | k'
  · exact ⟨rfl, h⟩
  · cases hkey
  · cases hkey
  · rw [Option.map_some, Option.map_some, Option.some_inj] at hkey
    dsimp only
    rw [hkey]
    exact h.ask user (f k'.material)

/-- A session is opened on both sides, each under its own handle. -/
theorem Twin.openSession (hobjs : ∀ k ∈ objs, k.session = none) (h : Twin objs none none w w') :
    Agree (Twin objs none none)
      (fun x w y w' => Twin objs (some (x, false)) (some (y, false)) w w' ∧
        w.contents = objs ∧ w'.contents = objs)
      (w.ask (Firmware.attempt L (Firmware.openSession H))).1
      (w.ask (Firmware.attempt L (Firmware.openSession H))).2
      (w'.ask (Firmware.attempt L (Firmware.openSession H'))).1
      (w'.ask (Firmware.attempt L (Firmware.openSession H'))).2 := by
  simp only [World.ask, Firmware.attempt, Firmware.openSession, h.left.2, h.right.2, h.step]
  rcases L.fault w'.device.step with _ | e
  · have hall : ∀ {v : World Key Inner Nat} {x : Nat}, v.contents = objs →
        v.contents.filter (fun k => k.session ≠ some x) = objs := fun hv =>
      (congrArg _ hv).trans (filter_of_token hobjs)
    exact .ok ⟨⟨⟨hall h.left.1, rfl⟩, ⟨hall h.right.1, rfl⟩, rfl, h.outside⟩, h.left.1, h.right.1⟩
  · exact .error e ⟨⟨h.left.1, rfl⟩, ⟨h.right.1, rfl⟩, rfl, h.outside⟩

theorem Twin.login (h : Twin objs (some (x, false)) (some (y, false)) w w') (pin : String) :
    Agree (Twin objs (some (x, false)) (some (y, false)))
      (fun _ v _ v' => Twin objs (some (x, true)) (some (y, true)) v v' ∧
        v.contents = w.contents ∧ v'.contents = w'.contents)
      (w.ask (Firmware.attempt L (F.login x pin))).1 (w.ask (Firmware.attempt L (F.login x pin))).2
      (w'.ask (Firmware.attempt L (F.login y pin))).1
      (w'.ask (Firmware.attempt L (F.login y pin))).2 := by
  simp only [World.ask, Firmware.attempt, Firmware.login, h.left.2, h.right.2, h.step,
    List.mem_singleton, not_true_eq_false, if_false, Bool.false_eq_true]
  rcases L.fault w'.device.step with _ | e
  · by_cases hpin : pin = F.pin
    · rw [if_pos hpin, if_pos hpin]
      exact .ok ⟨⟨⟨h.left.1, rfl⟩, ⟨h.right.1, rfl⟩, rfl, h.outside⟩, rfl, rfl⟩
    · rw [if_neg hpin, if_neg hpin]
      exact .error _ ⟨⟨h.left.1, rfl⟩, ⟨h.right.1, rfl⟩, rfl, h.outside⟩
  · exact .error e ⟨⟨h.left.1, rfl⟩, ⟨h.right.1, rfl⟩, rfl, h.outside⟩

/-- Both sides find the same objects, each under its own handles. -/
theorem Twin.findKey {K : Crates} {label : String} {cls : ObjectClass}
    (h : Twin objs (some (x, true)) (some (y, true)) w w') (hw : w.contents = objs)
    (hw' : w'.contents = objs) :
    Agree (Twin objs (some (x, true)) (some (y, true)))
      (fun a w b w' => Twin objs (some (x, true)) (some (y, true)) w w' ∧ SameMaterial a w b w')
      ((HsmClient.findKeyByLabel K x label cls).run (World.answer (F.device L H)) w).1
      ((HsmClient.findKeyByLabel K x label cls).run (World.answer (F.device L H)) w).2
      ((HsmClient.findKeyByLabel K y label cls).run (World.answer (F.device L H')) w').1
      ((HsmClient.findKeyByLabel K y label cls).run (World.answer (F.device L H')) w').2 := by
  obtain ⟨hsame, ht⟩ := h.ask (L := L) true fun _ => (.ok () : Except Pkcs11Error Unit)
  have hlook : ((w.find (HsmClient.keyTemplate label cls)).map Prod.fst).map w.lookup =
      ((w'.find (HsmClient.keyTemplate label cls)).map Prod.fst).map w'.lookup := by
    rw [World.lookup_find, World.lookup_find, hw, hw']
  simp only [HsmClient.findKeyByLabel, run, World.answer, Firmware.device]
  rw [hsame]
  rcases (w'.ask _).1 with e | ⟨⟩
  · exact .error _ ht
  simp only [Except.map]
  generalize (w.find (HsmClient.keyTemplate label cls)).map Prod.fst = l at hlook
  generalize (w'.find (HsmClient.keyTemplate label cls)).map Prod.fst = l' at hlook
  have hlen : l.length = l'.length := by
    simpa using congrArg List.length hlook
  -- none, one or several, on both sides
  rcases l with _ | ⟨a, _ | ⟨a', l⟩⟩ <;> rcases l' with _ | ⟨b, _ | ⟨b', l'⟩⟩
  · exact .error _ ht
  · cases hlen
  · cases hlen
  · cases hlen
  · exact .ok ⟨ht, congrArg (Option.map Object.material) (List.singleton_inj.mp hlook)⟩
  · cases hlen
  · cases hlen
  · cases hlen
  · exact .error _ ht

variable (F L H H') in
/-- A key of the same material is derived, each under its own handle. -/
theorem Twin.derive (h : Twin objs (some (x, true)) (some (y, true)) w w')
    (hkey : SameMaterial a w b w') {template : List Attribute} (ht : .token true ∉ template)
    (mech : Mechanism) :
    Agree (Twin objs (some (x, true)) (some (y, true)))
      (fun a w b w' => Twin objs (some (x, true)) (some (y, true)) w w' ∧ SameMaterial a w b w')
      (w.derive (F.device L H) x mech a template).1 (w.derive (F.device L H) x mech a template).2
      (w'.derive (F.device L H') y mech b template).1
      (w'.derive (F.device L H') y mech b template).2 := by
  obtain ⟨hsame, htw⟩ := h.use (L := L) hkey true fun m _ => F.derive m.1 m.2 mech template
  change (w.use a ((F.device L H).deriveKey x mech template)).1 =
    (w'.use b ((F.device L H').deriveKey y mech template)).1 at hsame
  change Twin objs _ _ (w.use a ((F.device L H).deriveKey x mech template)).2
    (w'.use b ((F.device L H').deriveKey y mech template)).2 at htw
  rw [World.derive, World.derive]
  generalize w.use a ((F.device L H).deriveKey x mech template) = z at hsame htw
  generalize w'.use b ((F.device L H').deriveKey y mech template) = z' at hsame htw
  obtain ⟨r, v⟩ := z
  obtain ⟨r', v'⟩ := z'
  obtain rfl : r = r' := hsame
  rcases r with e | key
  · exact .error e htw
  · refine .ok ⟨⟨htw.left.add ht _ key, htw.right.add ht _ key, htw.step, htw.outside⟩, ?_⟩
    rw [SameMaterial, v.lookup_add, v'.lookup_add]
    rfl

theorem Twin.close {b b' : Bool} (h : Twin objs (some (x, b)) (some (y, b')) w w') :
    Twin objs none none (w.answer (F.device L H) (.closeSession x)).2
      (w'.answer (F.device L H') (.closeSession y)).2 := by
  refine ⟨⟨(w.close_contents _ x).trans h.left.1, ?_⟩,
    ⟨(w'.close_contents _ y).trans h.right.1, ?_⟩, congrArg (· + 1) h.step, h.outside⟩
  · show Firmware.closed x w.device.state = _
    rw [h.left.2, Firmware.closed]
    simp
  · show Firmware.closed y w'.device.state = _
    rw [h.right.2, Firmware.closed]
    simp

variable (F L H H') in
/-- The device under two choices of handles. -/
def twins (hobjs : ∀ k ∈ objs, k.session = none) :
    Simulation (World.answer (W := Nat) (F.device L H)) (World.answer (W := Nat) (F.device L H'))
      fun _ => True where
  rest := Twin objs none none
  opened x w y w' := Twin objs (some (x, false)) (some (y, false)) w w' ∧
    w.contents = objs ∧ w'.contents = objs
  inside x w y w' := Twin objs (some (x, true)) (some (y, true)) w w' ∧
    w.contents = objs ∧ w'.contents = objs
  holding x y a w b w' := Twin objs (some (x, true)) (some (y, true)) w w' ∧ SameMaterial a w b w'
  ending x w y w' := ∃ b, Twin objs (some (x, b)) (some (y, b)) w w'
  ending_of_holding h := ⟨true, h.1⟩
  openRwSession _ _ _ h := h.openSession hobjs
  login x y pin w w' h := (h.1.login pin).mono (fun ht => ⟨false, ht⟩) fun _ _ ht =>
    ⟨ht.1, ht.2.1.trans h.2.1, ht.2.2.trans h.2.2⟩
  closeSession x y w w' h := h.elim fun _ h => h.close
  findKey K x y label cls _ w w' h := (h.1.findKey h.2.1 h.2.2).mono (fun ht => ⟨true, ht⟩)
    fun _ _ ht => ht
  sign x y a b data w w' h := by
    obtain ⟨hsame, ht⟩ := h.1.use (L := L) h.2 true fun m n =>
      F.sign m.1 m.2 .ecdsaSha256 data (L.random n)
    exact ⟨hsame, true, ht⟩
  verify x y a b data sig w w' h := by
    obtain ⟨hsame, ht⟩ := h.1.use (L := L) h.2 false fun m _ =>
      F.verify m.1 m.2 .ecdsaSha256 data sig
    exact ⟨hsame, true, ht⟩
  encrypt x y a b iv data w w' h := by
    obtain ⟨hsame, ht⟩ := h.1.use (L := L) h.2 true fun m _ =>
      F.encrypt m.1 m.2 (.aesCbcPad iv) data
    exact ⟨hsame, true, ht⟩
  decrypt x y a b iv data w w' h := by
    obtain ⟨hsame, ht⟩ := h.1.use (L := L) h.2 true fun m _ =>
      F.decrypt m.1 m.2 (.aesCbcPad iv) data
    exact ⟨hsame, true, ht⟩
  generateRandom x y a b n w w' h := by
    obtain ⟨hsame, ht⟩ := h.1.ask (L := L) false fun n => .ok (L.random n)
    exact ⟨hsame, ht, h.2⟩
  deriveKey K x y a b peer label w w' h := by
    have ht : .token true ∉ HsmClient.derivedTemplate := by simp [HsmClient.derivedTemplate]
    have hagree := h.1.derive F L H H' h.2 ht (.ecdh1Derive kdfSharedData peer)
    exact Simulation.agree_questionWith (hagree.mono (fun ht => ⟨true, ht⟩) fun _ _ ht => ht) _

/-! ### Whole histories -/

variable {K : Crates} {g : Gateway} {parse : String → Except String Request}

/-- A request has the same answer under two choices of handles. -/
theorem processLineP11_twin (hobjs : ∀ k ∈ objs, k.session = none) (cn line : String)
    (v v' : Visit) (hluck : v'.luck = v.luck) :
    Related (v.answer F) (v'.answer F) (Twin objs none none) (Same (Twin objs none none))
      (g.processLineP11 K parse cn line) (g.processLineP11 K parse cn line) := by
  refine Related.interp (fun h e _ => ?_) (Gateway.processLine_lineMediated parse cn line [])
  -- the log and the runtime know the number of the step only
  have hout : ∀ {β : Type} (f : Nat → β × Nat) {w w' : World Key Inner Nat},
      Twin objs none none w w' → Same (Twin objs none none) (w.askOutside f).1 (w.askOutside f).2
        (w'.askOutside f).1 (w'.askOutside f).2 := by
    intro β f w w' ht
    refine ⟨?_, ht.left.of_kept rfl rfl, ht.right.of_kept rfl rfl, ht.step, ?_⟩
    · exact congrArg (fun n => (f n).1) ht.outside
    · exact congrArg (fun n => (f n).2) ht.outside
  cases e with
  | append a =>
    refine Related.sameCall _ (fun w w' ht => ?_) fun r => Related.ret fun _ _ ht => ⟨rfl, ht⟩
    rw [Visit.answer, Visit.answer, hluck]
    exact hout (v.luck.surroundings.append a) ht
  | spawn =>
    refine Related.sameCall _ (fun w w' ht => ?_) fun r => Related.ret fun _ _ ht => ⟨rfl, ht⟩
    rw [Visit.answer, Visit.answer, hluck]
    exact hout v.luck.surroundings.spawn ht
  | hsm c =>
    rw [Visit.answer, Visit.answer, hluck]
    exact related_liftP11 _ _
      ((twins F v.luck v.numbering v'.numbering hobjs).perform K g.hsm trivial)

/-- **Requests leave the HSM as they found it.**  After any requests, whatever failed in
them, no session is open, nobody is logged in and the objects are those there were, under
whatever handles; the next request opens its sessions on a token at rest and is never the
second to log in; and its answer is the one it has after any other requests and under any
other handles, with the same random numbers and the same failures. -/
theorem visits_stateless (K : Crates) (g : Gateway) (parse : String → Except String Request)
    (F : Firmware Key) {w : World Key Inner Nat} (hw : w.Idle) (vs : List Visit) (v : Visit) :
    ((g.visits K parse F vs w).device.state = ⟨[], false⟩ ∧
      (g.visits K parse F vs w).contents = w.contents) ∧
    (∀ x ∈ (g.processLineP11 K parse v.cn v.line).moments (v.answer F)
        (g.visits K parse F vs w).begin,
      (∀ slot, x.2 = .p11 (.openRwSession slot) → x.1.device.state = ⟨[], false⟩) ∧
      ∀ s pin, x.2 = .p11 (.login s pin) → x.1.device.state = ⟨[s], false⟩) ∧
    ∀ vs' numbering,
      (g.visit K parse F { v with numbering := numbering } (g.visits K parse F vs' w)).1 =
        (g.visit K parse F v (g.visits K parse F vs w)).1 := by
  obtain ⟨hidle, hobj⟩ := visits_idle K g parse F hw vs
  refine ⟨⟨hidle.state, hobj⟩, fun x hx => ?_, fun vs' numbering => ?_⟩
  · obtain ⟨h, hh, hd⟩ := (visit_holds K g parse F hidle v).1 x hx
    refine ⟨fun slot hop => ?_, fun s pin hop => ?_⟩
    · rw [hop] at hd
      rw [sessionOf, show held (p11Part h) = none from hd] at hh
      exact hh.2
    · rw [hop] at hd
      rw [sessionOf, hd.1] at hh
      exact hh.2
  · obtain ⟨hidle', hobj'⟩ := visits_idle K g parse F hw vs'
    have htwin : Twin w.contents none none (g.visits K parse F vs' w).begin
        (g.visits K parse F vs w).begin :=
      ⟨⟨hobj', hidle'.state⟩, ⟨hobj, hidle.state⟩, rfl, rfl⟩
    exact (processLineP11_twin hw.token v.cn v.line { v with numbering := numbering } v rfl
      _ _ htwin).1

end Twins

/-! ### A sample history -/

namespace Ref

/-- Mechanisms whose results show what they were computed from. -/
def firmware : Firmware (List UInt8) where
  pin := "648219"
  sign _ key _ data random := .ok (key ++ data ++ random)
  verify _ key _ data sig := if sig.take (key ++ data).length = key ++ data then .ok ()
    else .error (.pkcs11 .signatureInvalid "CKR_SIGNATURE_INVALID")
  encrypt _ _ _ data := .ok data
  decrypt _ _ _ data := .ok data
  derive _ key _ _ := .ok (key ++ [1])

/-- Nothing fails but the step with this number, if there is one. -/
def luckBut (bad : Option Nat) : Luck where
  fault n := if some n = bad then some (.pkcs11 (.other 0x30) "CKR_DEVICE_ERROR") else none
  random _ := List.replicate 16 7
  append _ _ := .ok ()
  spawn _ := .ran

def numbering : Numbering where
  session n used := used.sum + n + 1
  object n used := used.sum + n + 1
  renumber n handle := handle + n
  session_fresh := sum_succ_notMem
  object_fresh := sum_succ_notMem
  renumber_injective n := add_left_injective n

/-- The token with the private key of `app-a`. -/
def desk : World (List UInt8) Inner Nat :=
  ⟨[(1, signingKey)], List.nodup_singleton 1, ⟨⟨[], false⟩, 0⟩, 0⟩

theorem desk_idle : desk.Idle := ⟨rfl, by simp [desk, World.contents, signingKey]⟩

/-- A key is derived, and the encryption with it fails. -/
def failing : Visit :=
  ⟨"app-a", requestText (.deriveAndEncrypt "k1" "ecdh1_derive" "aes_cbc_pad" "cGVlci1h" "aGVsbG8="),
    luckBut (some 5), numbering⟩

def signing : Visit :=
  ⟨"app-a", requestText (.sign "k1" "ecdsa_sha256" "aGVsbG8="), luckBut none, numbering⟩

end Ref

/-- A request that fails with a derived key at hand leaves the token as it was, and the
next one is answered as if it came first. -/
theorem visits_stateless_failing :
    (Ref.gateway.visits Ref.crates Ref.parseRequest Ref.firmware [Ref.failing] Ref.desk).contents =
        [Ref.signingKey] ∧
      (Ref.gateway.visit Ref.crates Ref.parseRequest Ref.firmware Ref.signing
        (Ref.gateway.visits Ref.crates Ref.parseRequest Ref.firmware [Ref.failing]
          Ref.desk)).1.status = .ok := by
  obtain ⟨⟨-, hobj⟩, -, hsame⟩ := visits_stateless Ref.crates Ref.gateway Ref.parseRequest
    Ref.firmware Ref.desk_idle [Ref.failing] Ref.signing
  refine ⟨hobj, ?_⟩
  rw [← hsame [] Ref.numbering]
  rw [Gateway.visits, List.foldl_nil, Gateway.visit, Ref.signing,
    Gateway.processLineP11_of_parse (Ref.parseRequest_requestText _)]
  rfl

end PicoHsm
