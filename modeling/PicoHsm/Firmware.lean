/-
A device with sessions, login and faults.

What a `Device` (`Objects.lean`) leaves open is filled in: a session is opened under a
handle that is not in use, the user is logged in to the token and logged out with its last
session, after which the objects may have other handles, and any step of the HSM may fail,
except closing a session.  What the mechanisms
compute is a parameter (`Firmware`); which steps fail while a request is handled, and what
the random numbers are, is another (`Luck`), and so is the choice of handles
(`Numbering`).

* `Firmware.device` — the device;
* `Holds` — the token of a client that holds a session, or none, and is otherwise as it
  was;
* `Holds.step` — what the client does keeps this up.
-/
import PicoHsm.Objects

namespace PicoHsm

open Text Effects Prog

/-! ### The device -/

/-- What the mechanisms compute with the attributes and the value of a key.  A signature
takes random bytes as well. -/
structure Firmware (Key : Type) where
  /-- The right PIN. -/
  pin : String
  sign : List Attribute → Key → Mechanism → List UInt8 → List UInt8 →
    Except Pkcs11Error (List UInt8)
  verify : List Attribute → Key → Mechanism → List UInt8 → List UInt8 → Except Pkcs11Error Unit
  encrypt : List Attribute → Key → Mechanism → List UInt8 → Except Pkcs11Error (List UInt8)
  decrypt : List Attribute → Key → Mechanism → List UInt8 → Except Pkcs11Error (List UInt8)
  derive : List Attribute → Key → Mechanism → List Attribute → Except Pkcs11Error Key

/-- What happens while a request is handled, by the number of the step: at the HSM, and
at the audit log and the runtime. -/
structure Luck where
  /-- The error with which a step of the HSM fails, if it does. -/
  fault : Nat → Option Pkcs11Error
  random : Nat → List UInt8
  append : Nat → AppendArgs → Except String Unit
  spawn : Nat → Spawn

/-- The handles given out, by the number of the step and the ones in use, and those the
objects have when a step has closed the last session, by the ones they had. -/
structure Numbering where
  session : Nat → List Nat → Nat
  object : Nat → List Nat → Nat
  renumber : Nat → Nat → Nat
  session_fresh : ∀ n used, session n used ∉ used
  object_fresh : ∀ n used, object n used ∉ used
  renumber_injective : ∀ n, Function.Injective (renumber n)

/-- The sessions and the login, and the number of steps so far. -/
structure Inner where
  state : TokenState
  step : Nat

namespace Firmware

variable {Key α : Type}

def sessionHandleInvalid : Pkcs11Error := .pkcs11 (.other 0xB3) "CKR_SESSION_HANDLE_INVALID"

def userNotLoggedIn : Pkcs11Error := .pkcs11 (.other 0x101) "CKR_USER_NOT_LOGGED_IN"

def pinIncorrect : Pkcs11Error := .pkcs11 (.other 0xA0) "CKR_PIN_INCORRECT"

def userAlreadyLoggedIn : Pkcs11Error := .pkcs11 .userAlreadyLoggedIn "CKR_USER_ALREADY_LOGGED_IN"

/-- One step, which fails if it is to fail. -/
def attempt (L : Luck) (f : TokenState → Nat → Except Pkcs11Error α × TokenState) (q : Inner) :
    Except Pkcs11Error α × Inner :=
  match L.fault q.step with
  | some e => (.error e, ⟨q.state, q.step + 1⟩)
  | none => ((f q.state q.step).1, ⟨(f q.state q.step).2, q.step + 1⟩)

def openSession (H : Numbering) (s : TokenState) (n : Nat) :
    Except Pkcs11Error Nat × TokenState :=
  (.ok (H.session n s.sessions), ⟨H.session n s.sessions :: s.sessions, s.loggedIn⟩)

/-- Login is a state of the token, and comes once. -/
def login (F : Firmware Key) (session : Nat) (pin : String) (s : TokenState) (_ : Nat) :
    Except Pkcs11Error Unit × TokenState :=
  if session ∉ s.sessions then (.error sessionHandleInvalid, s)
  else if s.loggedIn = true then (.error userAlreadyLoggedIn, s)
  else if pin = F.pin then (.ok (), ⟨s.sessions, true⟩)
  else (.error pinIncorrect, s)

/-- An operation in an open session, for some of which the user has to be logged in. -/
def inSession (session : Nat) (user : Bool) (f : Nat → Except Pkcs11Error α) (s : TokenState)
    (n : Nat) : Except Pkcs11Error α × TokenState :=
  if session ∉ s.sessions then (.error sessionHandleInvalid, s)
  else if user = true ∧ s.loggedIn = false then (.error userNotLoggedIn, s)
  else (f n, s)

/-- Closing the last session logs out. -/
def closed (session : Nat) (s : TokenState) : TokenState :=
  ⟨s.sessions.erase session, s.loggedIn && !(s.sessions.erase session).isEmpty⟩

/-- Handles are good as long as some session is open. -/
def renumber (H : Numbering) (session : Nat) (q : Inner) : Nat → Nat :=
  if (closed session q.state).sessions = [] then H.renumber q.step else id

theorem renumber_injective (H : Numbering) (session : Nat) (q : Inner) :
    Function.Injective (renumber H session q) := by
  rw [renumber]
  split
  · exact H.renumber_injective q.step
  · exact Function.injective_id

/-- The device.  A search without login, which would find the public objects only, is
refused; the client makes none. -/
def device (F : Firmware Key) (L : Luck) (H : Numbering) : Device Key Inner where
  openRwSession _ := attempt L (openSession H)
  login s pin := attempt L (F.login s pin)
  findObjects s := attempt L (inSession s true fun _ => .ok ())
  sign s mech data o := attempt L (inSession s true fun n =>
    F.sign o.attributes o.key mech data (L.random n))
  verify s mech data sig o := attempt L (inSession s false fun _ =>
    F.verify o.attributes o.key mech data sig)
  generateRandom s _ := attempt L (inSession s false fun n => .ok (L.random n))
  encrypt s mech data o := attempt L (inSession s true fun _ =>
    F.encrypt o.attributes o.key mech data)
  decrypt s mech data o := attempt L (inSession s true fun _ =>
    F.decrypt o.attributes o.key mech data)
  deriveKey s mech template o := attempt L (inSession s true fun _ =>
    F.derive o.attributes o.key mech template)
  closeSession s q := ((), ⟨closed s q.state, q.step + 1⟩)
  handle q := H.object q.step
  handle_fresh q := H.object_fresh q.step
  renumber := renumber H
  renumber_injective := renumber_injective H

theorem attempt_step (L : Luck) (f : TokenState → Nat → Except Pkcs11Error α × TokenState)
    (q : Inner) : (attempt L f q).2.step = q.step + 1 := by
  rw [attempt]
  split <;> rfl

theorem attempt_inSession_state (L : Luck) (session : Nat) (user : Bool)
    (f : Nat → Except Pkcs11Error α) (q : Inner) :
    (attempt L (inSession session user f) q).2.state = q.state := by
  rw [attempt, inSession]
  split
  · rfl
  · split
    · rfl
    · split <;> rfl

end Firmware

/-- The audit log and the runtime, by the number of the step. -/
def Luck.surroundings (L : Luck) : Surroundings Nat where
  append a n := (L.append n a, n + 1)
  spawn n := (L.spawn n, n + 1)

/-! ### The session that is held -/

section Holds

variable {Key W α : Type} {objs : List (Object Key)} {o : Option (Nat × Bool)}
  {w w' : World Key Inner W} {F : Firmware Key} {L : Luck} {H : Numbering} {x : Nat}

/-- The client holds this session, logged in or not, or none; all else is as it was: the
objects are `objs`, but for those that go with the session. -/
def Holds (objs : List (Object Key)) : Option (Nat × Bool) → World Key Inner W → Prop
  | none, w => w.contents = objs ∧ w.device.state = ⟨[], false⟩
  | some (x, b), w =>
    w.contents.filter (fun k => k.session ≠ some x) = objs ∧ w.device.state = ⟨[x], b⟩

theorem Holds.of_kept (h : Holds objs o w) (hobj : w'.contents = w.contents)
    (hstate : w'.device.state = w.device.state) : Holds objs o w' := by
  rcases o with _ | ⟨x, b⟩
  · exact ⟨hobj.trans h.1, hstate.trans h.2⟩
  · exact ⟨hobj ▸ h.1, hstate.trans h.2⟩

/-- Token objects do not go with a session. -/
theorem filter_of_token {session : Nat} (hobjs : ∀ k ∈ objs, k.session = none) :
    objs.filter (fun k => k.session ≠ some session) = objs := by
  rw [List.filter_eq_self]
  intro k hk
  simp [hobjs k hk]

/-- Asking for something in a session changes neither the sessions nor the objects. -/
theorem Holds.ask (h : Holds objs o w) (session : Nat) (user : Bool)
    (f : Nat → Except Pkcs11Error α) :
    Holds objs o (w.ask (Firmware.attempt L (Firmware.inSession session user f))).2 :=
  h.of_kept rfl (Firmware.attempt_inSession_state L session user f w.device)

theorem Holds.use (h : Holds objs o w) (handle session : Nat) (user : Bool)
    (f : Object Key → Nat → Except Pkcs11Error α) :
    Holds objs o
      (w.use handle fun k => Firmware.attempt L (Firmware.inSession session user (f k))).2 := by
  rw [World.use]
  rcases w.lookup handle with _ | k
  · exact h
  · exact h.ask session user (f k)

/-- A new object that is not a token object goes with the session. -/
theorem Holds.add {b : Bool} (h : Holds objs (some (x, b)) w) {template : List Attribute}
    (ht : .token true ∉ template) (D : Device Key Inner) (key : Key) :
    Holds objs (some (x, b)) (w.add D x template key) := by
  refine ⟨?_, h.2⟩
  rw [← h.1, World.add_contents, World.sessionFor, if_neg ht, List.filter_cons_of_neg (by simp)]

theorem Holds.derive {b : Bool} (h : Holds objs (some (x, b)) w) {template : List Attribute}
    (ht : .token true ∉ template) (mech : Mechanism) (base : Nat) :
    Holds objs (some (x, b)) (w.derive (F.device L H) x mech base template).2 := by
  have huse : Holds objs (some (x, b)) (w.use base ((F.device L H).deriveKey x mech template)).2 :=
    h.use base x true fun k _ => F.derive k.attributes k.key mech template
  rw [World.derive]
  generalize w.use base ((F.device L H).deriveKey x mech template) = y at huse
  obtain ⟨r, w'⟩ := y
  rcases r with e | key
  · exact huse
  · exact huse.add ht _ key

/-- The objects an operation makes are to go with the session. -/
def P11Op.SessionLocal : P11Op → Prop
  | .deriveKey _ _ _ template => .token true ∉ template
  | _ => True

/-- A key is derived for the session only: the client's template has `Token(false)`. -/
theorem HsmCall.Keeps.sessionLocal {call : HsmCall} {h : List (Ev p11Sig)} {op : P11Op}
    (hk : call.Keeps h op) : op.SessionLocal := by
  cases op with
  | deriveKey s mech base template =>
    obtain ⟨peer, -, rfl, -⟩ := hk
    simp [P11Op.SessionLocal, HsmClient.derivedTemplate]
  | openRwSession slot => trivial
  | login s pin => trivial
  | findObjects s template => trivial
  | sign s mech key data => trivial
  | verify s mech key data sig => trivial
  | generateRandom s len => trivial
  | encrypt s mech key data => trivial
  | decrypt s mech key data => trivial
  | closeSession s => trivial

/-- **One step of the client** that keeps to one session at a time. -/
theorem Holds.step (hobjs : ∀ k ∈ objs, k.session = none) {pin : String}
    {h : List (Ev p11Sig)} {op : P11Op} (hw : Holds objs (held h) w)
    (hd : Disciplined pin h op) (hl : op.SessionLocal) :
    Holds objs (heldStep (held h) ⟨op, (w.answer (F.device L H) op).1⟩)
      (w.answer (F.device L H) op).2 := by
  cases op with
  | openRwSession slot =>
    rw [show held h = none from hd] at hw ⊢
    simp only [World.answer, World.ask, Firmware.device, Firmware.attempt]
    rcases L.fault w.device.step with _ | e
    · refine ⟨?_, ?_⟩
      · exact (congrArg _ hw.1).trans (filter_of_token hobjs)
      · simp only [Firmware.openSession, hw.2]
    · exact hw
  | login x pin' =>
    rw [hd.1] at hw ⊢
    simp only [World.answer, World.ask, Firmware.device, Firmware.attempt]
    rcases L.fault w.device.step with _ | e
    · simp only [Firmware.login, hw.2, List.mem_singleton, not_true_eq_false, if_false,
        Bool.false_eq_true]
      split
      · exact ⟨hw.1, rfl⟩
      · exact ⟨hw.1, rfl⟩
    · exact hw
  | closeSession x =>
    obtain ⟨b, hb⟩ := hd
    rw [hb] at hw ⊢
    refine ⟨(w.close_contents _ x).trans hw.1, ?_⟩
    show Firmware.closed x w.device.state = _
    rw [hw.2, Firmware.closed]
    simp
  | deriveKey x mech base template =>
    rw [show held h = some (x, true) from hd] at hw ⊢
    exact hw.derive hl mech base
  | findObjects x template => exact hw.ask x true fun _ => .ok ()
  | generateRandom x len => exact hw.ask x false fun n => .ok (L.random n)
  | sign x mech key data =>
    exact hw.use key x true fun k n => F.sign k.attributes k.key mech data (L.random n)
  | verify x mech key data sig =>
    exact hw.use key x false fun k _ => F.verify k.attributes k.key mech data sig
  | encrypt x mech key data =>
    exact hw.use key x true fun k _ => F.encrypt k.attributes k.key mech data
  | decrypt x mech key data =>
    exact hw.use key x true fun k _ => F.decrypt k.attributes k.key mech data

end Holds

end PicoHsm
