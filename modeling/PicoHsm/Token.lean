/-
A PKCS#11 token and the sessions of one operation.

A `Token` is a token as one session sees it: its handles mean something within that
session only.  `Token.act` is what the gateway relies on: login is a state of the token,
shared by all sessions of the application; logging in again fails; the token is logged out
when its last session is closed.  A token without faults answers every operation on an
open, logged-in session as `Token.Good` says, by the handles of that session; outside such
a session it may answer anything.  The next session may see other handles of the same keys
(`Token.SameKeys`), and a handle that a derived key had may stand for another one there.

* `Seen` — what a request does, each operation with the handles of its session;
* `perform_oneSession` — an operation of `HsmClient` opens one session, logs in once,
  works in that session only and closes it, whatever the token answers;
* `perform_expected`, `expected_of_seen` — if it is answered without faults, whether it
  succeeds (and the verdict of a verification) depends on the keys of the token alone.
-/
import Mathlib.Algebra.Order.BigOperators.Group.List
import Mathlib.Algebra.Order.Ring.Nat
import Mathlib.Logic.Function.Basic
import PicoHsm.Hsm

namespace PicoHsm

open Text Effects Prog

/-- A token as one session sees it. -/
structure Token (Key : Type) where
  /-- The right PIN. -/
  pin : String
  /-- What a handle stands for. -/
  value : Nat → Key
  /-- The handles of the objects with these attributes. -/
  find : List Attribute → List Nat
  verify : Key → List UInt8 → List UInt8 → Except Pkcs11Error Unit
  decrypt : Key → Mechanism → List UInt8 → Except Pkcs11Error (List UInt8)
  derive : Key → Mechanism → Except Pkcs11Error Key
  /-- The handle given to a derived key. -/
  handle : Key → Nat
  value_handle : ∀ key, value (handle key) = key

/-- The open sessions, and whether the user is logged in. -/
structure TokenState where
  sessions : List Nat
  loggedIn : Bool

/-- The same, with what each session sees of the token. -/
structure Viewed (Key : Type) where
  state : TokenState
  view : Nat → Token Key

/-- The session an operation belongs to. -/
def P11Op.session : P11Op → Nat
  | .openRwSession _ => 0
  | .login s _ => s
  | .findObjects s _ => s
  | .sign s _ _ _ => s
  | .verify s _ _ _ _ => s
  | .generateRandom s _ => s
  | .encrypt s _ _ _ => s
  | .decrypt s _ _ _ => s
  | .deriveKey s _ _ _ => s
  | .closeSession s => s

/-- It opens a session. -/
def P11Op.Opens : P11Op → Prop
  | .openRwSession _ => True
  | _ => False

/-- It is part of the work in session `s`, between login and close. -/
def P11Op.WorksIn (s : Nat) : P11Op → Prop
  | .openRwSession _ => False
  | .login _ _ => False
  | .closeSession _ => False
  | op => op.session = s

theorem P11Op.WorksIn.not_opens {s : Nat} {op : P11Op} (h : op.WorksIn s) : ¬ op.Opens := by
  cases op <;> first | exact h.elim | exact id

namespace Token

variable {Key : Type} (T : Token Key)

/-- The answers of a token that is logged in and has no fault.  Random bytes, signatures
and ciphertexts are not fixed. -/
def Good : Ev p11Sig → Prop
  | ⟨.openRwSession _, r⟩ => ∃ s, r = .ok s
  | ⟨.login _ _, r⟩ => r = .ok ()
  | ⟨.findObjects _ template, r⟩ => r = .ok (T.find template)
  | ⟨.sign _ _ _ _, r⟩ => ∃ sig, r = .ok sig
  | ⟨.verify _ _ key data sig, r⟩ => r = T.verify (T.value key) data sig
  | ⟨.generateRandom _ len, r⟩ => ∃ bytes, r = .ok bytes ∧ bytes.length = len
  | ⟨.encrypt _ _ _ _, r⟩ => ∃ ct, r = .ok ct
  | ⟨.decrypt _ mech key data, r⟩ => r = T.decrypt (T.value key) mech data
  | ⟨.deriveKey _ mech base _, r⟩ =>
    match T.derive (T.value base) mech with
    | .error e => r = .error e
    | .ok key => ∃ h, r = .ok h ∧ T.value h = key
  | ⟨.closeSession _, _⟩ => True

/-- The one key with this label and class. -/
def keyOf (label : String) (cls : ObjectClass) : Option Key :=
  match T.find (HsmClient.keyTemplate label cls) with
  | [handle] => some (T.value handle)
  | _ => none

/-- The same keys under the same labels, and the same mechanisms, whatever the handles. -/
structure SameKeys (V : Token Key) : Prop where
  keyOf : ∀ label cls, V.keyOf label cls = T.keyOf label cls
  verify : V.verify = T.verify
  decrypt : V.decrypt = T.decrypt
  derive : V.derive = T.derive

theorem SameKeys.refl : T.SameKeys T := ⟨fun _ _ => rfl, rfl, rfl, rfl⟩

/-- No session is open. -/
def atRest : Viewed Key := ⟨⟨[], false⟩, fun _ => T⟩

/-- The token's steps.  A session that is opened may see any handles of the keys. -/
def act (s : Viewed Key) : Ev p11Sig → Viewed Key → Prop
  | ⟨.openRwSession _, r⟩, s' =>
    ∃ h V, r = .ok h ∧ h ∉ s.state.sessions ∧ T.SameKeys V ∧
      s' = ⟨⟨h :: s.state.sessions, s.state.loggedIn⟩, Function.update s.view h V⟩
  | ⟨.login h pin, r⟩, s' =>
    if s.state.loggedIn = true then
      (∃ text, r = .error (.pkcs11 .userAlreadyLoggedIn text)) ∧ s' = s
    else if h ∈ s.state.sessions ∧ pin = T.pin then
      r = .ok () ∧ s' = ⟨⟨s.state.sessions, true⟩, s.view⟩
    else (∃ e, r = .error e) ∧ s' = s
  | ⟨.closeSession h, _⟩, s' =>
    s' = ⟨⟨s.state.sessions.erase h, s.state.loggedIn && !(s.state.sessions.erase h).isEmpty⟩,
      s.view⟩
  | ev, s' =>
    (ev.op.session ∈ s.state.sessions → s.state.loggedIn = true →
      (s.view ev.op.session).Good ev) ∧ s' = s

/-- One way to answer, for programs that are to be evaluated. -/
def answer (s : Viewed Key) : (op : P11Op) → op.Ret × Viewed Key
  | .openRwSession _ =>
    (.ok (s.state.sessions.sum + 1),
      ⟨⟨(s.state.sessions.sum + 1) :: s.state.sessions, s.state.loggedIn⟩,
        Function.update s.view (s.state.sessions.sum + 1) T⟩)
  | .login h pin =>
    if s.state.loggedIn = true then
      (.error (.pkcs11 .userAlreadyLoggedIn "CKR_USER_ALREADY_LOGGED_IN"), s)
    else if h ∈ s.state.sessions ∧ pin = T.pin then
      (.ok (), ⟨⟨s.state.sessions, true⟩, s.view⟩)
    else (.error (.pkcs11 (.other 0xA0) "CKR_PIN_INCORRECT"), s)
  | .findObjects h template => (.ok ((s.view h).find template), s)
  | .sign _ _ _ _ => (.ok [1, 2, 3, 4], s)
  | .verify h _ key data sig => ((s.view h).verify ((s.view h).value key) data sig, s)
  | .generateRandom _ len => (.ok (List.replicate len 7), s)
  | .encrypt _ _ _ data => (.ok data, s)
  | .decrypt h mech key data => ((s.view h).decrypt ((s.view h).value key) mech data, s)
  | .deriveKey h mech base _ =>
    (((s.view h).derive ((s.view h).value base) mech).map (s.view h).handle, s)
  | .closeSession h =>
    ((), ⟨⟨s.state.sessions.erase h,
      s.state.loggedIn && !(s.state.sessions.erase h).isEmpty⟩, s.view⟩)

theorem act_answer (s : Viewed Key) (op : P11Op) :
    T.act s ⟨op, (T.answer s op).1⟩ (T.answer s op).2 := by
  cases op with
  | openRwSession slot =>
    refine ⟨s.state.sessions.sum + 1, T, rfl, fun hmem => ?_, .refl T, rfl⟩
    have := List.single_le_sum (fun _ _ => Nat.zero_le _) _ hmem
    omega
  | login h pin =>
    simp only [act, answer]
    split
    · exact ⟨⟨_, rfl⟩, rfl⟩
    · split
      · exact ⟨rfl, rfl⟩
      · exact ⟨⟨_, rfl⟩, rfl⟩
  | findObjects h template => exact ⟨fun _ _ => rfl, rfl⟩
  | sign h mech key data => exact ⟨fun _ _ => ⟨_, rfl⟩, rfl⟩
  | verify h mech key data sig => exact ⟨fun _ _ => rfl, rfl⟩
  | generateRandom h len => exact ⟨fun _ _ => ⟨_, rfl, List.length_replicate⟩, rfl⟩
  | encrypt h mech key data => exact ⟨fun _ _ => ⟨_, rfl⟩, rfl⟩
  | decrypt h mech key data => exact ⟨fun _ _ => rfl, rfl⟩
  | deriveKey h mech base template =>
    refine ⟨fun _ _ => ?_, rfl⟩
    simp only [Good, answer, P11Op.session]
    rcases (s.view h).derive ((s.view h).value base) mech with e | key
    · rfl
    · exact ⟨_, rfl, (s.view h).value_handle key⟩
  | closeSession h => rfl

/-! ### What a request sees -/

/-- A list of events, each with the handles of the session it is in: when a session is
opened, every handle may come to stand for another key.  `V` is what the last one sees. -/
inductive Seen (P : Token Key → Ev p11Sig → Prop) : List (Ev p11Sig) → Token Key → Prop where
  | start {V : Token Key} : T.SameKeys V → Seen P [] V
  | reopen {u : List (Ev p11Sig)} {V V' : Token Key} {slot : Nat}
      {r : p11Sig.Ret (.openRwSession slot)} :
      Seen P u V → T.SameKeys V' → P V' ⟨.openRwSession slot, r⟩ →
      Seen P (u ++ [⟨.openRwSession slot, r⟩]) V'
  | same {u : List (Ev p11Sig)} {V : Token Key} {ev : Ev p11Sig} :
      Seen P u V → P V ev → Seen P (u ++ [ev]) V

section Seen

variable {T} {P : Token Key → Ev p11Sig → Prop} {u v : List (Ev p11Sig)} {V : Token Key}

theorem Seen.sameKeys (h : T.Seen P u V) : T.SameKeys V := by
  induction h with
  | start hV => exact hV
  | reopen _ hV _ _ => exact hV
  | same _ _ ih => exact ih

/-- Handles that never change will do. -/
theorem Seen.of_forall (h : ∀ x ∈ u, P T x) : T.Seen P u T := by
  induction u using List.reverseRecOn with
  | nil => exact .start (.refl T)
  | append_singleton u ev ih =>
    exact .same (ih fun x hx => h x (List.mem_append_left _ hx)) (h ev (by simp))

theorem Seen.of_mem (h : T.Seen P u V) {x : Ev p11Sig} (hx : x ∈ u) : ∃ V', P V' x := by
  induction h with
  | start _ => exact absurd hx (by simp)
  | reopen _ _ hP ih =>
    rcases List.mem_append.mp hx with hx | hx
    · exact ih hx
    · rw [List.mem_singleton.mp hx]
      exact ⟨_, hP⟩
  | same _ hP ih =>
    rcases List.mem_append.mp hx with hx | hx
    · exact ih hx
    · rw [List.mem_singleton.mp hx]
      exact ⟨_, hP⟩

theorem Seen.of_initial (h : T.Seen P u V) (hv : v <+: u) : ∃ V', T.Seen P v V' := by
  induction h with
  | start hV =>
    rw [List.prefix_nil.mp hv]
    exact ⟨_, .start hV⟩
  | reopen h hV hP ih =>
    rcases List.prefix_concat_iff.mp hv with rfl | hv
    · exact ⟨_, .reopen h hV hP⟩
    · exact ih hv
  | same h hP ih =>
    rcases List.prefix_concat_iff.mp hv with rfl | hv
    · exact ⟨_, .same h hP⟩
    · exact ih hv

theorem Seen.of_suffix (h : T.Seen P u V) (hv : v <:+ u) : T.Seen P v V := by
  induction h generalizing v with
  | start hV =>
    rw [List.suffix_nil.mp hv]
    exact .start hV
  | reopen h hV hP ih =>
    rcases List.suffix_concat_iff.mp hv with rfl | ⟨w, rfl, hw⟩
    · exact .start hV
    · exact .reopen (ih hw) hV hP
  | same h hP ih =>
    rcases List.suffix_concat_iff.mp hv with rfl | ⟨w, rfl, hw⟩
    · exact .start h.sameKeys
    · exact .same (ih hw) hP

/-- So is every piece of what was done. -/
theorem Seen.of_segment (h : T.Seen P u V) (hv : v <:+: u) : ∃ V', T.Seen P v V' := by
  obtain ⟨w, hw, hu⟩ := List.infix_iff_prefix_suffix.mp hv
  exact (h.of_suffix hu).of_initial hw

/-- What opens a session at its start only is in one session. -/
theorem Seen.oneSession (h : T.Seen P u V)
    (hu : ∀ u₁ x u₂, u = u₁ ++ x :: u₂ → x.op.Opens → u₁ = []) : ∀ x ∈ u, P V x := by
  induction h with
  | start _ => exact fun x hx => absurd hx (by simp)
  | reopen _ _ hP _ =>
    obtain rfl := hu _ _ [] rfl trivial
    intro x hx
    rw [List.mem_singleton.mp hx]
    exact hP
  | @same u V ev _ hP ih =>
    intro x hx
    rcases List.mem_append.mp hx with hx | hx
    · refine ih (fun u₁ y u₂ heq => hu u₁ y (u₂ ++ [ev]) ?_) x hx
      rw [heq, List.append_assoc, List.cons_append]
    · rw [List.mem_singleton.mp hx]
      exact hP

end Seen

end Token

/-! ### The session an operation holds -/

/-- The session held, and whether it has logged in, after one more event. -/
def heldStep : Option (Nat × Bool) → Ev p11Sig → Option (Nat × Bool)
  | _, ⟨.openRwSession _, .ok s⟩ => some (s, false)
  | _, ⟨.login s _, .ok _⟩ => some (s, true)
  | _, ⟨.closeSession _, _⟩ => none
  | held, _ => held

def held (h : List (Ev p11Sig)) : Option (Nat × Bool) := h.foldl heldStep none

@[simp] theorem held_snoc (h : List (Ev p11Sig)) (ev : Ev p11Sig) :
    held (h ++ [ev]) = heldStep (held h) ev := by
  rw [held, List.foldl_append]
  rfl

/-- One session at a time: opened when none is held, logged in to once with the client's
PIN, used when logged in, closed when held. -/
def Disciplined (pin : String) (h : List (Ev p11Sig)) : P11Op → Prop
  | .openRwSession _ => held h = none
  | .login s pin' => held h = some (s, false) ∧ pin' = pin
  | .closeSession s => ∃ b, held h = some (s, b)
  | op => held h = some (op.session, true)

namespace P11Op.WorksIn

variable {s : Nat} {op : P11Op}

theorem session (h : op.WorksIn s) : op.session = s := by
  cases op <;> first | exact h.elim | exact h

theorem heldStep (h : op.WorksIn s) (r : op.Ret) (held : Option (Nat × Bool)) :
    PicoHsm.heldStep held ⟨op, r⟩ = held := by
  cases op <;> first | exact h.elim | rfl

theorem disciplined {pin : String} {h : List (Ev p11Sig)} (hw : op.WorksIn s)
    (hh : held h = some (s, true)) : Disciplined pin h op := by
  cases op <;> first | exact hw.elim | exact hh.trans (congrArg (fun x => some (x, true)) hw.symm)

end P11Op.WorksIn

/-- Any operation but the first is one on the session held. -/
theorem Disciplined.holds {pin : String} {h : List (Ev p11Sig)} {op : P11Op}
    (hd : Disciplined pin h op) (hop : ¬ op.Opens) : ∃ b, held h = some (op.session, b) := by
  cases op with
  | openRwSession slot => exact absurd trivial hop
  | login s pin' => exact ⟨false, hd.1⟩
  | closeSession s => exact hd
  | findObjects s template => exact ⟨true, hd⟩
  | sign s mech key data => exact ⟨true, hd⟩
  | verify s mech key data sig => exact ⟨true, hd⟩
  | generateRandom s len => exact ⟨true, hd⟩
  | encrypt s mech key data => exact ⟨true, hd⟩
  | decrypt s mech key data => exact ⟨true, hd⟩
  | deriveKey s mech base template => exact ⟨true, hd⟩

/-- It leaves that session or none. -/
theorem heldStep_session {op : P11Op} {r : op.Ret} {b b' : Bool} {x : Nat} (hop : ¬ op.Opens)
    (h : heldStep (some (op.session, b)) ⟨op, r⟩ = some (x, b')) : x = op.session := by
  cases op with
  | openRwSession slot => exact absurd trivial hop
  | login s pin => rcases r with e | u <;> cases h <;> rfl
  | closeSession s => cases h
  | findObjects s template => cases h; rfl
  | sign s mech key data => cases h; rfl
  | verify s mech key data sig => cases h; rfl
  | generateRandom s len => cases h; rfl
  | encrypt s mech key data => cases h; rfl
  | decrypt s mech key data => cases h; rfl
  | deriveKey s mech base template => cases h; rfl

namespace HsmClient

variable {K : Crates} {c : HsmClient} {α β : Type} {h : List (Ev p11Sig)} {s : Nat}

/-- Code that works in the session it was given. -/
def Inside (s : Nat) (p : Prog p11Sig α) : Prop :=
  ∀ h, Safe (fun _ _ => True) (fun _ op => P11Op.WorksIn s op) (fun _ _ => True) h p

theorem Inside.andThen {p : Prog p11Sig (Except String α)} {f : α → Prog p11Sig (Except String β)}
    (hp : Inside s p) (hf : ∀ a, Inside s (f a)) : Inside s (p.andThen f) := by
  intro h
  rw [safe_andThen]
  refine (hp h).mono (fun _ _ hr => hr) (fun _ _ hg => hg) fun h' r _ => ?_
  rcases r with e | a
  · trivial
  · exact hf a h'

/-- It leaves the session open, and so is always in it. -/
theorem Inside.disciplined {p : Prog p11Sig α} (hp : Inside s p) (pin : String)
    (hh : held h = some (s, true)) :
    Safe (fun _ _ => True) (fun h op => Disciplined pin h op ∧ ¬ op.Opens)
      (fun h _ => held h = some (s, true)) h p := by
  refine (Safe.invariant hh (hp h) fun h ev hh hw _ => ?_).mono (fun _ _ hr => hr) ?_
    fun _ _ hq => hq.1
  · rw [held_snoc, hh]
    exact hw.heldStep _ _
  · exact fun h op hg => ⟨hg.2.disciplined hg.1, hg.2.not_opens⟩

theorem oneSession_withSession {body : Nat → Prog p11Sig (Except String α)}
    (hb : ∀ s, Inside s (body s)) (hh : held h = none) :
    Safe (fun _ _ => True) (fun h' op => Disciplined c.pin h' op ∧ (op.Opens → h' = h))
      (fun h' _ => held h' = none) h (c.withSession body) := by
  rw [withSession, safe_andThen]
  refine ⟨⟨hh, fun _ => rfl⟩, fun r _ => ?_⟩
  rcases r with e | s
  · exact (held_snoc _ _).trans hh
  have hopen : held (h ++ [⟨.openRwSession c.slot, .ok s⟩]) = some (s, false) := held_snoc _ _
  refine ⟨⟨⟨hopen, rfl⟩, False.elim⟩, fun r _ => ?_⟩
  rcases r with e | ⟨⟩
  · exact ⟨⟨⟨false, (held_snoc _ _).trans hopen⟩, False.elim⟩, fun _ _ => held_snoc _ _⟩
  · rw [safe_ret]
    dsimp only
    rw [safe_bind]
    -- the body keeps the session, which is then closed
    refine ((hb s).disciplined c.pin (held_snoc _ _)).mono (fun _ _ hr => hr)
      (fun _ _ hg => ⟨hg.1, fun ho => absurd ho hg.2⟩) ?_
    exact fun h' r hh' => ⟨⟨⟨true, hh'⟩, False.elim⟩, fun _ _ => held_snoc _ _⟩

theorem inside_findKeyByLabel {label : String} {cls : ObjectClass} :
    Inside s (findKeyByLabel K s label cls) := by
  refine fun h => ⟨rfl, fun r _ => ?_⟩
  rcases r with e | _ | ⟨key, _ | ⟨key', keys⟩⟩ <;> trivial

theorem inside_randomIv : Inside s (randomIv s) := by
  refine fun h => ⟨rfl, fun r _ => ?_⟩
  rcases r with e | bytes
  · trivial
  · simp only [questionWith]
    split <;> trivial

theorem inside_deriveAesKey {label : String} {base : Nat} {peer : List UInt8} :
    Inside s (deriveAesKey K s base peer label) :=
  fun _ => ⟨rfl, fun _ _ => trivial⟩

theorem inside_encryptWith {ctx : String} {key : Nat} {iv data : List UInt8} :
    Inside s (encryptWith s iv key data ctx) := by
  refine fun h => ⟨rfl, fun r _ => ?_⟩
  rcases r with e | ct <;> trivial

theorem inside_decryptWith {ctx : String} {key : Nat} {iv data : List UInt8} :
    Inside s (decryptWith s iv key data ctx) :=
  fun _ => ⟨rfl, fun _ _ => trivial⟩

/-- **One session at a time.**  Whatever the token answers, an operation of the client
keeps the discipline, opens a session with its first step only and holds none when it
returns. -/
theorem perform_oneSession (K : Crates) (c : HsmClient) (call : HsmCall) (hh : held h = none) :
    Safe (fun _ _ => True) (fun h' op => Disciplined c.pin h' op ∧ (op.Opens → h' = h))
      (fun h' _ => held h' = none) h (c.perform K call) := by
  cases call with
  | sign label data =>
    refine oneSession_withSession (fun s => inside_findKeyByLabel.andThen fun key => ?_) hh
    exact fun _ => ⟨rfl, fun _ _ => trivial⟩
  | verify label data sig =>
    refine oneSession_withSession (fun s => inside_findKeyByLabel.andThen fun key => ?_) hh
    refine fun h => ⟨rfl, fun r _ => ?_⟩
    rcases r with (⟨_ | _ | _ | n, text⟩ | text) | u <;> trivial
  | encrypt label plaintext =>
    exact oneSession_withSession (fun s => inside_findKeyByLabel.andThen fun key =>
      inside_randomIv.andThen fun iv => inside_encryptWith) hh
  | decrypt label ciphertext iv =>
    rw [perform, decryptAesCbcPad]
    split
    · exact oneSession_withSession (fun s => inside_findKeyByLabel.andThen fun key =>
        inside_decryptWith) hh
    · exact hh
  | deriveAndEncrypt label peer plaintext =>
    exact oneSession_withSession (fun s => inside_findKeyByLabel.andThen fun base =>
      inside_deriveAesKey.andThen fun key => inside_randomIv.andThen fun iv =>
        inside_encryptWith) hh
  | deriveAndDecrypt label peer ciphertext iv =>
    rw [perform, deriveAndDecrypt]
    split
    · exact oneSession_withSession (fun s => inside_findKeyByLabel.andThen fun base =>
        inside_deriveAesKey.andThen fun key => inside_decryptWith) hh
    · exact hh

theorem perform_disciplined (K : Crates) (c : HsmClient) (call : HsmCall)
    (hh : held h = none) :
    Safe (fun _ _ => True) (Disciplined c.pin) (fun h _ => held h = none) h (c.perform K call) :=
  (perform_oneSession K c call hh).mono (fun _ _ hr => hr) (fun _ _ hg => hg.1) fun _ _ hp => hp

/-- So what it does, it sees with the handles of one session. -/
theorem seen_oneSession {Key : Type} {T V : Token Key} {P : Token Key → Ev p11Sig → Prop}
    {call : HsmCall} {u : List (Ev p11Sig)} {p : Prog p11Sig call.Ret}
    (h : Steps (c.perform K call) u p) (hV : T.Seen P u V) : ∀ x ∈ u, P V x := by
  refine hV.oneSession fun u₁ x u₂ heq ho => ?_
  have hg := (perform_oneSession (h := []) K c call rfl).guar_of_steps h (fun _ _ _ _ => trivial)
    heq
  exact hg.2 ho

end HsmClient

/-! ### What an operation comes to -/

/-- A result, as far as the gateway's status depends on it: an error, or a verdict (of an
operation that has none, `true`). -/
def HsmCall.shape : (call : HsmCall) → call.Ret → Option Bool
  | .sign _ _, r => r.toOption.map fun _ => true
  | .verify _ _ _, r => r.toOption
  | .encrypt _ _, r => r.toOption.map fun _ => true
  | .decrypt _ _ _, r => r.toOption.map fun _ => true
  | .deriveAndEncrypt _ _ _, r => r.toOption.map fun _ => true
  | .deriveAndDecrypt _ _ _ _, r => r.toOption.map fun _ => true

/-- The verdict of a verification is its result. -/
theorem HsmCall.eq_ok_of_shape {label : String} {data sig : List UInt8} {b : Bool}
    {r : Except String Bool} (h : (HsmCall.verify label data sig).shape r = some b) :
    r = .ok b := by
  rcases r with e | v
  · cases h
  · exact congrArg Except.ok (Option.some_inj.mp h)

namespace Token

variable {Key : Type} (T : Token Key)

/-- The key derived from a label's private key and a peer key. -/
def derivedKey (label : String) (peer : List UInt8) : Option Key :=
  (T.keyOf label .privateKey).bind fun base =>
    (T.derive base (.ecdh1Derive kdfSharedData peer)).toOption

/-- The verdict on a signature. -/
def verdict (key : Key) (data sig : List UInt8) : Option Bool :=
  match T.verify key data sig with
  | .ok _ => some true
  | .error (.pkcs11 .signatureInvalid _) => some false
  | .error _ => none

/-- Whether `key` decrypts the ciphertext. -/
def opens (key : Key) (ciphertext iv : List UInt8) : Option Bool :=
  (T.decrypt key (.aesCbcPad iv) ciphertext).toOption.map fun _ => true

/-- What the call comes to on a token without faults. -/
def expected : HsmCall → Option Bool
  | .sign label _ => (T.keyOf label .privateKey).map fun _ => true
  | .verify label data sig => (T.keyOf label .publicKey).bind fun key => T.verdict key data sig
  | .encrypt label _ => (T.keyOf label .secretKey).map fun _ => true
  | .decrypt label ct iv =>
    if iv.length = 16 then (T.keyOf label .secretKey).bind fun key => T.opens key ct iv else none
  | .deriveAndEncrypt label peer _ => (T.derivedKey label peer).map fun _ => true
  | .deriveAndDecrypt label peer ct iv =>
    if iv.length = 16 then (T.derivedKey label peer).bind fun key => T.opens key ct iv else none

section SameKeys

variable {T} {V : Token Key}

theorem SameKeys.derivedKey (h : T.SameKeys V) (label : String) (peer : List UInt8) :
    V.derivedKey label peer = T.derivedKey label peer := by
  rw [Token.derivedKey, Token.derivedKey, h.keyOf, h.derive]

theorem SameKeys.verdict (h : T.SameKeys V) (key : Key) (data sig : List UInt8) :
    V.verdict key data sig = T.verdict key data sig := by
  rw [Token.verdict, Token.verdict, h.verify]

/-- Other handles of the same keys make no difference. -/
theorem SameKeys.expected (h : T.SameKeys V) (call : HsmCall) :
    V.expected call = T.expected call := by
  cases call <;>
    simp only [Token.expected, Token.opens, h.keyOf, h.derivedKey, h.verdict, h.decrypt]

end SameKeys

end Token

namespace HsmClient

variable {Key : Type} {T : Token Key} {K : Crates} {c : HsmClient} {α : Type} {s : Nat}

/-- Answered without faults, the code returns a result that satisfies `q`. -/
def Yields (T : Token Key) (p : Prog p11Sig α) (q : α → Prop) : Prop :=
  ∀ h, Safe (fun _ ev => T.Good ev) (fun _ _ => True) (fun _ r => q r) h p

theorem yields_withSession {body : Nat → Prog p11Sig (Except String α)}
    {q : Except String α → Prop} (hb : ∀ s, Yields T (body s) q) :
    Yields T (c.withSession body) q := by
  intro h
  rw [withSession, safe_andThen]
  refine ⟨trivial, fun r hr => ?_⟩
  obtain ⟨s, rfl⟩ := hr
  refine ⟨trivial, fun r hr => ?_⟩
  obtain rfl : r = .ok () := hr
  rw [safe_ret]
  dsimp only
  rw [safe_bind]
  exact (hb s _).mono (fun _ _ hr => hr) (fun _ _ hg => hg) fun h' r hq =>
    ⟨trivial, fun _ _ => hq⟩

theorem yields_findKey {label : String} {cls : ObjectClass}
    {f : Nat → Prog p11Sig (Except String α)} {q : Except String α → Prop}
    (hnone : T.keyOf label cls = none → ∀ e, q (.error e))
    (hsome : ∀ key, T.keyOf label cls = some (T.value key) → Yields T (f key) q) :
    Yields T ((findKeyByLabel K s label cls).andThen f) q := by
  intro h
  rw [safe_andThen]
  refine ⟨trivial, fun r hr => ?_⟩
  obtain rfl : r = .ok (T.find (keyTemplate label cls)) := hr
  -- no object, one, or several
  rcases hfind : T.find (keyTemplate label cls) with _ | ⟨key, _ | ⟨key', keys⟩⟩
  · exact hnone (by rw [Token.keyOf, hfind]) _
  · exact hsome key (by rw [Token.keyOf, hfind]) _
  · exact hnone (by rw [Token.keyOf, hfind]) _

theorem yields_deriveKey {label : String} {base : Nat} {peer : List UInt8}
    {f : Nat → Prog p11Sig (Except String α)} {q : Except String α → Prop}
    (hbase : T.keyOf label .privateKey = some (T.value base))
    (hnone : T.derivedKey label peer = none → ∀ e, q (.error e))
    (hsome : ∀ key, T.derivedKey label peer = some (T.value key) → Yields T (f key) q) :
    Yields T ((deriveAesKey K s base peer label).andThen f) q := by
  intro h
  have hder : T.derivedKey label peer =
      (T.derive (T.value base) (.ecdh1Derive kdfSharedData peer)).toOption := by
    rw [Token.derivedKey, hbase]
    rfl
  rw [safe_andThen]
  refine ⟨trivial, fun r hr => ?_⟩
  rcases hd : T.derive (T.value base) (.ecdh1Derive kdfSharedData peer) with e | key
  · simp only [Token.Good, hd] at hr
    subst hr
    exact hnone (by rw [hder, hd]; rfl) _
  · simp only [Token.Good, hd] at hr
    obtain ⟨handle, rfl, hval⟩ := hr
    exact hsome handle (by rw [hder, hd, hval]; rfl) _

theorem yields_encrypt {key : Nat} {data : List UInt8} {ctx : String}
    {q : Except String (List UInt8 × List UInt8) → Prop} (hok : ∀ iv ct, q (.ok (iv, ct))) :
    Yields T ((randomIv s).andThen fun iv => encryptWith s iv key data ctx) q := by
  intro h
  rw [safe_andThen]
  refine ⟨trivial, fun r hr => ?_⟩
  obtain ⟨iv, rfl, hlen⟩ := hr
  simp only [questionWith, hlen, if_true]
  refine ⟨trivial, fun r hr => ?_⟩
  obtain ⟨ct, rfl⟩ := hr
  exact hok iv ct

theorem yields_decrypt {key : Nat} {ct iv : List UInt8} {ctx : String} :
    Yields T (decryptWith s iv key ct ctx)
      fun r => (r.toOption.map fun _ => true) = T.opens (T.value key) ct iv := by
  refine fun h => ⟨trivial, fun r hr => ?_⟩
  obtain rfl : r = T.decrypt (T.value key) (.aesCbcPad iv) ct := hr
  rw [safe_ret, Token.opens]
  rcases T.decrypt (T.value key) (.aesCbcPad iv) ct with e | pt <;> rfl

/-- **What an operation comes to** on a token without faults: the objects of the token
decide. -/
theorem perform_expected (K : Crates) (c : HsmClient) (call : HsmCall) :
    Yields T (c.perform K call) fun r => call.shape r = T.expected call := by
  cases call with
  | sign label data =>
    refine yields_withSession fun s => yields_findKey (fun hn e => ?_) fun key hk h => ?_
    · rw [Token.expected, hn]
      rfl
    · refine ⟨trivial, fun r hr => ?_⟩
      obtain ⟨sig, rfl⟩ := hr
      rw [safe_ret, Token.expected, hk]
      rfl
  | verify label data sig =>
    refine yields_withSession fun s => yields_findKey (fun hn e => ?_) fun key hk h => ?_
    · rw [Token.expected, hn]
      rfl
    · refine ⟨trivial, fun r hr => ?_⟩
      obtain rfl : r = T.verify (T.value key) data sig := hr
      rw [Token.expected, hk, Option.bind_some, Token.verdict]
      rcases T.verify (T.value key) data sig with (⟨_ | _ | _ | n, text⟩ | text) | u <;> rfl
  | encrypt label plaintext =>
    refine yields_withSession fun s => yields_findKey (fun hn e => ?_) fun key hk => ?_
    · rw [Token.expected, hn]
      rfl
    · refine yields_encrypt fun iv ct => ?_
      rw [Token.expected, hk]
      rfl
  | decrypt label ct iv =>
    rw [perform, decryptAesCbcPad, Token.expected]
    split
    · refine yields_withSession fun s => yields_findKey (fun hn e => ?_) fun key hk => ?_
      · rw [hn]
        rfl
      · rw [hk]
        exact yields_decrypt
    · exact fun h => rfl
  | deriveAndEncrypt label peer plaintext =>
    refine yields_withSession fun s => yields_findKey (fun hn e => ?_) fun base hb => ?_
    · rw [Token.expected, Token.derivedKey, hn]
      rfl
    refine yields_deriveKey hb (fun hn e => ?_) fun key hk => yields_encrypt fun iv ct => ?_
    · rw [Token.expected, hn]
      rfl
    · rw [Token.expected, hk]
      rfl
  | deriveAndDecrypt label peer ct iv =>
    rw [perform, deriveAndDecrypt, Token.expected]
    split
    · refine yields_withSession fun s => yields_findKey (fun hn e => ?_) fun base hb => ?_
      · rw [Token.derivedKey, hn]
        rfl
      refine yields_deriveKey hb (fun hn e => ?_) fun key hk => ?_
      · rw [hn]
        rfl
      · rw [hk]
        exact yields_decrypt
    · exact fun h => rfl

/-- The same, whatever handles the session of the operation sees. -/
theorem expected_of_seen {call : HsmCall} {u : List (Ev p11Sig)} {r : call.Ret} {V : Token Key}
    (h : Steps (c.perform K call) u (.ret r)) (hV : T.Seen (fun V x => V.Good x) u V) :
    call.shape r = T.expected call := by
  rw [← hV.sameKeys.expected]
  refine (perform_expected K c call []).post_of_steps h fun u₁ x u₂ heq => ?_
  exact seen_oneSession h hV x (by simp [heq])

end HsmClient

end PicoHsm
