/-
Concurrent requests at the HSM.

The pipeline with every HSM call spelled out in PKCS#11 operations (`lower`), any number
of requests at once, over one shared token (`Token.act`), whose keys are fixed but whose
handles are those of a session.  The audit log answers each append in a fixed way and the
runtime starts every task, so that what is left to interfere is the HSM.

* `Exclusive` — the invariant: one request at most holds a session, and the token's state
  is that session's;
* `Attended` — what a request has done was answered without fault, each operation by the
  handles of its session;
* `status_determined` — answered without faults, a request has one status only;
* `serving_oneSession` — if a session is opened only while no other request holds one,
  every session is opened and logged in, and every request ends with the status it has
  alone;
* `login_race` — a request that logs in while another one holds a session fails.
-/
import PicoHsm.Pool
import PicoHsm.ReferenceRequest
import PicoHsm.Token

namespace PicoHsm

open Text Effects Prog

/-! ### The pipeline over PKCS#11 -/

inductive LowOp where
  | append (a : AppendArgs)
  | spawn
  | p11 (op : P11Op)

def LowOp.Ret : LowOp → Type
  | .append _ => Except String Unit
  | .spawn => Spawn
  | .p11 op => op.Ret

abbrev lowSig : Sig := ⟨LowOp, LowOp.Ret⟩

/-- Code of the PKCS#11 layer, among the operations of the pipeline. -/
def liftP11 {α : Type} (p : Prog p11Sig α) : Prog lowSig α :=
  p.interp fun op => .call (.p11 op) .ret

/-- An operation of the pipeline, with an HSM call spelled out. -/
def Gateway.lower (K : Crates) (g : Gateway) : (e : GwOp) → Prog lowSig (GwOp.Ret e)
  | .append a => .call (.append a) .ret
  | .spawn => .call .spawn .ret
  | .hsm c => liftP11 (g.hsm.perform K c)

/-- `process_line` down to PKCS#11. -/
def Gateway.processLineP11 (K : Crates) (g : Gateway) (parse : String → Except String Request)
    (cn line : String) : Prog lowSig Response :=
  (g.processLine K parse cn line).interp (g.lower K)

theorem Gateway.processLineP11_of_parse {K : Crates} {g : Gateway}
    {parse : String → Except String Request} {cn line : String} {req : Request}
    (h : parse line = .ok req) :
    g.processLineP11 K parse cn line = (g.processRequest K cn req).interp (g.lower K) := by
  rw [processLineP11, processLine_of_parse h]

/-- The PKCS#11 part of an event. -/
def p11Event : Ev lowSig → Option (Ev p11Sig)
  | ⟨.p11 op, r⟩ => some ⟨op, r⟩
  | _ => none

def p11Part (h : List (Ev lowSig)) : List (Ev p11Sig) := h.filterMap p11Event

theorem mem_p11Part {h : List (Ev lowSig)} {x : Ev p11Sig} :
    x ∈ p11Part h ↔ ∃ ev ∈ h, p11Event ev = some x := List.mem_filterMap

theorem p11Part_snoc (h : List (Ev lowSig)) (ev : Ev lowSig) :
    p11Part (h ++ [ev]) = p11Part h ++ (p11Event ev).toList := by
  rw [p11Part, List.filterMap_append]
  rcases hev : p11Event ev with _ | x
  · rw [List.filterMap_cons_none hev]
    rfl
  · rw [List.filterMap_cons_some hev]
    rfl

/-- A condition on PKCS#11 operations, on those of the pipeline. -/
def OnP11 (guar : List (Ev p11Sig) → P11Op → Prop) (h : List (Ev lowSig)) : LowOp → Prop
  | .p11 op => guar (p11Part h) op
  | _ => True

/-- What holds of code of the PKCS#11 layer holds of it among the other operations. -/
theorem safe_liftP11 {α : Type} {rely : List (Ev p11Sig) → Ev p11Sig → Prop}
    {guar : List (Ev p11Sig) → P11Op → Prop} {post : List (Ev p11Sig) → α → Prop}
    {p : Prog p11Sig α} {h : List (Ev lowSig)} (hs : Safe rely guar post (p11Part h) p) :
    Safe (fun h ev => ∀ x, p11Event ev = some x → rely (p11Part h) x) (OnP11 guar)
      (fun h a => post (p11Part h) a) h (liftP11 p) := by
  induction p generalizing h with
  | ret a => exact hs
  | call e k ih =>
    refine ⟨hs.1, fun r hr => ih r ?_⟩
    rw [p11Part_snoc]
    exact hs.2 r (hr _ rfl)

/-- A finished run of code of the PKCS#11 layer. -/
theorem steps_of_liftP11 {α : Type} {p : Prog p11Sig α} {t : List (Ev lowSig)} {a : α}
    (h : Steps (liftP11 p) t (.ret a)) : Steps p (p11Part t) (.ret a) := by
  induction p generalizing t with
  | ret b =>
    cases h
    exact .refl _
  | call e k ih =>
    cases h with
    | call h => exact .call (ih _ h)

/-! ### Sessions of one request -/

/-- The session a request holds. -/
def sessionOf (h : List (Ev lowSig)) : Option (Nat × Bool) := held (p11Part h)

theorem sessionOf_other {h : List (Ev lowSig)} {ev : Ev lowSig} (hev : p11Event ev = none) :
    sessionOf (h ++ [ev]) = sessionOf h := by
  rw [sessionOf, p11Part_snoc, hev, Option.toList_none, List.append_nil, sessionOf]

theorem sessionOf_p11 (h : List (Ev lowSig)) (op : P11Op) (r : lowSig.Ret (.p11 op)) :
    sessionOf (h ++ [⟨.p11 op, r⟩]) = heldStep (sessionOf h) ⟨op, r⟩ := by
  rw [sessionOf, p11Part_snoc]
  exact held_snoc _ _

theorem anyCalls (K : Crates) (g : Gateway) (parse : String → Except String Request)
    (cn line : String) :
    Safe (fun _ _ => True) (fun _ e => ∀ c, e = GwOp.hsm c → True) (fun _ _ => True) []
      (g.processLine K parse cn line) :=
  safe_of_steps (fun _ _ _ _ _ _ => trivial) fun _ _ _ => trivial

/-- What every operation of the client keeps to, as often as it is performed, a request keeps
to; `inv` is what holds between two of them. -/
theorem safe_processLineP11 {K : Crates} {g : Gateway} {parse : String → Except String Request}
    {cn line : String} {guar : List (Ev p11Sig) → P11Op → Prop} (inv : List (Ev p11Sig) → Prop)
    {P : HsmCall → Prop} {h₀ : List (Ev gwSig)}
    (hcalls : Safe (fun _ _ => True) (fun _ e => ∀ c, e = GwOp.hsm c → P c) (fun _ _ => True) h₀
      (g.processLine K parse cn line))
    (hf : ∀ c h, P c → inv h →
      Safe (fun _ _ => True) guar (fun h _ => inv h) h (g.hsm.perform K c)) (hi : inv []) :
    Safe (fun _ _ => True) (OnP11 guar) (fun h _ => inv (p11Part h)) []
      (g.processLineP11 K parse cn line) := by
  refine @Safe.interp _ _ _ _ _ (fun h => inv (p11Part h)) _ _ _ _ _ hcalls
    (fun e h hP hi => ?_) _ hi
  have hother : ∀ ev, p11Event ev = none → inv (p11Part (h ++ [ev])) := by
    intro ev hev
    rw [p11Part_snoc, hev, Option.toList_none, List.append_nil]
    exact hi
  cases e with
  | append a => exact ⟨trivial, fun r _ => hother _ rfl⟩
  | spawn => exact ⟨trivial, fun r _ => hother _ rfl⟩
  | hsm c =>
    exact (safe_liftP11 (hf c (p11Part h) (hP c rfl) hi)).mono (fun _ _ _ _ _ => trivial)
      (fun _ _ hg => hg) fun _ _ hp => hp

/-- A request opens one session at a time, uses it and closes it, whatever is answered. -/
theorem processLineP11_disciplined (K : Crates) (g : Gateway)
    (parse : String → Except String Request) (cn line : String) :
    Safe (fun _ _ => True) (OnP11 (Disciplined g.hsm.pin)) (fun h _ => sessionOf h = none) []
      (g.processLineP11 K parse cn line) :=
  safe_processLineP11 (fun h => held h = none) (anyCalls K g parse cn line)
    (fun c _ _ hh => HsmClient.perform_disciplined K g.hsm c hh) rfl

/-! ### Sessions of all requests -/

section Exclusive

variable {Key ι : Type} {T : Token Key}

/-- One request at most holds a session, and the token's state is that session's. -/
inductive Exclusive (s : TokenState) (sess : ι → Option (Nat × Bool)) : Prop where
  | free : (∀ i, sess i = none) → s = ⟨[], false⟩ → Exclusive s sess
  | busy (i : ι) (x : Nat) (b : Bool) : sess i = some (x, b) → (∀ j, j ≠ i → sess j = none) →
      s = ⟨[x], b⟩ → Exclusive s sess

/-- An operation answered without fault: it has opened a session, which may see any handles,
or was answered by the handles of its session. -/
inductive Served (T : Token Key) (s s' : Viewed Key) : Ev p11Sig → Prop where
  | opened {slot x : Nat} {V : Token Key} : T.SameKeys V →
      s'.view = Function.update s.view x V → Served T s s' ⟨.openRwSession slot, .ok x⟩
  | used {ev : Ev p11Sig} : ¬ ev.op.Opens → (s.view ev.op.session).Good ev → s'.view = s.view →
      Served T s s' ev

variable {s s' : Viewed Key} {sess : ι → Option (Nat × Bool)} {i : ι} {x : Nat} {b : Bool}
  {own : List (Ev p11Sig)} {op : P11Op} {r : op.Ret}

theorem Exclusive.holder {s : TokenState} (h : Exclusive s sess) (hi : sess i = some (x, b)) :
    s = ⟨[x], b⟩ ∧ ∀ j, j ≠ i → sess j = none := by
  cases h with
  | free hn _ =>
    rw [hn i] at hi
    cases hi
  | busy j y b' hj hn hs =>
    obtain rfl : i = j := by
      by_contra hij
      rw [hn i hij] at hi
      cases hi
    rw [hj] at hi
    cases hi
    exact ⟨hs, hn⟩

theorem Exclusive.vacant {s : TokenState} (h : Exclusive s sess) (hn : ∀ i, sess i = none) :
    s = ⟨[], false⟩ := by
  cases h with
  | free _ hs => exact hs
  | busy j y b hj _ _ =>
    rw [hn j] at hj
    cases hj

variable [DecidableEq ι]

/-- Work in a session that is logged in leaves the token as it is. -/
theorem Exclusive.work (h : Exclusive s.state sess) (hw : op.WorksIn x)
    (hi : sess i = some (x, true))
    (ha : (op.session ∈ s.state.sessions → s.state.loggedIn = true →
      (s.view op.session).Good ⟨op, r⟩) ∧ s' = s) :
    Served T s s' ⟨op, r⟩ ∧
      Exclusive s'.state (Function.update sess i (heldStep (sess i) ⟨op, r⟩)) := by
  obtain ⟨hs, -⟩ := h.holder hi
  obtain ⟨hgood, rfl⟩ := ha
  rw [hw.heldStep, Function.update_eq_self]
  refine ⟨.used hw.not_opens (hgood ?_ ?_) rfl, h⟩
  · rw [hs, hw.session]
    exact List.mem_singleton_self x
  · rw [hs]

/-- **One step at the token.**  If sessions are opened only while no other request holds
one, every operation is answered without fault, and the requests stay apart. -/
theorem Exclusive.step (h : Exclusive s.state sess) (hown : held own = sess i)
    (hd : Disciplined T.pin own op) (ha : T.act s ⟨op, r⟩ s')
    (hal : ∀ slot, op = .openRwSession slot → ∀ j, j ≠ i → sess j = none) :
    Served T s s' ⟨op, r⟩ ∧
      Exclusive s'.state (Function.update sess i (heldStep (sess i) ⟨op, r⟩)) := by
  cases op with
  | openRwSession slot =>
    have hn : ∀ j, sess j = none := by
      intro j
      rcases eq_or_ne j i with rfl | hj
      · exact hown.symm.trans hd
      · exact hal slot rfl j hj
    -- so the token has no session open
    have hs := h.vacant hn
    obtain ⟨x, V, rfl, -, hV, rfl⟩ := ha
    refine ⟨.opened hV rfl, .busy i x false (Function.update_self i _ sess) (fun j hj => ?_) ?_⟩
    · rw [Function.update_of_ne hj]
      exact hn j
    · rw [hs]
  | login x pin =>
    obtain ⟨hheld, rfl⟩ := hd
    obtain ⟨hs, hn⟩ := h.holder (hown.symm.trans hheld)
    simp only [Token.act, hs, Bool.false_eq_true, if_false, List.mem_singleton, and_self,
      if_true] at ha
    obtain ⟨rfl, rfl⟩ := ha
    refine ⟨.used id rfl rfl, .busy i x true (Function.update_self i _ sess) (fun j hj => ?_) rfl⟩
    rw [Function.update_of_ne hj]
    exact hn j hj
  | closeSession x =>
    obtain ⟨b, hheld⟩ := hd
    obtain ⟨hs, hn⟩ := h.holder (hown.symm.trans hheld)
    obtain rfl : s' = _ := ha
    -- it was the last session, so the token is logged out
    refine ⟨.used id trivial rfl, .free (fun j => ?_) ?_⟩
    · rcases eq_or_ne j i with rfl | hj
      · exact Function.update_self j _ sess
      · rw [Function.update_of_ne hj]
        exact hn j hj
    · simp [hs]
  | findObjects x template => exact h.work rfl (hown.symm.trans hd) ha
  | sign x mech key data => exact h.work rfl (hown.symm.trans hd) ha
  | verify x mech key data sig => exact h.work rfl (hown.symm.trans hd) ha
  | generateRandom x len => exact h.work rfl (hown.symm.trans hd) ha
  | encrypt x mech key data => exact h.work rfl (hown.symm.trans hd) ha
  | decrypt x mech key data => exact h.work rfl (hown.symm.trans hd) ha
  | deriveKey x mech base template => exact h.work rfl (hown.symm.trans hd) ha

/-- What a request has done was answered without fault, each operation by the handles of its
session, and those of the session it holds are the token's. -/
def Attended (T : Token Key) (view : Nat → Token Key) (own : List (Ev p11Sig)) : Prop :=
  ∃ V, T.Seen (fun V x => V.Good x) own V ∧ ∀ x b, held own = some (x, b) → view x = V

theorem Attended.start {view : Nat → Token Key} : Attended T view [] :=
  ⟨T, .start (.refl T), fun x b hx => by cases hx⟩

theorem Attended.step (h : Attended T s.view own) (hd : Disciplined T.pin own op)
    (hs : Served T s s' ⟨op, r⟩) : Attended T s'.view (own ++ [⟨op, r⟩]) := by
  obtain ⟨V, hseen, hV⟩ := h
  cases hs with
  | @opened slot x V' hV' hview =>
    refine ⟨V', .reopen hseen hV' ⟨x, rfl⟩, fun y b hy => ?_⟩
    rw [held_snoc] at hy
    cases hy
    rw [hview, Function.update_self]
  | used hop hgood hview =>
    obtain ⟨b, hheld⟩ := hd.holds hop
    have hsess : s.view op.session = V := hV _ _ hheld
    refine ⟨V, .same hseen (hsess ▸ hgood), fun y b' hy => ?_⟩
    -- what is held is still this session, or none
    rw [held_snoc, hheld] at hy
    rw [hview, heldStep_session hop hy, hsess]

/-- Another request's step, if this one holds no session when one is opened. -/
theorem Attended.aside (h : Attended T s.view own) {ev : Ev p11Sig} (hs : Served T s s' ev)
    (hidle : ev.op.Opens → held own = none) : Attended T s'.view own := by
  obtain ⟨V, hseen, hV⟩ := h
  cases hs with
  | opened _ _ =>
    refine ⟨V, hseen, fun x b hx => ?_⟩
    rw [hidle trivial] at hx
    cases hx
  | used _ _ hview =>
    rw [hview]
    exact ⟨V, hseen, hV⟩

end Exclusive

/-! ### Runs -/

section Runs

variable {Key ι : Type}

/-- The token, an audit log that answers each append in a fixed way, and a runtime that
starts every task. -/
def tokenAct (T : Token Key) (aud : AppendArgs → Except String Unit) (s : Viewed Key) :
    Ev lowSig → Viewed Key → Prop
  | ⟨.append a, r⟩, s' => r = aud a ∧ s' = s
  | ⟨.spawn, r⟩, s' => r = Spawn.ran ∧ s' = s
  | ⟨.p11 op, r⟩, s' => T.act s ⟨op, r⟩ s'

/-- The answers it gives outside the HSM. -/
def Steady (aud : AppendArgs → Except String Unit) : Ev lowSig → Prop
  | ⟨.append a, r⟩ => r = aud a
  | ⟨.spawn, r⟩ => r = Spawn.ran
  | ⟨.p11 _, _⟩ => True

/-- A request is answered without fault by the HSM, each operation by the handles of its
session; outside the HSM, as `q` says. -/
structure Faultless (T : Token Key) (q : Ev lowSig → Prop) (t : List (Ev lowSig)) : Prop where
  outside : ∀ ev ∈ t, q ev
  hsm : ∃ V, T.Seen (fun V x => V.Good x) (p11Part t) V

theorem Faultless.of_segment {T : Token Key} {q : Ev lowSig → Prop} {t t' : List (Ev lowSig)}
    (h : Faultless T q t) (ht : t' <:+: t) : Faultless T q t' := by
  obtain ⟨V, hV⟩ := h.hsm
  exact ⟨fun ev hev => h.outside ev (ht.subset hev), hV.of_segment (ht.filterMap p11Event)⟩

theorem Faultless.good {T : Token Key} {q : Ev lowSig → Prop} {t : List (Ev lowSig)}
    (h : Faultless T q t) {op : P11Op} {r : op.Ret} (hm : (⟨.p11 op, r⟩ : Ev lowSig) ∈ t) :
    ∃ V : Token Key, V.Good ⟨op, r⟩ := by
  obtain ⟨V, hV⟩ := h.hsm
  exact hV.of_mem (mem_p11Part.mpr ⟨_, hm, rfl⟩)

/-- The lines `(cn, line)`, all still to be handled, on what they share. -/
def Gateway.servingP11 {σ : Type} (K : Crates) (g : Gateway) (shared : σ)
    (parse : String → Except String Request) (lines : ι → String × String) :
    Conf lowSig σ ι Response :=
  ⟨shared, fun i => g.processLineP11 K parse (lines i).1 (lines i).2, []⟩

variable [DecidableEq ι]

/-- A session is opened only while no other request holds one. -/
def oneSession {σ : Type} (c : Conf lowSig σ ι Response) (i : ι) (ev : Ev lowSig) : Prop :=
  ∀ slot, ev.op = .p11 (.openRwSession slot) → ∀ j, j ≠ i → sessionOf (c.own j) = none

/-- A request that runs alone is never in another's way. -/
theorem oneSession_alone {σ : Type} (c : Conf lowSig σ Unit Response) (i : Unit)
    (ev : Ev lowSig) : oneSession c i ev := fun _ _ j hj => absurd (Subsingleton.elim j i) hj

variable {T : Token Key} {aud : AppendArgs → Except String Unit} {K : Crates} {g : Gateway}
  {parse : String → Except String Request} {lines : ι → String × String}
  {c : Conf lowSig (Viewed Key) ι Response}

/-- The requests stay apart, and each is answered without fault. -/
theorem exclusive_of_reach (hpin : g.hsm.pin = T.pin)
    (hc : Reach (tokenAct T aud) oneSession (g.servingP11 K T.atRest parse lines) c) :
    Exclusive c.shared.state (fun i => sessionOf (c.own i)) ∧
      ∀ i, Attended T c.shared.view (p11Part (c.own i)) ∧ ∀ ev ∈ c.own i, Steady aud ev := by
  refine Reach.inv (fun c => Exclusive c.shared.state (fun i => sessionOf (c.own i)) ∧
    ∀ i, Attended T c.shared.view (p11Part (c.own i)) ∧ ∀ ev ∈ c.own i, Steady aud ev)
    ⟨.free (fun _ => rfl) rfl, fun i => ⟨.start, by simp [Gateway.servingP11, Conf.own]⟩⟩ ?_ hc
  rintro c i e k r s' hr ⟨hex, hown⟩ hp ha hal
  have hd := hr.guar_next rfl (processLineP11_disciplined K g parse (lines i).1 (lines i).2) hp
  suffices H : Steady aud ⟨e, r⟩ ∧
      Exclusive s'.state (Function.update (fun j => sessionOf (c.own j)) i
        (sessionOf (c.own i ++ [⟨e, r⟩]))) ∧
      Attended T s'.view (p11Part (c.own i ++ [⟨e, r⟩])) ∧
      ∀ j, j ≠ i → Attended T s'.view (p11Part (c.own j)) by
    obtain ⟨hev, hex', hi, hne⟩ := H
    rw [Conf.advance_shared, Conf.map_own_advance sessionOf]
    refine ⟨hex', fun j => ?_⟩
    rcases eq_or_ne j i with rfl | hj
    · rw [Conf.advance_own_self]
      exact ⟨hi, List.forall_mem_append.mpr ⟨(hown j).2, List.forall_mem_singleton.mpr hev⟩⟩
    · rw [Conf.advance_own_ne c hj]
      exact ⟨hne j hj, (hown j).2⟩
  -- an operation that is not one of PKCS#11
  have hother : ∀ {P : Prop}, P ∧ s' = c.shared → p11Event ⟨e, r⟩ = none → P ∧
      Exclusive s'.state (Function.update (fun j => sessionOf (c.own j)) i
        (sessionOf (c.own i ++ [⟨e, r⟩]))) ∧
      Attended T s'.view (p11Part (c.own i ++ [⟨e, r⟩])) ∧
      ∀ j, j ≠ i → Attended T s'.view (p11Part (c.own j)) := by
    rintro P ⟨hP, rfl⟩ hev
    rw [sessionOf_other hev, Function.update_eq_self i fun j => sessionOf (c.own j), p11Part_snoc,
      hev, Option.toList_none, List.append_nil]
    exact ⟨hP, hex, (hown i).1, fun j _ => (hown j).1⟩
  cases e with
  | append a => exact hother ha rfl
  | spawn => exact hother ha rfl
  | p11 op =>
    rw [OnP11, hpin] at hd
    have hopen : ∀ slot, op = .openRwSession slot → ∀ j, j ≠ i → sessionOf (c.own j) = none :=
      fun slot hop => hal slot (congrArg LowOp.p11 hop)
    obtain ⟨hserved, hex'⟩ := hex.step (i := i) rfl hd ha hopen
    rw [sessionOf_p11, p11Part_snoc]
    refine ⟨trivial, hex', (hown i).1.step hd hserved, fun j hj => ?_⟩
    refine (hown j).1.aside hserved fun ho => ?_
    cases op with
    | openRwSession slot => exact hopen slot rfl j hj
    | _ => exact ho.elim

theorem faultless_of_reach (hpin : g.hsm.pin = T.pin)
    (hc : Reach (tokenAct T aud) oneSession (g.servingP11 K T.atRest parse lines) c) (i : ι) :
    Faultless T (Steady aud) (c.own i) := by
  obtain ⟨-, hown⟩ := exclusive_of_reach hpin hc
  obtain ⟨V, hV, -⟩ := (hown i).1
  exact ⟨(hown i).2, V, hV⟩

/-! ### The status of a request -/

/-- The answers to the pipeline's operations, as far as its status depends on them. -/
def Regular (T : Token Key) (aud : AppendArgs → Except String Unit) : Ev gwSig → Prop
  | ⟨.append a, r⟩ => r = aud a
  | ⟨.spawn, r⟩ => r = Spawn.ran
  | ⟨.hsm c, r⟩ => c.shape r = T.expected c

/-- An operation performed without fault is answered regularly. -/
theorem regular_of_steps {e : GwOp} {t : List (Ev lowSig)} {r : GwOp.Ret e}
    (h : Steps (g.lower K e) t (.ret r)) (hf : Faultless T (Steady aud) t) :
    Regular T aud ⟨e, r⟩ := by
  cases e with
  | append a => exact hf.outside _ (Steps.mem_of_one (S := lowSig) (e := LowOp.append a) h)
  | spawn => exact hf.outside _ (Steps.mem_of_one (S := lowSig) (e := LowOp.spawn) h)
  | hsm c =>
    obtain ⟨V, hV⟩ := hf.hsm
    exact HsmClient.expected_of_seen (steps_of_liftP11 h) hV

/-- Answered regularly, the code ends with this status. -/
def EndsWith (T : Token Key) (aud : AppendArgs → Except String Unit) (status : Response.Status)
    (p : Prog gwSig Response) : Prop :=
  ∀ h, Safe (fun _ ev => Regular T aud ev) (fun _ _ => True)
    (fun _ resp => resp.status = status) h p

/-- Answered regularly, the code ends with a status that is fixed beforehand. -/
def Determined (T : Token Key) (aud : AppendArgs → Except String Unit)
    (p : Prog gwSig Response) : Prop :=
  ∃ status, EndsWith T aud status p

theorem determined_ret (resp : Response) : Determined T aud (.ret resp) :=
  ⟨resp.status, fun _ => rfl⟩

theorem determined_append {a : AppendArgs} {k : Except String Unit → Prog gwSig Response}
    (hk : Determined T aud (k (aud a))) :
    Determined T aud (.call (.append a) k : Prog gwSig Response) := by
  obtain ⟨status, hst⟩ := hk
  refine ⟨status, fun h => ⟨trivial, fun r hr => ?_⟩⟩
  obtain rfl : r = aud a := hr
  exact hst _

/-- An HSM call in a task of its own, whose failure leads to one status and whose success
to another. -/
theorem determined_blocking {c : HsmCall} {f : Except String c.Ret → Prog gwSig Response}
    (bad good : Response.Status) (hbad : ∀ r, c.shape r = none → EndsWith T aud bad (f (.ok r)))
    (hgood : ∀ r b, c.shape r = some b → EndsWith T aud good (f (.ok r))) :
    Determined T aud (blocking c >>= f) := by
  rcases hE : T.expected c with _ | b
  · refine ⟨bad, fun h => ⟨trivial, fun s hs => ?_⟩⟩
    obtain rfl : s = Spawn.ran := hs
    exact ⟨trivial, fun r hr => hbad r (hr.trans hE) _⟩
  · refine ⟨good, fun h => ⟨trivial, fun s hs => ?_⟩⟩
    obtain rfl : s = Spawn.ran := hs
    exact ⟨trivial, fun r hr => hgood r b (hr.trans hE) _⟩

variable (T aud K g) in
/-- The status of sealing does not depend on what is sealed. -/
theorem sealResponse_endsWith (keyLabel : String) :
    ∃ status, ∀ iv ct, EndsWith T aud status (g.sealResponse K keyLabel iv ct) := by
  rcases hE : T.keyOf g.integrityLabel .privateKey with _ | key
  · refine ⟨.error, fun iv ct h => ⟨trivial, fun r hr => ?_⟩⟩
    change _ = (T.keyOf g.integrityLabel .privateKey).map _ at hr
    rw [hE] at hr
    rcases r with e | sig
    · rfl
    · cases hr
  · refine ⟨.ok, fun iv ct h => ⟨trivial, fun r hr => ?_⟩⟩
    change _ = (T.keyOf g.integrityLabel .privateKey).map _ at hr
    rw [hE] at hr
    rcases r with e | sig
    · cases hr
    · rfl

/-- Behind the check of the integrity signature. -/
theorem determined_behindCheck {req : Request} {c : HsmCall} {p : Prog gwSig Response}
    (hp : Determined T aud p) : Determined T aud (g.behindCheck K req c p) := by
  rw [Gateway.behindCheck]
  rcases c.ciphertext with _ | ⟨iv, ct⟩
  · exact hp
  obtain ⟨status, hst⟩ := hp
  rcases hE : T.expected (.verify g.integrityLabel (integrityPayload req.keyLabel iv ct)
    (req.integrity K)) with _ | _ | _
  · refine ⟨.denied, fun h => ⟨trivial, fun r hr => ?_⟩⟩
    replace hr := hr.trans hE
    rcases r with e | valid
    · rfl
    · cases hr
  · refine ⟨.denied, fun h => ⟨trivial, fun r hr => ?_⟩⟩
    replace hr := hr.trans hE
    rcases r with e | valid
    · cases hr
    · cases hr
      rfl
  · refine ⟨status, fun h => ⟨trivial, fun r hr => ?_⟩⟩
    replace hr := hr.trans hE
    rcases r with e | valid
    · cases hr
    · cases hr
      exact hst _

/-- Success, for `execute`, is what the token's verdict is about. -/
theorem onSuccess_isSome {label : String} {c : HsmCall} {r : c.Ret} :
    (g.onSuccess K label c r).isSome = (c.shape r).isSome := by
  cases c <;> rcases r with e | x <;> rfl

variable (K g) in
theorem exists_onSuccess (label : String) {c : HsmCall} {r : c.Ret} {b : Bool}
    (h : c.shape r = some b) : ∃ p, g.onSuccess K label c r = some p := by
  rw [← Option.isSome_iff_exists, onSuccess_isSome, h]
  rfl

variable (T aud K g) in
/-- The status after a success does not depend on the result. -/
theorem onSuccess_endsWith (label : String) (c : HsmCall) :
    ∃ status, ∀ r p, g.onSuccess K label c r = some p → EndsWith T aud status p := by
  obtain ⟨status, hst⟩ := sealResponse_endsWith T aud K g label
  cases c with
  | encrypt _ data =>
    refine ⟨status, fun r p hp => ?_⟩
    obtain ⟨x, -, rfl⟩ := Option.map_eq_some_iff.mp hp
    exact hst x.1 x.2
  | deriveAndEncrypt _ peer data =>
    refine ⟨status, fun r p hp => ?_⟩
    obtain ⟨x, -, rfl⟩ := Option.map_eq_some_iff.mp hp
    exact hst x.1 x.2
  | sign _ data =>
    refine ⟨.ok, fun r p hp => ?_⟩
    obtain ⟨sig, -, rfl⟩ := Option.map_eq_some_iff.mp hp
    exact fun _ => rfl
  | verify _ data sig =>
    refine ⟨.ok, fun r p hp => ?_⟩
    obtain ⟨valid, -, rfl⟩ := Option.map_eq_some_iff.mp hp
    exact fun _ => rfl
  | decrypt _ ct iv =>
    refine ⟨.ok, fun r p hp => ?_⟩
    obtain ⟨pt, -, rfl⟩ := Option.map_eq_some_iff.mp hp
    exact fun _ => rfl
  | deriveAndDecrypt _ peer ct iv =>
    refine ⟨.ok, fun r p hp => ?_⟩
    obtain ⟨pt, -, rfl⟩ := Option.map_eq_some_iff.mp hp
    exact fun _ => rfl

variable (T aud K g) in
theorem execute_determined (req : Request) (peer : Option (List UInt8)) :
    Determined T aud (g.execute K req peer) := by
  have hb := g.execute_branch K req peer
  generalize g.execute K req peer = p at hb
  cases hb with
  | reject message _ => exact determined_ret _
  | serve c f _ hf =>
    obtain ⟨status, hst⟩ := onSuccess_endsWith T aud K g req.keyLabel c
    refine determined_behindCheck (determined_blocking .error status (fun r hr => ?_)
      fun r b hr => ?_)
    · have hnone : g.onSuccess K req.keyLabel c r = none := by
        rw [← Option.not_isSome_iff_eq_none, onSuccess_isSome, hr]
        simp
      obtain ⟨message, hm⟩ := hf.failed r hnone
      rw [hm]
      exact fun _ => rfl
    · obtain ⟨p, hp⟩ := exists_onSuccess K g req.keyLabel hr
      rw [hf.done r p hp]
      exact hst r p hp

variable (T aud K g parse) in
theorem processLine_determined (cn line : String) :
    Determined T aud (g.processLine K parse cn line) := by
  rw [Gateway.processLine]
  rcases parse line with e | req
  · exact determined_ret _
  dsimp only
  rw [Gateway.processRequest]
  split
  · exact determined_append (determined_ret _)
  rcases g.peerKey K cn req with reason | peer
  · exact determined_append (determined_ret _)
  refine determined_append ?_
  rcases aud (Gateway.entryFor cn req .intent "") with e | ⟨⟩
  · exact determined_ret _
  · obtain ⟨status, hst⟩ := execute_determined T aud K g req peer
    refine ⟨status, fun h => ?_⟩
    dsimp only
    rw [safe_bind]
    exact (hst h).mono (fun _ _ hr => hr) (fun _ _ hg => hg) fun _ _ hs =>
      ⟨trivial, fun _ _ => hs⟩

variable (T aud K g parse) in
/-- **The status of a request**: answered without faults, there is only one it can end
with. -/
theorem status_determined (cn line : String) :
    ∃ status, ∀ t resp, Steps (g.processLineP11 K parse cn line) t (.ret resp) →
      Faultless T (Steady aud) t → resp.status = status := by
  obtain ⟨status, hst⟩ := processLine_determined T aud K g parse cn line
  refine ⟨status, fun t resp ht hf => ?_⟩
  -- the run of the pipeline behind the run at the token
  obtain ⟨u, hu, hev⟩ := ht.of_interp
  refine (hst []).post_of_steps hu fun u₁ ev u₂ heq => ?_
  obtain ⟨t', ht', hsub⟩ := hev ev (by simp [heq])
  exact regular_of_steps ht' (hf.of_segment hsub)

/-! ### Every request can be finished -/

/-- One way to answer the operations. -/
def tokenAnswer (T : Token Key) (aud : AppendArgs → Except String Unit) (s : Viewed Key) :
    (e : LowOp) → LowOp.Ret e × Viewed Key
  | .append a => (aud a, s)
  | .spawn => (.ran, s)
  | .p11 op => T.answer s op

theorem tokenAct_answer (s : Viewed Key) (e : LowOp) :
    tokenAct T aud s ⟨e, (tokenAnswer T aud s e).1⟩ (tokenAnswer T aud s e).2 := by
  cases e with
  | append a => exact ⟨rfl, rfl⟩
  | spawn => exact ⟨rfl, rfl⟩
  | p11 op => exact T.act_answer s op

/-- No other request than `i` holds a session. -/
def OthersIdle (i : ι) (c : Conf lowSig (Viewed Key) ι Response) : Prop :=
  ∀ j, j ≠ i → sessionOf (c.own j) = none

variable (T aud) in
theorem finish_of_othersIdle {i : ι} (h : OthersIdle i c) :
    ∃ c' resp, Reach (tokenAct T aud) oneSession c c' ∧ OthersIdle i c' ∧
      c'.prog i = .ret resp := by
  refine Reach.finish (OthersIdle i) i (fun s e => ⟨_, _, tokenAct_answer s e⟩)
    (fun c hi ev slot _ => hi) (fun c ev s p hi j hj => ?_) h
  rw [Conf.advance_own_ne c hj]
  exact hi j hj

/-- A request that has returned holds no session. -/
theorem sessionOf_done {act : Viewed Key → Ev lowSig → Viewed Key → Prop}
    {allow : Conf lowSig (Viewed Key) ι Response → ι → Ev lowSig → Prop} {s : Viewed Key}
    (hc : Reach act allow (g.servingP11 K s parse lines) c) {i : ι} {resp : Response}
    (hp : c.prog i = .ret resp) : sessionOf (c.own i) = none := by
  have hs := hc.own_steps rfl i
  rw [hp] at hs
  exact (processLineP11_disciplined K g parse (lines i).1 (lines i).2).post_of_steps hs
    fun _ _ _ _ => trivial

/-- A request can be finished, once the session that is open, if any, is closed. -/
theorem finish_of_reach (hpin : g.hsm.pin = T.pin)
    (hc : Reach (tokenAct T aud) oneSession (g.servingP11 K T.atRest parse lines) c) (i : ι) :
    ∃ c' resp, Reach (tokenAct T aud) oneSession c c' ∧ c'.prog i = .ret resp := by
  obtain ⟨hex, -⟩ := exclusive_of_reach hpin hc
  cases hex with
  | free hn _ =>
    obtain ⟨c', resp, hc', -, hp⟩ := finish_of_othersIdle T aud (i := i)
      fun j _ => hn j
    exact ⟨c', resp, hc', hp⟩
  | busy j x b _ hn _ =>
    -- the holder goes first
    obtain ⟨c₁, resp₁, hc₁, hidle, hp₁⟩ := finish_of_othersIdle T aud hn
    have hnone : ∀ k, sessionOf (c₁.own k) = none := by
      intro k
      rcases eq_or_ne k j with rfl | hk
      · exact sessionOf_done (hc.trans hc₁) hp₁
      · exact hidle k hk
    obtain ⟨c', resp, hc', -, hp⟩ := finish_of_othersIdle T aud (i := i)
      fun k _ => hnone k
    exact ⟨c', resp, hc₁.trans hc', hp⟩

/-- **Requests that do not hold sessions at the same time.**  With the right PIN and an HSM
without faults, in every run of any number of requests in which a session is opened only
while no other request holds one: every session is opened and logged in; every request
ends with the status it has whenever it runs alone; and it can always be brought to its
end, as it can alone. -/
theorem serving_oneSession (hpin : g.hsm.pin = T.pin)
    (hc : Reach (tokenAct T aud) oneSession (g.servingP11 K T.atRest parse lines) c) :
    (∀ i slot r, (i, (⟨.p11 (.openRwSession slot), r⟩ : Ev lowSig)) ∈ c.hist → ∃ x, r = .ok x) ∧
    (∀ i x pin r, (i, (⟨.p11 (.login x pin), r⟩ : Ev lowSig)) ∈ c.hist → r = .ok ()) ∧
    (∀ i resp, c.prog i = .ret resp → ∀ c' resp',
      Reach (tokenAct T aud) anySchedule
        (g.servingP11 K T.atRest parse fun _ : Unit => lines i) c' →
      c'.prog () = .ret resp' → resp.status = resp'.status) ∧
    ∀ i, (∃ c' resp, Reach (tokenAct T aud) oneSession c c' ∧ c'.prog i = .ret resp) ∧
      ∃ c' resp,
        Reach (tokenAct T aud) anySchedule
          (g.servingP11 K T.atRest parse fun _ : Unit => lines i) c' ∧
        c'.prog () = .ret resp := by
  have hf := faultless_of_reach hpin hc
  refine ⟨fun i slot r hm => ?_, fun i x pin r hm => ?_, ?_, fun i => ⟨?_, ?_⟩⟩
  · obtain ⟨V, hgood⟩ := (hf i).good (mem_proj.mpr hm)
    exact hgood
  · obtain ⟨V, hgood⟩ := (hf i).good (mem_proj.mpr hm)
    exact hgood
  · intro i resp hp c' resp' hc' hp'
    obtain ⟨status, hst⟩ := status_determined T aud K g parse (lines i).1 (lines i).2
    have hf' := faultless_of_reach hpin (hc'.mono fun c i ev _ => oneSession_alone c i ev) ()
    have hs := hc.own_steps rfl i
    have hs' := hc'.own_steps rfl ()
    rw [hp] at hs
    rw [hp'] at hs'
    -- neither run meets a fault, so both end with the one status there is
    rw [hst _ resp hs (hf i), hst _ resp' hs' hf']
  · exact finish_of_reach hpin hc i
  · have hinit : Reach (tokenAct T aud) oneSession
        (g.servingP11 K T.atRest parse fun _ : Unit => lines i) _ := .init
    obtain ⟨c', resp, hc', hp⟩ := finish_of_reach hpin hinit ()
    exact ⟨c', resp, hc'.mono fun _ _ _ _ => trivial, hp⟩

end Runs

/-! ### Two requests at once -/

/-- The keys of the sample deployment. -/
def Ref.objects : List (List Attribute × Nat) :=
  [(HsmClient.keyTemplate "k1" .privateKey, 1), (HsmClient.keyTemplate "k1" .publicKey, 2),
    (HsmClient.keyTemplate "k1" .secretKey, 3),
    (HsmClient.keyTemplate "gateway-integrity" .privateKey, 4),
    (HsmClient.keyTemplate "gateway-integrity" .publicKey, 5)]

/-- A token that holds each of them once. -/
def Ref.token : Token Nat where
  pin := "648219"
  value := id
  find template := (Ref.objects.filter fun o => o.1 = template).map Prod.snd
  verify _ _ sig :=
    if sig = [1, 2, 3, 4] then .ok ()
    else .error (.pkcs11 .signatureInvalid "CKR_SIGNATURE_INVALID")
  decrypt _ _ ct := .ok ct
  derive key _ := .ok (key + 100)
  handle := id
  value_handle _ := rfl

/-- An audit log that takes every append. -/
def Ref.takesAll (_ : AppendArgs) : Except String Unit := .ok ()

/-- A request of `app-a` to sign. -/
def signLine : String × String :=
  ("app-a", Ref.requestText (.sign "k1" "ecdsa_sha256" "aGVsbG8="))

theorem servingP11_signLine {ι : Type} :
    (Ref.gateway.servingP11 Ref.crates Ref.token.atRest Ref.parseRequest fun _ : ι => signLine) =
      ⟨Ref.token.atRest, fun _ => (Ref.gateway.processRequest Ref.crates "app-a"
        (.sign "k1" "ecdsa_sha256" "aGVsbG8=")).interp (Ref.gateway.lower Ref.crates), []⟩ := by
  simp only [Gateway.servingP11, signLine,
    Gateway.processLineP11_of_parse (Ref.parseRequest_requestText _)]

/-- Alone, the request is answered `ok`. -/
theorem signLine_alone :
    ∃ c resp, Reach (tokenAct Ref.token Ref.takesAll) anySchedule
      (Ref.gateway.servingP11 Ref.crates Ref.token.atRest Ref.parseRequest
        fun _ : Unit => signLine) c ∧
      c.prog () = .ret resp ∧ resp.status = .ok := by
  refine ⟨_, .ok (some "AQIDBA==") none none none,
    Reach.exec tokenAct_answer .init (List.replicate 8 ()), ?_, rfl⟩
  rw [servingP11_signLine]
  rfl

/-- While a first request holds its session, logged in, a second one opens a session, is
refused the login and answers `error`, though alone it is answered `ok`. -/
theorem login_race :
    Ref.gateway.hsm.pin = Ref.token.pin ∧
    (∃ c resp, Reach (tokenAct Ref.token Ref.takesAll) anySchedule
      (Ref.gateway.servingP11 Ref.crates Ref.token.atRest Ref.parseRequest
        fun _ : Bool => signLine) c ∧
      (true, (⟨.p11 (.login 2 "648219"), .error (.pkcs11 .userAlreadyLoggedIn
        "CKR_USER_ALREADY_LOGGED_IN")⟩ : Ev lowSig)) ∈ c.hist ∧
      c.prog true = .ret resp ∧ resp.status = .error) ∧
    ∃ c resp, Reach (tokenAct Ref.token Ref.takesAll) anySchedule
      (Ref.gateway.servingP11 Ref.crates Ref.token.atRest Ref.parseRequest
        fun _ : Unit => signLine) c ∧
      c.prog () = .ret resp ∧ resp.status = .ok := by
  refine ⟨rfl, ⟨_, .error "sign failed: CKR_USER_ALREADY_LOGGED_IN",
    Reach.exec tokenAct_answer .init (List.replicate 4 false ++ List.replicate 6 true), ?_, ?_,
    rfl⟩, signLine_alone⟩
  · rw [servingP11_signLine]
    refine List.mem_of_getElem? (i := 7) ?_
    rfl
  · rw [servingP11_signLine]
    rfl

theorem serving_oneSession_signLine :
    ∃ c resp, Reach (tokenAct Ref.token Ref.takesAll) oneSession
      (Ref.gateway.servingP11 Ref.crates Ref.token.atRest Ref.parseRequest
        fun _ : Bool => signLine) c ∧
      c.prog true = .ret resp ∧ resp.status = .ok := by
  obtain ⟨-, -, -, hfin⟩ := serving_oneSession (T := Ref.token) (c := Ref.gateway.servingP11
    Ref.crates Ref.token.atRest Ref.parseRequest fun _ : Bool => signLine) rfl .init
  obtain ⟨c, resp, hc, hp⟩ := (hfin true).1
  obtain ⟨-, -, hsame, -⟩ := serving_oneSession rfl hc
  obtain ⟨c', resp', hc', hp', hok⟩ := signLine_alone
  exact ⟨c, resp, hc, hp, (hsame true resp hp c' resp' hc' hp').trans hok⟩

end PicoHsm
