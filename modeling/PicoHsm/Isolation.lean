/-
Keys under other labels do not matter.

Two worlds (`Objects.lean`) that agree on the objects under the labels a client is
granted and under the integrity label, and differ in the others in any way: handles,
number, attributes and key material.

* `perform_alike` — an HSM call on a label they agree on has the same result in both;
* `serveLines_alike` — the client gets the same responses from both, whatever it sends.
-/
import PicoHsm.Objects
import PicoHsm.Pipeline
import PicoHsm.Simulation

namespace PicoHsm

open Text Effects Prog

variable {Key Q W α : Type}

/-- The objects under a label. -/
def World.under (w : World Key Q W) (label : String) : List (Object Key) :=
  w.contents.filter fun o => .label (utf8 label) ∈ o.attributes

/-- The worlds agree on the objects under the visible labels, not necessarily on their
handles and their order. -/
structure Alike (visible : String → Prop) (w₁ w₂ : World Key Q W) : Prop where
  device : w₁.device = w₂.device
  outside : w₁.outside = w₂.outside
  under : ∀ label, visible label → (w₁.under label).Perm (w₂.under label)

/-- The two handles stand for the same object. -/
def SameKey (visible : String → Prop) (h₁ : Nat) (w₁ : World Key Q W) (h₂ : Nat)
    (w₂ : World Key Q W) : Prop :=
  Alike visible w₁ w₂ ∧ w₁.lookup h₁ = w₂.lookup h₂

variable {visible : String → Prop} {w₁ w₂ : World Key Q W}

/-! ### The operations on two worlds -/

theorem Alike.ask (h : Alike visible w₁ w₂) (f : Q → α × Q) :
    Same (Alike visible) (w₁.ask f).1 (w₁.ask f).2 (w₂.ask f).1 (w₂.ask f).2 := by
  refine ⟨?_, ?_, h.outside, h.under⟩
  · show (f w₁.device).1 = (f w₂.device).1
    rw [h.device]
  · show (f w₁.device).2 = (f w₂.device).2
    rw [h.device]

theorem Alike.askOutside (h : Alike visible w₁ w₂) (f : W → α × W) :
    Same (Alike visible) (w₁.askOutside f).1 (w₁.askOutside f).2 (w₂.askOutside f).1
      (w₂.askOutside f).2 := by
  refine ⟨?_, h.device, ?_, h.under⟩
  · show (f w₁.outside).1 = (f w₂.outside).1
    rw [h.outside]
  · show (f w₁.outside).2 = (f w₂.outside).2
    rw [h.outside]

theorem SameKey.use {h₁ h₂ : Nat} (h : SameKey visible h₁ w₁ h₂ w₂)
    (f : Object Key → Q → Except Pkcs11Error α × Q) :
    Same (Alike visible) (w₁.use h₁ f).1 (w₁.use h₁ f).2 (w₂.use h₂ f).1 (w₂.use h₂ f).2 := by
  obtain ⟨ha, ho⟩ := h
  rw [World.use, World.use, ho]
  rcases w₂.lookup h₂ with _ | o
  · exact ⟨rfl, ha⟩
  · exact ha.ask (f o)

/-- A search under a visible label finds the same objects. -/
theorem Alike.find (h : Alike visible w₁ w₂) {label : String} (hl : visible label)
    (cls : ObjectClass) :
    (((w₁.find (HsmClient.keyTemplate label cls)).map Prod.fst).map w₁.lookup).Perm
      (((w₂.find (HsmClient.keyTemplate label cls)).map Prod.fst).map w₂.lookup) := by
  have hfind : ∀ w : World Key Q W,
      w.contents.filter (fun o => o.has (HsmClient.keyTemplate label cls)) =
        (w.under label).filter fun o => .class cls ∈ o.attributes := by
    intro w
    rw [World.under, List.filter_filter]
    simp only [Object.has, HsmClient.keyTemplate, List.all_cons, List.all_nil, Bool.and_true]
  rw [World.lookup_find, World.lookup_find, hfind, hfind]
  exact ((h.under label hl).filter _).map some

theorem Alike.close (h : Alike visible w₁ w₂) (D : Device Key Q) (session : Nat) :
    Alike visible (w₁.close D session) (w₂.close D session) := by
  have hclose : ∀ (w : World Key Q W) label, (w.close D session).under label =
      (w.under label).filter fun o => o.session ≠ some session := by
    intro w label
    rw [World.under, World.under, World.close_contents, List.filter_filter, List.filter_filter]
    simp only [Bool.and_comm]
  refine ⟨h.device, h.outside, fun label hl => ?_⟩
  rw [hclose, hclose]
  exact (h.under label hl).filter _

theorem World.lookup_add (w : World Key Q W) (D : Device Key Q) (session : Nat)
    (template : List Attribute) (key : Key) :
    (w.add D session template key).lookup (w.nextHandle D) =
      some ⟨attributesOf template, key, sessionFor session template⟩ :=
  lookup_of_mem (w.add D session template key) (x := (_, _)) List.mem_cons_self

/-- The same new object in both worlds. -/
theorem Alike.add (h : Alike visible w₁ w₂) (D : Device Key Q) (session : Nat)
    (template : List Attribute) (key : Key) :
    SameKey visible (w₁.nextHandle D) (w₁.add D session template key) (w₂.nextHandle D)
      (w₂.add D session template key) := by
  have hunder : ∀ (w : World Key Q W) label, (w.add D session template key).under label =
      List.filter (fun o => .label (utf8 label) ∈ o.attributes)
        [⟨World.attributesOf template, key, World.sessionFor session template⟩] ++
        w.under label := by
    intro w label
    rw [World.under, World.under, World.add_contents, ← List.filter_append]
    rfl
  refine ⟨⟨h.device, h.outside, fun label hl => ?_⟩, ?_⟩
  · rw [hunder, hunder]
    exact (h.under label hl).append_left _
  · rw [w₁.lookup_add, w₂.lookup_add]

/-- Deriving from the same key gives the same key, or fails in the same way. -/
theorem SameKey.derive {h₁ h₂ : Nat} (h : SameKey visible h₁ w₁ h₂ w₂) (D : Device Key Q)
    (session : Nat) (mech : Mechanism) (template : List Attribute) :
    Agree (Alike visible) (SameKey visible) (w₁.derive D session mech h₁ template).1
      (w₁.derive D session mech h₁ template).2 (w₂.derive D session mech h₂ template).1
      (w₂.derive D session mech h₂ template).2 := by
  obtain ⟨hsame, ha⟩ := h.use (D.deriveKey session mech template)
  rw [World.derive, World.derive]
  generalize w₁.use h₁ (D.deriveKey session mech template) = x₁ at hsame ha
  generalize w₂.use h₂ (D.deriveKey session mech template) = x₂ at hsame ha
  obtain ⟨r₁, w₁'⟩ := x₁
  obtain ⟨r₂, w₂'⟩ := x₂
  obtain rfl : r₁ = r₂ := hsame
  rcases r₁ with e | key
  · exact .error e ha
  · exact .ok (ha.add D session template key)

/-! ### The operations of the client -/

namespace HsmClient

variable {D : Device Key Q} {K : Crates} {c : HsmClient} {s : Nat} {label : String}

/-- Run from two worlds related by `pre`, the code fails in the same way, or has results
related by `R`. -/
def Blind (D : Device Key Q) (visible : String → Prop)
    (pre : World Key Q W → World Key Q W → Prop)
    (R : α → World Key Q W → α → World Key Q W → Prop)
    (p q : Prog p11Sig (Except String α)) : Prop :=
  Related (World.answer D) (World.answer D) pre (Agree (Alike visible) R) p q

theorem blind_findKey (hl : visible label) (cls : ObjectClass) :
    Blind D visible (Alike visible) (SameKey (Q := Q) (W := W) visible)
      (findKeyByLabel K s label cls) (findKeyByLabel K s label cls) := by
  intro w₁ w₂ h
  have hperm := h.find hl cls
  obtain ⟨hsame, ha⟩ := h.ask (D.findObjects s)
  rw [findKeyByLabel]
  simp only [run, World.answer]
  rw [hsame]
  rcases (w₂.ask (D.findObjects s)).1 with e | ⟨⟩
  · exact .error _ ha
  simp only [Except.map]
  generalize (w₁.find (keyTemplate label cls)).map Prod.fst = l₁ at hperm
  generalize (w₂.find (keyTemplate label cls)).map Prod.fst = l₂ at hperm
  have hlen : l₁.length = l₂.length := by
    simpa using hperm.length_eq
  -- none, one or several, on both sides
  rcases l₁ with _ | ⟨a, _ | ⟨a', l₁⟩⟩ <;> rcases l₂ with _ | ⟨b, _ | ⟨b', l₂⟩⟩
  · exact .error _ ha
  · cases hlen
  · cases hlen
  · cases hlen
  · refine .ok ⟨ha, ?_⟩
    show w₁.lookup a = w₂.lookup b
    exact List.singleton_perm_singleton.mp hperm
  · cases hlen
  · cases hlen
  · cases hlen
  · exact .error _ ha

theorem blind_deriveKey {h₁ h₂ : Nat} {peer : List UInt8} :
    Blind (W := W) D visible (fun w₁ w₂ => SameKey visible h₁ w₁ h₂ w₂) (SameKey visible)
      (deriveAesKey K s h₁ peer label) (deriveAesKey K s h₂ peer label) := by
  intro w₁ w₂ h
  have hagree := h.derive D s (.ecdh1Derive kdfSharedData peer) derivedTemplate
  exact Simulation.agree_questionWith hagree _

variable (visible) in
/-- Two worlds that are alike number their sessions in the same way, but not their objects. -/
def alikeSimulation (D : Device Key Q) :
    Simulation (World.answer (W := W) D) (World.answer (W := W) D) visible where
  rest := Alike visible
  opened x w₁ y w₂ := x = y ∧ Alike visible w₁ w₂
  inside x w₁ y w₂ := x = y ∧ Alike visible w₁ w₂
  holding x y a w₁ b w₂ := x = y ∧ SameKey visible a w₁ b w₂
  ending x w₁ y w₂ := x = y ∧ Alike visible w₁ w₂
  ending_of_holding h := ⟨h.1, h.2.1⟩
  openRwSession slot _ _ h := agree_same.mpr (h.ask (D.openRwSession slot))
  login x y pin w₁ w₂ h := by
    obtain ⟨rfl, h⟩ := h
    exact (agree_same.mpr (h.ask (D.login x pin))).mono (fun h => ⟨rfl, h⟩)
      fun _ _ h => ⟨rfl, h.2⟩
  closeSession x y w₁ w₂ h := by
    obtain ⟨rfl, h⟩ := h
    exact ((h.close D x).ask (D.closeSession x)).2
  findKey K x y label cls hl w₁ w₂ h := by
    obtain ⟨rfl, h⟩ := h
    exact (blind_findKey hl cls w₁ w₂ h).mono (fun h => ⟨rfl, h⟩) fun _ _ h => ⟨rfl, h⟩
  sign x y a b data w₁ w₂ h := by
    obtain ⟨rfl, h⟩ := h
    obtain ⟨hsame, ha⟩ := h.use (D.sign x .ecdsaSha256 data)
    exact ⟨hsame, rfl, ha⟩
  verify x y a b data sig w₁ w₂ h := by
    obtain ⟨rfl, h⟩ := h
    obtain ⟨hsame, ha⟩ := h.use (D.verify x .ecdsaSha256 data sig)
    exact ⟨hsame, rfl, ha⟩
  encrypt x y a b iv data w₁ w₂ h := by
    obtain ⟨rfl, h⟩ := h
    obtain ⟨hsame, ha⟩ := h.use (D.encrypt x (.aesCbcPad iv) data)
    exact ⟨hsame, rfl, ha⟩
  decrypt x y a b iv data w₁ w₂ h := by
    obtain ⟨rfl, h⟩ := h
    obtain ⟨hsame, ha⟩ := h.use (D.decrypt x (.aesCbcPad iv) data)
    exact ⟨hsame, rfl, ha⟩
  generateRandom x y a b n w₁ w₂ h := by
    obtain ⟨rfl, h⟩ := h
    obtain ⟨hsame, ha⟩ := h.1.ask (D.generateRandom x n)
    exact ⟨hsame, rfl, ha, h.2⟩
  deriveKey K x y a b peer label w₁ w₂ h := by
    obtain ⟨rfl, h⟩ := h
    exact (blind_deriveKey w₁ w₂ h).mono (fun h => ⟨rfl, h⟩) fun _ _ h => ⟨rfl, h⟩

/-- **An HSM call on a visible label** has the same result in both worlds. -/
theorem perform_alike (D : Device Key Q) (K : Crates) (c : HsmClient) {call : HsmCall}
    (hl : visible call.label) :
    Related (World.answer D) (World.answer D) (Alike (Q := Q) (W := W) visible)
      (Same (Alike visible)) (c.perform K call) (c.perform K call) :=
  (alikeSimulation visible D).perform K c hl

end HsmClient

/-! ### The pipeline -/

/-- The PKCS#11 layer runs among the other operations as it does alone. -/
theorem run_liftP11 (D : Device Key Q) (N : Surroundings W) (p : Prog p11Sig α)
    (w : World Key Q W) :
    (liftP11 p).run (World.answerLow D N) w = p.run (World.answer D) w := by
  induction p generalizing w with
  | ret a => rfl
  | call e k ih => exact ih _ _

theorem related_liftP11 {D D' : Device Key Q} (N N' : Surroundings W)
    {pre : World Key Q W → World Key Q W → Prop}
    {post : α → World Key Q W → α → World Key Q W → Prop} {p : Prog p11Sig α}
    (h : Related (World.answer D) (World.answer D') pre post p p) :
    Related (World.answerLow D N) (World.answerLow D' N') pre post (liftP11 p) (liftP11 p) := by
  intro w₁ w₂ hw
  rw [run_liftP11, run_liftP11]
  exact h w₁ w₂ hw

namespace Gateway

variable {K : Crates} {g : Gateway} {cn : String} {req : Request}

/-- The labels a client can reach: those it is granted, and the integrity label. -/
def VisibleTo (g : Gateway) (cn label : String) : Prop :=
  (∃ op, (cn, op, label) ∈ g.authz.grants) ∨ label = g.integrityLabel

/-- What is asked of the HSM for a request is about the request's label, or about the
integrity label. -/
theorem Proper.label {peer : Option (List UInt8)} {h : List (Ev gwSig)} {c : HsmCall}
    (hp : g.Proper K req peer h (.hsm c)) :
    c.label = req.keyLabel ∨ c.label = g.integrityLabel := by
  cases c with
  | sign label data => exact hp.imp And.left And.left
  | verify label data sig => exact hp.imp And.left And.left
  | encrypt label data => exact Or.inl hp.1
  | decrypt label ct iv => exact Or.inl hp.1
  | deriveAndEncrypt label peer' data => exact Or.inl hp.1
  | deriveAndDecrypt label peer' ct iv => exact Or.inl hp.1

theorem LineMediated.visibleTo {parse : String → Except String Request} {line : String}
    {h : List (Ev gwSig)} {c : HsmCall} (hm : g.LineMediated K parse cn line h (.hsm c)) :
    g.VisibleTo cn c.label := by
  obtain ⟨req, -, peer, ha, -, hp⟩ := hm
  rcases hp.label with hl | hl
  · rw [hl]
    exact Or.inl ⟨_, AuthzTable.isAuthorized_iff.mp ha.1⟩
  · exact Or.inr hl

variable (K g) in
/-- The lines of one client, one after another. -/
def serveLines (parse : String → Except String Request) (cn : String) :
    List String → Prog lowSig (List Response)
  | [] => .ret []
  | line :: lines =>
    g.processLineP11 K parse cn line >>= fun response =>
      serveLines parse cn lines >>= fun responses => .ret (response :: responses)

variable (D : Device Key Q) (N : Surroundings W) (parse : String → Except String Request)

/-- One line: the same response, and the worlds stay alike. -/
theorem processLineP11_alike (line : String) :
    Related (World.answerLow D N) (World.answerLow D N) (Alike (g.VisibleTo cn))
      (Same (Alike (g.VisibleTo cn))) (g.processLineP11 K parse cn line)
      (g.processLineP11 K parse cn line) := by
  refine Related.interp (fun h e hg => ?_) (processLine_lineMediated parse cn line [])
  cases e with
  | append a =>
    exact Related.sameCall _ (fun w₁ w₂ hw => hw.askOutside (N.append a)) fun r =>
      Related.ret fun w₁ w₂ hw => ⟨rfl, hw⟩
  | spawn =>
    exact Related.sameCall _ (fun w₁ w₂ hw => hw.askOutside N.spawn) fun r =>
      Related.ret fun w₁ w₂ hw => ⟨rfl, hw⟩
  | hsm c =>
    exact related_liftP11 N N (HsmClient.perform_alike D K g.hsm hg.visibleTo)

/-- Any sequence of lines. -/
theorem serveLines_alike (lines : List String) :
    Related (World.answerLow D N) (World.answerLow D N) (Alike (g.VisibleTo cn))
      (Same (Alike (g.VisibleTo cn))) (g.serveLines K parse cn lines)
      (g.serveLines K parse cn lines) := by
  induction lines with
  | nil => exact Related.ret fun w₁ w₂ hw => ⟨rfl, hw⟩
  | cons line lines ih =>
    refine Related.bind (processLineP11_alike D N parse line) fun r r' w₁ w₂ hr => ?_
    obtain ⟨rfl, hw⟩ := hr
    refine Related.bind ih (fun rs rs' w₁ w₂ hrs => ?_) w₁ w₂ hw
    obtain ⟨rfl, hw⟩ := hrs
    exact ⟨rfl, hw⟩

variable {D N parse} in
/-- **Isolation of keys.**  Two worlds that agree on the objects under the client's labels
and under the integrity label, on the inner state of the device (its random numbers
included) and on what the audit log and the runtime will do, give the client the same
responses to any sequence of lines. -/
theorem serveLines_isolated {w₁ w₂ : World Key Q W} (h : Alike (g.VisibleTo cn) w₁ w₂)
    (lines : List String) :
    ((g.serveLines K parse cn lines).run (World.answerLow D N) w₁).1 =
      ((g.serveLines K parse cn lines).run (World.answerLow D N) w₂).1 :=
  (serveLines_alike D N parse lines w₁ w₂ h).1

end Gateway

/-! ### Two sample worlds -/

namespace Ref

/-- What comes after the sum of all handles is not one of them. -/
theorem sum_succ_notMem (n : Nat) (used : List Nat) : used.sum + n + 1 ∉ used := by
  intro hmem
  have hle := List.single_le_sum (fun _ _ => Nat.zero_le _) _ hmem
  omega

/-- A device whose signatures show the key they were made with. -/
def device : Device (List UInt8) Nat where
  openRwSession _ n := (.ok n, n + 1)
  login _ _ n := (.ok (), n)
  findObjects _ n := (.ok (), n)
  sign _ _ data o n := (.ok (o.key ++ data), n)
  verify _ _ data sig o n := if sig = o.key ++ data then (.ok (), n)
    else (.error (.pkcs11 .signatureInvalid "CKR_SIGNATURE_INVALID"), n)
  generateRandom _ len n := (.ok (List.replicate len 7), n + 1)
  encrypt _ _ data _ n := (.ok data, n)
  decrypt _ _ data _ n := (.ok data, n)
  deriveKey _ _ _ o n := (.ok (o.key ++ [1]), n)
  closeSession _ n := ((), n)
  handle n used := used.sum + n + 1
  handle_fresh := sum_succ_notMem
  renumber _ n handle := handle + n
  renumber_injective _ n := add_left_injective n

def quiet : Surroundings Unit := ⟨fun _ s => (.ok (), s), fun s => (.ran, s)⟩

/-- The private key of `app-a`. -/
def signingKey : Object (List UInt8) := ⟨HsmClient.keyTemplate "k1" .privateKey, [1, 2, 3, 4], none⟩

def lone : World (List UInt8) Nat Unit := ⟨[(1, signingKey)], by decide, 0, ()⟩

/-- There are other keys on the token as well. -/
def crowded : World (List UInt8) Nat Unit :=
  ⟨[(3, ⟨HsmClient.keyTemplate "k2" .privateKey, [9], none⟩), (4, signingKey),
    (8, ⟨HsmClient.keyTemplate "k2" .privateKey, [10], none⟩)], by decide, 0, ()⟩

theorem alike_crowded : Alike (gateway.VisibleTo "app-a") lone crowded := by
  have hgrants : ∀ x ∈ gateway.authz.grants, x.2.2 = "k1" := by decide
  refine ⟨rfl, rfl, fun label hl => ?_⟩
  rcases hl with ⟨op, hop⟩ | rfl
  · obtain rfl : label = "k1" := hgrants _ hop
    rfl
  · rfl

/-- A key it may use, and one it may not. -/
def sampleLines : List String :=
  [requestText (.sign "k1" "ecdsa_sha256" "aGVsbG8="),
    requestText (.sign "k2" "ecdsa_sha256" "aGVsbG8=")]

end Ref

/-- The first line is answered, the second denied, and the other keys change nothing. -/
theorem serveLines_isolated_crowded :
    ((Ref.gateway.serveLines Ref.crates Ref.parseRequest "app-a" Ref.sampleLines).run
        (World.answerLow Ref.device Ref.quiet) Ref.crowded).1.map Response.status =
      [.ok, .denied] := by
  rw [← Gateway.serveLines_isolated Ref.alike_crowded Ref.sampleLines]
  simp only [Ref.sampleLines, Gateway.serveLines,
    Gateway.processLineP11_of_parse (Ref.parseRequest_requestText _)]
  rfl

end PicoHsm
