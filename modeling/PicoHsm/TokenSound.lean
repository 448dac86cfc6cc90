/-
A token that may fail at any time, but does not lie.

`Token.Good` (`Token.lean`) are the answers of a token without faults.  `Token.Sound`
allows every fault as well: any operation may end in an error, and only what it returns
when it does not has to be right.  What the token's ciphertexts and signatures are like
is left to two relations, `E` and `G`.

* `Token.Result` — what the result of an operation of `HsmClient` says about the token;
* `perform_result`, `result_of_seen` — it does, whatever else fails and whatever handles its
  session sees;
* `SoundRun`, `results_of_steps` — so do all results a request gets from the HSM;
* `exists_good` — and every operation can be performed without a fault.
-/
import PicoHsm.Sessions

namespace PicoHsm

open Text Effects Prog

namespace Token

variable {Key : Type} (T : Token Key) (E : Key → Mechanism → List UInt8 → List UInt8 → Prop)
  (G : Key → List UInt8 → List UInt8 → Prop)

/-- The answers of a token that may fail.  A completed verification gives the token's
verdict; ciphertexts are those of `E`, signatures those of `G`. -/
def Sound : Ev p11Sig → Prop
  | ⟨.findObjects _ template, r⟩ => ∀ hs, r = .ok hs → hs = T.find template
  | ⟨.sign _ _ key data, r⟩ => ∀ sig, r = .ok sig → G (T.value key) data sig
  | ⟨.verify _ _ key data sig, r⟩ =>
    (r = .ok () → T.verify (T.value key) data sig = .ok ()) ∧
      ∀ text, r = .error (.pkcs11 .signatureInvalid text) →
        ∃ text', T.verify (T.value key) data sig = .error (.pkcs11 .signatureInvalid text')
  | ⟨.encrypt _ mech key data, r⟩ => ∀ ct, r = .ok ct → E (T.value key) mech data ct
  | ⟨.decrypt _ mech key data, r⟩ => ∀ pt, r = .ok pt → T.decrypt (T.value key) mech data = .ok pt
  | ⟨.deriveKey _ mech base _, r⟩ => ∀ h, r = .ok h → T.derive (T.value base) mech = .ok (T.value h)
  | _ => True

/-- What a successful result tells of the token. -/
def Result : (call : HsmCall) → call.Ret → Prop
  | .sign label data, r => ∀ sig, r = .ok sig →
      ∃ key, T.keyOf label .privateKey = some key ∧ G key data sig
  | .verify label data sig, r => ∀ b, r = .ok b →
      ∃ key, T.keyOf label .publicKey = some key ∧ T.verdict key data sig = some b
  | .encrypt label data, r => ∀ x, r = .ok x → x.1.length = 16 ∧
      ∃ key, T.keyOf label .secretKey = some key ∧ E key (.aesCbcPad x.1) data x.2
  | .decrypt label ct iv, r => ∀ pt, r = .ok pt → iv.length = 16 ∧
      ∃ key, T.keyOf label .secretKey = some key ∧ T.decrypt key (.aesCbcPad iv) ct = .ok pt
  | .deriveAndEncrypt label peer data, r => ∀ x, r = .ok x → x.1.length = 16 ∧
      ∃ key, T.derivedKey label peer = some key ∧ E key (.aesCbcPad x.1) data x.2
  | .deriveAndDecrypt label peer ct iv, r => ∀ pt, r = .ok pt → iv.length = 16 ∧
      ∃ key, T.derivedKey label peer = some key ∧ T.decrypt key (.aesCbcPad iv) ct = .ok pt

variable {T E G}

/-- A result that is no error is the one expected. -/
theorem Result.expected {call : HsmCall} {r : call.Ret} (h : T.Result E G call r)
    (hr : call.shape r ≠ none) : T.expected call = call.shape r := by
  cases call with
  | sign label data =>
    rcases r with e | sig
    · exact absurd rfl hr
    · obtain ⟨key, hk, -⟩ := h sig rfl
      rw [Token.expected, hk]
      rfl
  | verify label data sig =>
    rcases r with e | b
    · exact absurd rfl hr
    · obtain ⟨key, hk, hv⟩ := h b rfl
      rw [Token.expected, hk]
      exact hv
  | encrypt label data =>
    rcases r with e | x
    · exact absurd rfl hr
    · obtain ⟨-, key, hk, -⟩ := h x rfl
      rw [Token.expected, hk]
      rfl
  | decrypt label ct iv =>
    rcases r with e | pt
    · exact absurd rfl hr
    · obtain ⟨hiv, key, hk, hd⟩ := h pt rfl
      rw [Token.expected, if_pos hiv, hk, Option.bind_some, Token.opens, hd]
      rfl
  | deriveAndEncrypt label peer data =>
    rcases r with e | x
    · exact absurd rfl hr
    · obtain ⟨-, key, hk, -⟩ := h x rfl
      rw [Token.expected, hk]
      rfl
  | deriveAndDecrypt label peer ct iv =>
    rcases r with e | pt
    · exact absurd rfl hr
    · obtain ⟨hiv, key, hk, hd⟩ := h pt rfl
      rw [Token.expected, if_pos hiv, hk, Option.bind_some, Token.opens, hd]
      rfl

/-- What a result tells of the keys does not depend on the handles. -/
theorem SameKeys.result {V : Token Key} (h : T.SameKeys V) {call : HsmCall} {r : call.Ret}
    (hr : V.Result E G call r) : T.Result E G call r := by
  cases call <;>
    simpa only [Token.Result, h.keyOf, h.derivedKey, h.verdict, h.decrypt] using hr

end Token

namespace HsmClient

variable {Key : Type} {T : Token Key} {E : Key → Mechanism → List UInt8 → List UInt8 → Prop}
  {G : Key → List UInt8 → List UInt8 → Prop} {K : Crates} {c : HsmClient} {α : Type} {s : Nat}

/-- Answered soundly, the code fails or returns something that satisfies `φ`. -/
def Finds (T : Token Key) (E : Key → Mechanism → List UInt8 → List UInt8 → Prop)
    (G : Key → List UInt8 → List UInt8 → Prop) (p : Prog p11Sig (Except String α))
    (φ : α → Prop) : Prop :=
  ∀ h, Safe (fun _ ev => T.Sound E G ev) (fun _ _ => True)
    (fun _ r => ∀ a, r = .ok a → φ a) h p

theorem finds_error (e : String) (φ : α → Prop) :
    Finds T E G (.ret (.error e) : Prog p11Sig (Except String α)) φ :=
  fun _ a ha => absurd ha (by simp)

theorem finds_withSession {body : Nat → Prog p11Sig (Except String α)} {φ : α → Prop}
    (hb : ∀ s, Finds T E G (body s) φ) : Finds T E G (c.withSession body) φ := by
  intro h
  rw [withSession, safe_andThen]
  refine ⟨trivial, fun r _ => ?_⟩
  rcases r with e | s
  · exact fun a ha => absurd ha (by simp)
  refine ⟨trivial, fun r _ => ?_⟩
  rcases r with e | ⟨⟩
  · exact ⟨trivial, fun _ _ a ha => absurd ha (by simp)⟩
  rw [safe_ret]
  dsimp only
  rw [safe_bind]
  exact (hb s _).mono (fun _ _ hr => hr) (fun _ _ hg => hg) fun h' r hq => ⟨trivial, fun _ _ => hq⟩

theorem finds_findKey {label : String} {cls : ObjectClass}
    {f : Nat → Prog p11Sig (Except String α)} {φ : α → Prop}
    (hf : ∀ key, T.keyOf label cls = some (T.value key) → Finds T E G (f key) φ) :
    Finds T E G ((findKeyByLabel K s label cls).andThen f) φ := by
  intro h
  rw [safe_andThen]
  refine ⟨trivial, fun r hr => ?_⟩
  rcases r with e | hs
  · exact fun a ha => absurd ha (by simp)
  obtain rfl : hs = T.find (keyTemplate label cls) := hr hs rfl
  -- no object, one, or several
  rcases hfind : T.find (keyTemplate label cls) with _ | ⟨key, _ | ⟨key', keys⟩⟩
  · exact fun a ha => absurd ha (by simp)
  · exact hf key (by rw [Token.keyOf, hfind]) _
  · exact fun a ha => absurd ha (by simp)

theorem finds_deriveKey {label : String} {base : Nat} {peer : List UInt8}
    {f : Nat → Prog p11Sig (Except String α)} {φ : α → Prop}
    (hbase : T.keyOf label .privateKey = some (T.value base))
    (hf : ∀ key, T.derivedKey label peer = some (T.value key) → Finds T E G (f key) φ) :
    Finds T E G ((deriveAesKey K s base peer label).andThen f) φ := by
  intro h
  rw [safe_andThen]
  refine ⟨trivial, fun r hr => ?_⟩
  rcases r with e | key
  · exact fun a ha => absurd ha (by simp)
  · refine hf key ?_ _
    rw [Token.derivedKey, hbase, Option.bind_some, hr key rfl]
    rfl

theorem finds_encrypt {key : Nat} {data : List UInt8} {ctx : String} :
    Finds T E G ((randomIv s).andThen fun iv => encryptWith s iv key data ctx)
      fun x => x.1.length = 16 ∧ E (T.value key) (.aesCbcPad x.1) data x.2 := by
  intro h
  rw [safe_andThen]
  refine ⟨trivial, fun r _ => ?_⟩
  rcases r with e | iv
  · exact fun a ha => absurd ha (by simp)
  by_cases hlen : iv.length = 16
  · simp only [questionWith, hlen, if_true]
    refine ⟨trivial, fun r hr => ?_⟩
    rcases r with e | ct
    · exact fun a ha => absurd ha (by simp)
    · rintro x hx
      obtain rfl : (iv, ct) = x := by simpa using hx
      exact ⟨hlen, hr ct rfl⟩
  · simp only [questionWith, hlen, if_false]
    exact fun a ha => absurd ha (by simp)

theorem finds_decrypt {key : Nat} {ct iv : List UInt8} {ctx : String} :
    Finds T E G (decryptWith s iv key ct ctx)
      fun pt => T.decrypt (T.value key) (.aesCbcPad iv) ct = .ok pt := by
  refine fun h => ⟨trivial, fun r hr => ?_⟩
  rcases r with e | pt
  · exact fun a ha => absurd ha (by simp [questionWith])
  · rintro x hx
    obtain rfl : pt = x := by simpa [questionWith] using hx
    exact hr pt rfl

/-- **What an operation returns is right**, if it does not fail. -/
theorem perform_result (K : Crates) (c : HsmClient) (call : HsmCall) (h : List (Ev p11Sig)) :
    Safe (fun _ ev => T.Sound E G ev) (fun _ _ => True) (fun _ r => T.Result E G call r) h
      (c.perform K call) := by
  cases call with
  | sign label data =>
    refine finds_withSession (fun s => finds_findKey fun key hk h => ?_) h
    refine ⟨trivial, fun r hr => ?_⟩
    rcases r with e | sig
    · exact fun a ha => absurd ha (by simp [questionWith])
    · rintro x hx
      obtain rfl : sig = x := by simpa [questionWith] using hx
      exact ⟨_, hk, hr sig rfl⟩
  | verify label data sig =>
    refine finds_withSession (fun s => finds_findKey fun key hk h => ?_) h
    refine ⟨trivial, fun r hr => ?_⟩
    rcases r with (⟨_ | _ | _ | n, text⟩ | text) | ⟨⟩
    · -- the one error that is a verdict
      rintro b hb
      obtain rfl : false = b := by simpa using hb
      obtain ⟨text', hv⟩ := hr.2 text rfl
      exact ⟨_, hk, by rw [Token.verdict, hv]⟩
    · exact fun a ha => absurd ha (by simp)
    · exact fun a ha => absurd ha (by simp)
    · exact fun a ha => absurd ha (by simp)
    · exact fun a ha => absurd ha (by simp)
    · rintro b hb
      obtain rfl : true = b := by simpa using hb
      exact ⟨_, hk, by rw [Token.verdict, hr.1 rfl]⟩
  | encrypt label plaintext =>
    refine finds_withSession (fun s => finds_findKey fun key hk h => ?_) h
    exact (finds_encrypt h).mono (fun _ _ hr => hr) (fun _ _ hg => hg) fun h' r hr x hx =>
      ⟨(hr x hx).1, _, hk, (hr x hx).2⟩
  | decrypt label ct iv =>
    rw [perform, decryptAesCbcPad]
    split
    · rename_i hiv
      refine finds_withSession (fun s => finds_findKey fun key hk h => ?_) h
      exact (finds_decrypt h).mono (fun _ _ hr => hr) (fun _ _ hg => hg) fun h' r hr x hx =>
        ⟨hiv, _, hk, hr x hx⟩
    · exact finds_error _ _ h
  | deriveAndEncrypt label peer plaintext =>
    refine finds_withSession (fun s => finds_findKey fun base hb => ?_) h
    refine finds_deriveKey hb fun key hk h => ?_
    exact (finds_encrypt h).mono (fun _ _ hr => hr) (fun _ _ hg => hg) fun h' r hr x hx =>
      ⟨(hr x hx).1, _, hk, (hr x hx).2⟩
  | deriveAndDecrypt label peer ct iv =>
    rw [perform, deriveAndDecrypt]
    split
    · rename_i hiv
      refine finds_withSession (fun s => finds_findKey fun base hb => ?_) h
      refine finds_deriveKey hb fun key hk h => ?_
      exact (finds_decrypt h).mono (fun _ _ hr => hr) (fun _ _ hg => hg) fun h' r hr x hx =>
        ⟨hiv, _, hk, hr x hx⟩
    · exact finds_error _ _ h

/-- The same, whatever handles the session of the operation sees. -/
theorem result_of_seen {call : HsmCall} {u : List (Ev p11Sig)} {r : call.Ret} {V : Token Key}
    (h : Steps (c.perform K call) u (.ret r)) (hV : T.Seen (fun V x => V.Sound E G x) u V) :
    T.Result E G call r := by
  refine hV.sameKeys.result ((perform_result K c call []).post_of_steps h fun u₁ x u₂ heq => ?_)
  exact seen_oneSession h hV x (by simp [heq])

end HsmClient

/-! ### Runs of a request -/

section Runs

variable {Key : Type} {T : Token Key} {E : Key → Mechanism → List UInt8 → List UInt8 → Prop}
  {G : Key → List UInt8 → List UInt8 → Prop} {K : Crates} {g : Gateway}

variable (T E G) in
/-- Whatever the HSM answered without failing is right, each operation by the handles of its
session. -/
def SoundRun (t : List (Ev lowSig)) : Prop :=
  ∃ V, T.Seen (fun V x => V.Sound E G x) (p11Part t) V

theorem SoundRun.of_segment {t t' : List (Ev lowSig)} (h : SoundRun T E G t) (hs : t' <:+: t) :
    SoundRun T E G t' := by
  obtain ⟨V, hV⟩ := h
  exact hV.of_segment (hs.filterMap p11Event)

/-- So it is if the handles never change. -/
theorem SoundRun.of_forall {t : List (Ev lowSig)}
    (h : ∀ ev ∈ t, ∀ x, p11Event ev = some x → T.Sound E G x) : SoundRun T E G t := by
  refine ⟨T, .of_forall fun x hx => ?_⟩
  obtain ⟨ev, hev, hp⟩ := mem_p11Part.mp hx
  exact h ev hev x hp

/-- The result of an HSM call that was answered soundly. -/
theorem result_of_steps {c : HsmCall} {t : List (Ev lowSig)} {r : c.Ret}
    (h : Steps (g.lower K (.hsm c)) t (.ret r)) (hs : SoundRun T E G t) : T.Result E G c r := by
  obtain ⟨V, hV⟩ := hs
  exact HsmClient.result_of_seen (steps_of_liftP11 h) hV

/-- A request that was answered soundly, and what it has learned from the HSM. -/
theorem results_of_steps {parse : String → Except String Request} {cn line : String}
    {t : List (Ev lowSig)} {resp : Response}
    (h : Steps (g.processLineP11 K parse cn line) t (.ret resp)) (hs : SoundRun T E G t) :
    ∃ u, Steps (g.processLine K parse cn line) u (.ret resp) ∧
      ∀ c r, (⟨.hsm c, r⟩ : Ev gwSig) ∈ u → T.Result E G c r := by
  obtain ⟨u, hu, hev⟩ := h.of_interp
  refine ⟨u, hu, fun c r hmem => ?_⟩
  obtain ⟨t', ht', hsub⟩ := hev _ hmem
  exact result_of_steps ht' (hs.of_segment hsub)

/-! ### Operations without faults -/

variable (T) in
/-- A way to answer without faults that needs no state. -/
def Token.serve : (op : P11Op) → op.Ret
  | .openRwSession _ => .ok 1
  | .login _ _ => .ok ()
  | op => (T.answer ⟨⟨[op.session], true⟩, fun _ => T⟩ op).1

variable (T) in
theorem Token.good_serve (op : P11Op) : T.Good ⟨op, T.serve op⟩ := by
  have hact := T.act_answer ⟨⟨[op.session], true⟩, fun _ => T⟩ op
  cases op with
  | openRwSession slot => exact ⟨1, rfl⟩
  | login s pin => rfl
  | closeSession s => trivial
  | findObjects s template => exact hact.1 (List.mem_singleton_self _) rfl
  | sign s mech key data => exact hact.1 (List.mem_singleton_self _) rfl
  | verify s mech key data sig => exact hact.1 (List.mem_singleton_self _) rfl
  | generateRandom s len => exact hact.1 (List.mem_singleton_self _) rfl
  | encrypt s mech key data => exact hact.1 (List.mem_singleton_self _) rfl
  | decrypt s mech key data => exact hact.1 (List.mem_singleton_self _) rfl
  | deriveKey s mech base template => exact hact.1 (List.mem_singleton_self _) rfl

variable (T) in
/-- The same of all operations, the log answering as `aud`. -/
def Token.serveLow (aud : AppendArgs → Except String Unit) : (e : LowOp) → LowOp.Ret e
  | .append a => aud a
  | .spawn => .ran
  | .p11 op => T.serve op

variable (T) in
theorem Token.faultless_serveLow {α : Type} (aud : AppendArgs → Except String Unit)
    (p : Prog lowSig α) : Faultless T (Steady aud) (p.exec (T.serveLow aud)).1 := by
  have hret : ∀ ev ∈ (p.exec (T.serveLow aud)).1, ev.ret = T.serveLow aud ev.op :=
    fun _ hev => ret_of_mem_exec hev
  refine ⟨fun ev hev => ?_, T, .of_forall fun x hx => ?_⟩
  · have h := hret ev hev
    obtain ⟨e, r⟩ := ev
    cases e with
    | append a => exact h
    | spawn => exact h
    | p11 op => trivial
  · obtain ⟨⟨e, r⟩, hev, hp⟩ := mem_p11Part.mp hx
    have h := hret _ hev
    cases e with
    | append a => cases hp
    | spawn => cases hp
    | p11 op =>
      cases hp
      obtain rfl : r = T.serve op := h
      exact T.good_serve op

/-- An answer without fault is sound, if its ciphertext or signature is admissible. -/
theorem Token.Good.sound {ev : Ev p11Sig} (h : T.Good ev)
    (hE : ∀ s mech key data ct, ev = ⟨.encrypt s mech key data, .ok ct⟩ →
      E (T.value key) mech data ct)
    (hG : ∀ s mech key data sig, ev = ⟨.sign s mech key data, .ok sig⟩ →
      G (T.value key) data sig) : T.Sound E G ev := by
  obtain ⟨op, r⟩ := ev
  cases op with
  | findObjects s template =>
    obtain rfl : r = .ok (T.find template) := h
    rintro hs heq
    exact (Except.ok.inj heq).symm
  | sign s mech key data =>
    rintro sig rfl
    exact hG s mech key data sig rfl
  | verify s mech key data sig =>
    obtain rfl : r = T.verify (T.value key) data sig := h
    exact ⟨id, fun text htext => ⟨text, htext⟩⟩
  | encrypt s mech key data =>
    rintro ct rfl
    exact hE s mech key data ct rfl
  | decrypt s mech key data =>
    rintro pt rfl
    exact h.symm
  | deriveKey s mech base template =>
    rintro x rfl
    rcases hd : T.derive (T.value base) mech with e | key
    · simp only [Token.Good, hd] at h
      cases h
    · simp only [Token.Good, hd] at h
      obtain ⟨y, hy, rfl⟩ := h
      rw [Except.ok.inj hy]
  | openRwSession slot => trivial
  | login s pin => trivial
  | generateRandom s len => trivial
  | closeSession s => trivial

variable (T K g) in
/-- Every HSM call can be performed without a fault, and then comes to what is expected. -/
theorem exists_good (c : HsmCall) :
    ∃ t r, Steps (g.lower K (.hsm c)) t (.ret r) ∧ c.shape r = T.expected c ∧
      ∀ ev ∈ t, ∃ x, p11Event ev = some x ∧ T.Good x ∧ ∃ h, c.Keeps h x.op := by
  have hrun := steps_exec T.serve (g.hsm.perform K c)
  have hgood : ∀ x ∈ ((g.hsm.perform K c).exec T.serve).1, T.Good x := by
    intro x hx
    have := T.good_serve x.op
    rwa [← ret_of_mem_exec hx] at this
  obtain ⟨t, ht, hQ⟩ := hrun.interp (f := fun op => (.call (.p11 op) .ret : Prog lowSig _))
    (Q := fun ev => ∃ x, p11Event ev = some x ∧ T.Good x ∧ ∃ h, c.Keeps h x.op) fun ev hev => by
      refine ⟨[⟨.p11 ev.op, ev.ret⟩], .call (.refl _), fun ev' hev' => ?_⟩
      rw [List.mem_singleton.mp hev']
      obtain ⟨u₁, u₂, heq⟩ := List.append_of_mem hev
      exact ⟨ev, rfl, hgood ev hev, _, (HsmClient.perform_keeps K g.hsm c []).guar_of_steps hrun
        (fun _ _ _ _ => trivial) heq⟩
  exact ⟨t, _, ht, HsmClient.expected_of_seen hrun (.of_forall hgood), hQ⟩

end Runs

end PicoHsm
