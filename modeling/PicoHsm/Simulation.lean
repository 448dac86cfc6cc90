/-
The client and the handles of its sessions and keys.

A handle is a number the token gives out and the client gives back; nothing the client
returns is computed from one.  So two tokens may number their sessions and objects
differently and the client has the same results with both.  A `Simulation` says what has
to hold of two tokens for that, in terms of single PKCS#11 operations and of the two steps
that yield the handle of a key.

* `Simulation` — two tokens, related at each point of an operation of the client;
* `Simulation.perform` — every operation of the client has the same result with both.
-/
import PicoHsm.Hsm
import PicoHsm.Relational

namespace PicoHsm

open Text Effects Prog

variable {σ τ α β : Type}

/-- A single PKCS#11 operation. -/
abbrev p11 (op : P11Op) : Prog p11Sig op.Ret := one (S := p11Sig) op

/-- Two tokens that look the same through the client, whatever handles they give out.
Of a lookup, this is asked under the `visible` labels only. -/
structure Simulation (hd₁ : σ → (op : P11Op) → op.Ret × σ) (hd₂ : τ → (op : P11Op) → op.Ret × τ)
    (visible : String → Prop) where
  /-- No operation is under way. -/
  rest : σ → τ → Prop
  /-- A session is open. -/
  opened : Nat → σ → Nat → τ → Prop
  /-- It is logged in. -/
  inside : Nat → σ → Nat → τ → Prop
  /-- In the two sessions, two handles stand for the same key. -/
  holding : Nat → Nat → Nat → σ → Nat → τ → Prop
  /-- The session is of no further use. -/
  ending : Nat → σ → Nat → τ → Prop
  ending_of_holding : ∀ {x y a s b t}, holding x y a s b t → ending x s y t
  openRwSession : ∀ slot, Related hd₁ hd₂ rest (Agree rest opened)
    (p11 (.openRwSession slot)) (p11 (.openRwSession slot))
  login : ∀ x y pin, Related hd₁ hd₂ (fun s t => opened x s y t)
    (Agree (fun s t => ending x s y t) fun _ s _ t => inside x s y t)
    (p11 (.login x pin)) (p11 (.login y pin))
  closeSession : ∀ x y, Related hd₁ hd₂ (fun s t => ending x s y t)
    (fun _ s _ t => rest s t) (p11 (.closeSession x)) (p11 (.closeSession y))
  /-- The key under a visible label. -/
  findKey : ∀ K x y label cls, visible label → Related hd₁ hd₂ (fun s t => inside x s y t)
    (Agree (fun s t => ending x s y t) (holding x y)) (HsmClient.findKeyByLabel K x label cls)
    (HsmClient.findKeyByLabel K y label cls)
  sign : ∀ x y a b data, Related hd₁ hd₂ (fun s t => holding x y a s b t)
    (Same fun s t => ending x s y t) (p11 (.sign x .ecdsaSha256 a data))
    (p11 (.sign y .ecdsaSha256 b data))
  verify : ∀ x y a b data sig, Related hd₁ hd₂ (fun s t => holding x y a s b t)
    (Same fun s t => ending x s y t) (p11 (.verify x .ecdsaSha256 a data sig))
    (p11 (.verify y .ecdsaSha256 b data sig))
  encrypt : ∀ x y a b iv data, Related hd₁ hd₂ (fun s t => holding x y a s b t)
    (Same fun s t => ending x s y t) (p11 (.encrypt x (.aesCbcPad iv) a data))
    (p11 (.encrypt y (.aesCbcPad iv) b data))
  decrypt : ∀ x y a b iv data, Related hd₁ hd₂ (fun s t => holding x y a s b t)
    (Same fun s t => ending x s y t) (p11 (.decrypt x (.aesCbcPad iv) a data))
    (p11 (.decrypt y (.aesCbcPad iv) b data))
  /-- A random number leaves the key at hand. -/
  generateRandom : ∀ x y a b n, Related hd₁ hd₂ (fun s t => holding x y a s b t)
    (Same fun s t => holding x y a s b t) (p11 (.generateRandom x n)) (p11 (.generateRandom y n))
  deriveKey : ∀ K x y a b peer label, Related hd₁ hd₂ (fun s t => holding x y a s b t)
    (Agree (fun s t => ending x s y t) (holding x y)) (HsmClient.deriveAesKey K x a peer label)
    (HsmClient.deriveAesKey K y b peer label)

namespace Simulation

open HsmClient

variable {hd₁ : σ → (op : P11Op) → op.Ret × σ} {hd₂ : τ → (op : P11Op) → op.Ret × τ}
  {visible : String → Prop} (M : Simulation hd₁ hd₂ visible) {K : Crates} {c : HsmClient}
  {x y a b : Nat} {label : String}

/-- Code of the client within the session: with both tokens it fails in the same way, or
has results related by `R`. -/
def Within (x y : Nat) (pre : σ → τ → Prop) (R : α → σ → β → τ → Prop)
    (p : Prog p11Sig (Except String α)) (q : Prog p11Sig (Except String β)) : Prop :=
  Related hd₁ hd₂ pre (Agree (fun s t => M.ending x s y t) R) p q

variable {M}

/-- An error of the token is passed on with its context. -/
theorem agree_questionWith {inv : σ → τ → Prop} {R : α → σ → β → τ → Prop}
    {r : Except Pkcs11Error α} {r' : Except Pkcs11Error β} {s : σ} {t : τ}
    (h : Agree inv R r s r' t) (ctx : String) :
    Agree inv R (questionWith ctx r) s (questionWith ctx r') t := by
  cases h with
  | error e hi => exact .error _ hi
  | ok hR => exact .ok hR

theorem related_openSession :
    Related hd₁ hd₂ M.rest (Agree M.rest M.inside) c.openSession c.openSession := by
  refine Related.call _ (M.openRwSession c.slot) fun r r' s t h => ?_
  cases h with
  | error e h => exact .error _ h
  | @ok x _ y _ h =>
    revert s t
    refine Related.call _ (M.login x y c.pin) fun r r' s t h => ?_
    cases h with
    | error e h => exact .error _ (M.closeSession x y _ _ h)
    | ok h => exact .ok h

/-- The session is closed whatever has happened in it. -/
theorem related_withSession {body : Nat → Prog p11Sig (Except String α)}
    (hb : ∀ x y, M.Within x y (fun s t => M.inside x s y t) (Same fun s t => M.ending x s y t)
      (body x) (body y)) :
    Related hd₁ hd₂ M.rest (Same M.rest) (c.withSession body) (c.withSession body) := by
  refine Related.mono (Related.andThen related_openSession fun x y => ?_) (fun _ _ h => h)
    fun _ _ _ _ h => agree_same.mp h
  refine Related.bind (hb x y) fun r r' s t h => ?_
  obtain ⟨rfl, hend⟩ := agree_same.mp h
  exact agree_same.mpr ⟨rfl, M.closeSession x y s t hend⟩

theorem within_randomIv :
    M.Within x y (fun s t => M.holding x y a s b t) (Same fun s t => M.holding x y a s b t)
      (randomIv x) (randomIv y) := by
  refine Related.call _ (M.generateRandom x y a b 16) fun r r' s t h => ?_
  obtain ⟨rfl, h⟩ := h
  rcases r with e | iv
  · exact .error _ (M.ending_of_holding h)
  by_cases hlen : iv.length = 16
  · simp only [questionWith, hlen, if_true]
    exact .ok ⟨rfl, h⟩
  · simp only [questionWith, hlen, if_false]
    exact .error _ (M.ending_of_holding h)

theorem within_encrypt {data : List UInt8} {ctx : String} :
    M.Within x y (fun s t => M.holding x y a s b t) (Same fun s t => M.ending x s y t)
      ((randomIv x).andThen fun iv => encryptWith x iv a data ctx)
      ((randomIv y).andThen fun iv => encryptWith y iv b data ctx) := by
  refine Related.andThen within_randomIv fun iv iv' s t h => ?_
  obtain ⟨rfl, h⟩ := h
  revert s t
  refine Related.call _ (M.encrypt x y a b iv data) fun r r' s t h => ?_
  obtain ⟨rfl, h⟩ := h
  rcases r with e | ct
  · exact .error _ h
  · exact .ok ⟨rfl, h⟩

theorem within_decrypt {ct iv : List UInt8} {ctx : String} :
    M.Within x y (fun s t => M.holding x y a s b t) (Same fun s t => M.ending x s y t)
      (decryptWith x iv a ct ctx) (decryptWith y iv b ct ctx) :=
  Related.call _ (M.decrypt x y a b iv ct) fun _ _ _ _ h => agree_questionWith (agree_same.mpr h) _

variable (M) in
/-- **The client is blind to handles**: its operations have the same results with both
tokens. -/
theorem perform (K : Crates) (c : HsmClient) {call : HsmCall} (hl : visible call.label) :
    Related hd₁ hd₂ M.rest (Same M.rest) (c.perform K call) (c.perform K call) := by
  -- the call works in a session on the key found under its label
  have hkey : ∀ {β : Type} {cls : ObjectClass} {f : Nat → Nat → Prog p11Sig (Except String β)},
      (∀ x y a b, M.Within x y (fun s t => M.holding x y a s b t)
        (Same fun s t => M.ending x s y t) (f x a) (f y b)) →
      Related hd₁ hd₂ M.rest (Same M.rest)
        (c.withSession fun x => (findKeyByLabel K x call.label cls).andThen (f x))
        (c.withSession fun x => (findKeyByLabel K x call.label cls).andThen (f x)) := by
    intro β cls f hf
    exact related_withSession fun x y => Related.andThen (M.findKey K x y _ cls hl) fun a b =>
      hf x y a b
  cases call with
  | sign label data =>
    refine hkey fun x y a b => ?_
    exact Related.call _ (M.sign x y a b data) fun _ _ _ _ h =>
      agree_questionWith (agree_same.mpr h) _
  | verify label data sig =>
    refine hkey fun x y a b => ?_
    refine Related.call _ (M.verify x y a b data sig) fun r r' s t h => ?_
    obtain ⟨rfl, h⟩ := h
    exact agree_same.mpr (by
      rcases r with (⟨_ | _ | _ | n, text⟩ | text) | u <;> exact ⟨rfl, h⟩)
  | encrypt label plaintext => exact hkey fun x y a b => within_encrypt
  | decrypt label ct iv =>
    rw [HsmClient.perform, decryptAesCbcPad]
    split
    · exact hkey fun x y a b => within_decrypt
    · exact Related.ret fun s t h => ⟨rfl, h⟩
  | deriveAndEncrypt label peer plaintext =>
    exact hkey fun x y a b => Related.andThen (M.deriveKey K x y a b peer label) fun a' b' =>
      within_encrypt
  | deriveAndDecrypt label peer ct iv =>
    rw [HsmClient.perform, deriveAndDecrypt]
    split
    · exact hkey fun x y a b => Related.andThen (M.deriveKey K x y a b peer label) fun a' b' =>
        within_decrypt
    · exact Related.ret fun s t h => ⟨rfl, h⟩

end Simulation

end PicoHsm
