/-
IVs are drawn for one encryption each.

`encrypt_aes_cbc_pad` and `derive_and_encrypt` draw their IV from the HSM's random number
generator.  Any number of requests run at once, on any device that answers as it likes.

* `perform_usesPending` — an encryption uses the IV its own call has just drawn, of 16 bytes;
* `card_used_le` — in every interleaved run, each IV is used at most as often as it was
  drawn;
* `ivs_fresh` — so as long as the generator does not repeat itself, no two encryptions, of
  whatever requests and under whatever keys, have the same IV.
-/
import Mathlib.Algebra.Order.BigOperators.Group.Finset
import PicoHsm.Sessions

namespace PicoHsm

open Text Effects Prog

/-! ### One call -/

/-- The random bytes drawn last, until an encryption has used them. -/
def ivStep : Option (List UInt8) → Ev p11Sig → Option (List UInt8)
  | _, ⟨.generateRandom _ _, .ok bytes⟩ => some bytes
  | _, ⟨.encrypt _ _ _ _, _⟩ => none
  | iv, _ => iv

def pendingIv (h : List (Ev p11Sig)) : Option (List UInt8) := h.foldl ivStep none

@[simp] theorem pendingIv_snoc (h : List (Ev p11Sig)) (ev : Ev p11Sig) :
    pendingIv (h ++ [ev]) = ivStep (pendingIv h) ev := by
  rw [pendingIv, List.foldl_append]
  rfl

/-- An encryption uses the bytes drawn last, which are an IV. -/
def UsesPending (h : List (Ev p11Sig)) : P11Op → Prop
  | .encrypt _ mech _ _ => ∃ iv, mech = .aesCbcPad iv ∧ pendingIv h = some iv ∧ iv.length = 16
  | _ => True

namespace HsmClient

variable {K : Crates} {c : HsmClient} {α : Type} {h : List (Ev p11Sig)} {s : Nat}

theorem usesPending_allowsSessions : AllowsSessions UsesPending :=
  fun _ => ⟨fun _ => trivial, fun _ _ => trivial, fun _ => trivial⟩

theorem safe_find_pending {label : String} {cls : ObjectClass}
    {f : Nat → Prog p11Sig (Except String α)}
    (hf : ∀ h key, Safe (fun _ _ => True) UsesPending (fun _ _ => True) h (f key)) :
    Safe (fun _ _ => True) UsesPending (fun _ _ => True) h
      ((findKeyByLabel K s label cls).andThen f) := by
  rw [safe_andThen]
  exact safe_findKeyByLabel trivial (fun _ _ => trivial) fun h key _ => hf h key

/-- Draw an IV and encrypt with it. -/
theorem safe_draw_encrypt {key : Nat} {data : List UInt8} {ctx : String} :
    Safe (fun _ _ => True) UsesPending (fun _ _ => True) h
      ((randomIv s).andThen fun iv => encryptWith s iv key data ctx) := by
  rw [safe_andThen]
  refine ⟨trivial, fun r _ => ?_⟩
  rcases r with e | bytes
  · trivial
  · by_cases hlen : bytes.length = 16
    · simp only [questionWith, hlen, if_true]
      exact safe_encryptWith ⟨bytes, rfl, pendingIv_snoc _ _, hlen⟩
    · simp only [questionWith, hlen, if_false]
      trivial

/-- **An encryption uses the IV its call has drawn**, whatever the token answers. -/
theorem perform_usesPending (K : Crates) (c : HsmClient) (call : HsmCall) (h : List (Ev p11Sig)) :
    Safe (fun _ _ => True) UsesPending (fun _ _ => True) h (c.perform K call) := by
  have hg := usesPending_allowsSessions
  cases call with
  | sign label data =>
    refine safe_withSession hg (fun h session => safe_find_pending fun h key => ?_) h
    exact ⟨trivial, fun _ _ => trivial⟩
  | verify label data sig =>
    refine safe_withSession hg (fun h session => safe_find_pending fun h key => ?_) h
    refine ⟨trivial, fun r _ => ?_⟩
    rcases r with (⟨_ | _ | _ | n, text⟩ | text) | u <;> trivial
  | encrypt label plaintext =>
    exact safe_withSession hg (fun h session => safe_find_pending fun h key => safe_draw_encrypt) h
  | decrypt label ciphertext iv =>
    rw [perform, decryptAesCbcPad]
    split
    · refine safe_withSession hg (fun h session => safe_find_pending fun h key => ?_) h
      exact ⟨trivial, fun _ _ => trivial⟩
    · trivial
  | deriveAndEncrypt label peer plaintext =>
    refine safe_withSession hg (fun h session => safe_find_pending fun h base => ?_) h
    rw [safe_andThen]
    refine ⟨trivial, fun r _ => ?_⟩
    rcases r with e | key
    · trivial
    · exact safe_draw_encrypt
  | deriveAndDecrypt label peer ciphertext iv =>
    rw [perform, deriveAndDecrypt]
    split
    · refine safe_withSession hg (fun h session => safe_find_pending fun h base => ?_) h
      rw [safe_andThen]
      refine ⟨trivial, fun r _ => ?_⟩
      rcases r with e | key
      · trivial
      · exact ⟨trivial, fun _ _ => trivial⟩
    · trivial

end HsmClient

theorem processLineP11_usesPending (K : Crates) (g : Gateway)
    (parse : String → Except String Request) (cn line : String) :
    Safe (fun _ _ => True) (OnP11 UsesPending) (fun _ _ => True) []
      (g.processLineP11 K parse cn line) :=
  safe_processLineP11 (fun _ => True) (anyCalls K g parse cn line)
    (fun c h _ _ => HsmClient.perform_usesPending K g.hsm c h) trivial

/-! ### All requests -/

/-- The IV of an encryption, whether it succeeded or not. -/
def usedIv : Ev lowSig → Option (List UInt8)
  | ⟨.p11 (.encrypt _ (.aesCbcPad iv) _ _), _⟩ => some iv
  | _ => none

/-- The random bytes that were drawn. -/
def drawnIv : Ev lowSig → Option (List UInt8)
  | ⟨.p11 (.generateRandom _ _), .ok bytes⟩ => some bytes
  | _ => none

theorem op_of_usedIv {ev : Ev lowSig} {iv : List UInt8} (h : usedIv ev = some iv) :
    ∃ x key data, ev.op = .p11 (.encrypt x (.aesCbcPad iv) key data) := by
  unfold usedIv at h
  split at h
  · cases h
    exact ⟨_, _, _, rfl⟩
  · cases h

section Pool

variable {K : Crates} {g : Gateway} {parse : String → Except String Request} {σ ι : Type}
  [DecidableEq ι] {s : σ} {lines : ι → String × String} {act : σ → Ev lowSig → σ → Prop}
  {c : Conf lowSig σ ι Response}

/-- The uses of an IV, with the one that is still to come, are covered by its draws. -/
def Covered (iv : List UInt8) (t : List (Ev lowSig)) : Prop :=
  t.countP (fun ev => usedIv ev = some iv) + (if pendingIv (p11Part t) = some iv then 1 else 0) ≤
    t.countP fun ev => drawnIv ev = some iv

/-- Bytes that were drawn count once more, whatever was pending. -/
theorem Covered.snoc {iv : List UInt8} {t : List (Ev lowSig)} (h : Covered iv t) {e : LowOp}
    (he : OnP11 UsesPending t e) (r : LowOp.Ret e) : Covered iv (t ++ [⟨e, r⟩]) := by
  rw [Covered] at h ⊢
  rw [List.countP_append, List.countP_append, p11Part_snoc]
  -- an event that neither draws nor uses
  have hkeep : usedIv ⟨e, r⟩ = none → drawnIv ⟨e, r⟩ = none →
      pendingIv (p11Part t ++ (p11Event ⟨e, r⟩).toList) = pendingIv (p11Part t) →
      t.countP (fun ev => usedIv ev = some iv) + [⟨e, r⟩].countP (fun ev => usedIv ev = some iv) +
        (if pendingIv (p11Part t ++ (p11Event ⟨e, r⟩).toList) = some iv then 1 else 0) ≤
      t.countP (fun ev => drawnIv ev = some iv) +
        [⟨e, r⟩].countP fun ev => drawnIv ev = some iv := by
    intro hu hd hp
    rw [hp, List.countP_cons_of_neg (by rw [hu]; simp), List.countP_cons_of_neg (by rw [hd]; simp)]
    exact h
  cases e with
  | append a => exact hkeep rfl rfl (congrArg pendingIv (List.append_nil _))
  | spawn => exact hkeep rfl rfl (congrArg pendingIv (List.append_nil _))
  | p11 op =>
    have hp : pendingIv (p11Part t ++ (p11Event (⟨.p11 op, r⟩ : Ev lowSig)).toList) =
        ivStep (pendingIv (p11Part t)) ⟨op, r⟩ := pendingIv_snoc _ _
    cases op with
    | generateRandom x len =>
      rcases r with e | bytes
      · exact hkeep rfl rfl hp
      · rw [hp]
        have hu : [(⟨.p11 (.generateRandom x len), .ok bytes⟩ : Ev lowSig)].countP
            (fun ev => usedIv ev = some iv) = 0 := rfl
        have hd : [(⟨.p11 (.generateRandom x len), .ok bytes⟩ : Ev lowSig)].countP
            (fun ev => drawnIv ev = some iv) = if some bytes = some iv then 1 else 0 := by
          rw [List.countP_singleton]
          simp [drawnIv]
        rw [hu, hd]
        change _ + 0 + (if some bytes = some iv then 1 else 0) ≤ _
        omega
    | encrypt x mech key data =>
      obtain ⟨iv', rfl, hpend, -⟩ := he
      have hnone : ivStep (pendingIv (p11Part t)) ⟨.encrypt x (.aesCbcPad iv') key data, r⟩ =
          none := rfl
      have hu : [(⟨.p11 (.encrypt x (.aesCbcPad iv') key data), r⟩ : Ev lowSig)].countP
          (fun ev => usedIv ev = some iv) = if some iv' = some iv then 1 else 0 := by
        rw [List.countP_singleton]
        simp [usedIv]
      have hd : [(⟨.p11 (.encrypt x (.aesCbcPad iv') key data), r⟩ : Ev lowSig)].countP
          (fun ev => drawnIv ev = some iv) = 0 := rfl
      rw [hpend] at h
      rw [hp, hnone, if_neg (by simp), hu, hd]
      omega
    | openRwSession slot => exact hkeep rfl rfl hp
    | login x pin => exact hkeep rfl rfl hp
    | findObjects x template => exact hkeep rfl rfl hp
    | sign x mech key data => exact hkeep rfl rfl hp
    | verify x mech key data sig => exact hkeep rfl rfl hp
    | decrypt x mech key data => exact hkeep rfl rfl hp
    | deriveKey x mech base template => exact hkeep rfl rfl hp
    | closeSession x => exact hkeep rfl rfl hp

theorem covered_of_reach (hc : Reach act anySchedule (g.servingP11 K s parse lines) c) (i : ι)
    (iv : List UInt8) : Covered iv (c.own i) := by
  refine Reach.inv (fun c => Covered iv (c.own i)) (le_refl 0) ?_ hc
  intro c j e k r s' hr ih hp _ _
  rcases eq_or_ne i j with rfl | hij
  · rw [Conf.advance_own_self]
    exact ih.snoc (hr.guar_next rfl
      (processLineP11_usesPending K g parse (lines i).1 (lines i).2) hp) r
  · rw [Conf.advance_own_ne c hij]
    exact ih

/-- Each IV is used at most as often as it was drawn. -/
theorem card_used_le (hc : Reach act anySchedule (g.servingP11 K s parse lines) c)
    (iv : List UInt8) :
    c.hist.countP (fun x => usedIv x.2 = some iv) ≤
      c.hist.countP fun x => drawnIv x.2 = some iv := by
  rw [countP_eq_sum (fun ev => usedIv ev = some iv) c.hist,
    countP_eq_sum (fun ev => drawnIv ev = some iv) c.hist]
  refine Finset.sum_le_sum fun i _ => ?_
  exact le_trans (Nat.le_add_right _ _) (covered_of_reach hc i iv)

omit [DecidableEq ι] in
theorem count_filterMap_snd {f : Ev lowSig → Option (List UInt8)} {hist : List (ι × Ev lowSig)}
    (iv : List UInt8) : (hist.filterMap fun x => f x.2).count iv =
      hist.countP fun x => f x.2 = some iv := by
  rw [List.count, List.countP_filterMap]
  congr 1
  funext x
  rcases f x.2 with _ | iv'
  · rfl
  · exact Bool.eq_iff_iff.mpr (by simp)

/-- **IVs do not repeat.**  In every interleaved run of any number of requests, on a device that
answers as it likes: an encryption uses 16 bytes that its own request has drawn from the
generator; and if no two draws have given the same bytes, no two encryptions have used the
same IV. -/
theorem ivs_fresh (hc : Reach act anySchedule (g.servingP11 K s parse lines) c) :
    (∀ i ev iv, (i, ev) ∈ c.hist → usedIv ev = some iv → iv.length = 16 ∧
      ∃ ev', (i, ev') ∈ c.hist ∧ drawnIv ev' = some iv) ∧
    ((c.hist.filterMap fun x => drawnIv x.2).Nodup →
      (c.hist.filterMap fun x => usedIv x.2).Nodup) := by
  constructor
  · intro i ev iv hmem hused
    constructor
    · obtain ⟨g₁, g₂, heq⟩ := List.append_of_mem hmem
      have hg := hc.guar rfl (processLineP11_usesPending K g parse (lines i).1 (lines i).2) heq
      obtain ⟨x, key, data, hop⟩ := op_of_usedIv hused
      rw [hop] at hg
      obtain ⟨iv', hmech, -, hlen⟩ := hg
      cases hmech
      exact hlen
    · -- the uses in the request's own part are covered by its own draws
      have hpos : 0 < (c.own i).countP fun ev => usedIv ev = some iv :=
        List.countP_pos_iff.mpr ⟨ev, mem_proj.mpr hmem, by simpa using hused⟩
      have hcov := covered_of_reach hc i iv
      rw [Covered] at hcov
      obtain ⟨ev', hev', hdrawn⟩ := List.countP_pos_iff.mp (lt_of_lt_of_le hpos
        (le_trans (Nat.le_add_right _ _) hcov))
      exact ⟨ev', mem_proj.mp hev', by simpa using hdrawn⟩
  · intro hnd
    rw [List.nodup_iff_count_le_one] at hnd ⊢
    intro iv
    rw [count_filterMap_snd]
    refine le_trans (card_used_le hc iv) ?_
    rw [← count_filterMap_snd]
    exact hnd iv

end Pool

/-- The sample token, drawing one number after the other. -/
def Ref.draws (s : Nat × Viewed Nat) : (e : LowOp) → LowOp.Ret e × (Nat × Viewed Nat)
  | .p11 (.generateRandom _ len) =>
    (.ok (List.replicate len (UInt8.ofNat s.1)), (s.1 + 1, s.2))
  | e =>
    let r := tokenAnswer Ref.token Ref.takesAll s.2 e
    (r.1, (s.1, r.2))

/-- Two requests of `app-a` to derive a key and encrypt with it: the second one encrypts before
the first one has its result signed. -/
def encrypting : Conf lowSig (Nat × Viewed Nat) Bool Response :=
  (Ref.gateway.servingP11 Ref.crates (0, Ref.token.atRest) Ref.parseRequest fun _ => ("app-a",
    Ref.requestText
      (.deriveAndEncrypt "k1" "ecdh1_derive" "aes_cbc_pad" "cGVlci1h" "aGVsbG8="))).exec Ref.draws
    (List.replicate 2 false ++ List.replicate 2 true ++ List.replicate 7 false ++
      List.replicate 7 true ++ List.replicate 6 false ++ List.replicate 6 true)

theorem ivs_fresh_encrypting :
    (encrypting.hist.filterMap fun x => (usedIv x.2).map (Prod.mk x.1)) =
        [(false, List.replicate 16 0), (true, List.replicate 16 1)] ∧
      (encrypting.hist.filterMap fun x => usedIv x.2).Nodup := by
  have hhist : (encrypting.hist.filterMap fun x => (usedIv x.2).map (Prod.mk x.1)) =
        [(false, List.replicate 16 0), (true, List.replicate 16 1)] ∧
      (encrypting.hist.filterMap fun x => drawnIv x.2) =
        [List.replicate 16 0, List.replicate 16 1] := by
    simp only [encrypting, Gateway.servingP11,
      Gateway.processLineP11_of_parse (Ref.parseRequest_requestText _)]
    exact ⟨rfl, rfl⟩
  have hrun : Reach (fun _ _ _ => True) anySchedule _ encrypting :=
    Reach.exec (fun _ _ => trivial) .init _
  have hdrawn : (encrypting.hist.filterMap fun x => drawnIv x.2).Nodup := by
    rw [hhist.2]
    decide
  exact ⟨hhist.1, (ivs_fresh hrun).2 hdrawn⟩

end PicoHsm
