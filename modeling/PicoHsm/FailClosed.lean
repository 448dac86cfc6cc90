/-
Fail-closed audit up to the answer.

Every append is atomic: it adds its entry to the log and returns `Ok`, or adds nothing and
fails.  Of the HSM nothing is assumed: every PKCS#11 operation may be answered in any way.

* `outside` — what a run does outside the HSM, where the log is;
* `Request.Servable` — the requests that some HSM would have answered `Ok`
  (`execute_serves`), and no other is (`servable_of_ok`);
* `ok_audited_iff` — when an `Ok` response is sure to be in the log: the result of the
  closing append is discarded, so it is not if that append fails.
-/
import PicoHsm.AuditProtocol
import PicoHsm.Finality

namespace PicoHsm

open Text Effects Prog

/-! ### Outside the HSM -/

def outsideEvent : Ev lowSig → Option (Ev gwSig)
  | ⟨.append a, r⟩ => some ⟨.append a, r⟩
  | ⟨.spawn, r⟩ => some ⟨.spawn, r⟩
  | ⟨.p11 _, _⟩ => none

/-- The events of a run that are none of PKCS#11. -/
def outside (t : List (Ev lowSig)) : List (Ev gwSig) := t.filterMap outsideEvent

theorem outside_liftP11 {α : Type} {p : Prog p11Sig α} {t : List (Ev lowSig)} {a : α}
    (h : Steps (liftP11 p) t (.ret a)) : outside t = [] := by
  induction p generalizing t with
  | ret b =>
    cases h
    rfl
  | call e k ih =>
    cases h with
    | call h =>
      have hrest := ih _ h
      exact hrest

theorem outside_lower {K : Crates} {g : Gateway} {e : GwOp} {t : List (Ev lowSig)} {r : GwOp.Ret e}
    (h : Steps (g.lower K e) t (.ret r)) : outside t = [⟨e, r⟩].filter fun ev => !isHsm ev := by
  cases e with
  | append a =>
    cases h with
    | call h =>
      cases h
      rfl
  | spawn =>
    cases h with
    | call h =>
      cases h
      rfl
  | hsm c => exact outside_liftP11 h

theorem outside_flatten {K : Crates} {g : Gateway} {u : List (Ev gwSig)}
    {ts : List (List (Ev lowSig))}
    (h : List.Forall₂ (fun ev t' => Steps (g.lower K ev.op) t' (.ret ev.ret)) u ts) :
    outside ts.flatten = u.filter fun ev => !isHsm ev := by
  induction h with
  | nil => rfl
  | @cons ev t' u ts h _ ih =>
    rw [List.flatten_cons, outside, List.filterMap_append, ← outside, ← outside, ih,
      outside_lower h, ← List.filter_append]
    rfl

theorem entries_filter (u : List (Ev gwSig)) :
    entries (u.filter fun ev => !isHsm ev) = entries u := by
  rw [entries, List.filterMap_filter, entries]
  congr 1
  funext ev
  obtain ⟨a | _ | c, r⟩ := ev <;> rfl

theorem appendResults_filter (u : List (Ev gwSig)) :
    appendResults (u.filter fun ev => !isHsm ev) = appendResults u := by
  rw [appendResults, List.filterMap_filter, appendResults]
  congr 1
  funext ev
  obtain ⟨a | _ | c, r⟩ := ev <;> rfl

/-- The run of the pipeline behind a run down to PKCS#11: the log is the same. -/
theorem Gateway.steps_outside {K : Crates} {g : Gateway} {parse : String → Except String Request}
    {cn line : String} {t : List (Ev lowSig)} {resp : Response}
    (h : Steps (g.processLineP11 K parse cn line) t (.ret resp)) :
    ∃ u, Steps (g.processLine K parse cn line) u (.ret resp) ∧ entries (outside t) = entries u ∧
      appendResults (outside t) = appendResults u ∧
      ∀ ev ∈ u, ∃ t', Steps (g.lower K ev.op) t' (.ret ev.ret) ∧ t' <:+: t := by
  obtain ⟨u, ts, hu, hts, rfl⟩ := steps_interp_iff.mp h
  refine ⟨u, hu, ?_, ?_, fun ev hev => exists_piece hts hev⟩
  · rw [outside_flatten hts, entries_filter]
  · rw [outside_flatten hts, appendResults_filter]

/-! ### Requests that can be answered `Ok` -/

/-- The IV of a decryption has 16 bytes. -/
def HsmCall.IvFits : HsmCall → Prop
  | .decrypt _ _ iv => iv.length = 16
  | .deriveAndDecrypt _ _ _ iv => iv.length = 16
  | _ => True

/-- The mechanisms are supported and the fields decode, an IV to 16 bytes. -/
def Request.Servable (K : Crates) : Request → Prop
  | .sign _ mech data => mech = mechEcdsaSha256 ∧ (K.b64.decode data).isSome
  | .verify _ mech data sig =>
    mech = mechEcdsaSha256 ∧ (K.b64.decode data).isSome ∧ (K.b64.decode sig).isSome
  | .encrypt _ mech data => mech = mechAesCbcPad ∧ (K.b64.decode data).isSome
  | .decrypt _ mech data iv integ =>
    mech = mechAesCbcPad ∧ (K.b64.decode data).isSome ∧
      (∃ bytes, K.b64.decode iv = some bytes ∧ bytes.length = 16) ∧ (K.b64.decode integ).isSome
  | .deriveAndEncrypt _ derive target _ data =>
    (derive = mechEcdh1Derive ∧ target = mechAesCbcPad) ∧ (K.b64.decode data).isSome
  | .deriveAndDecrypt _ derive target _ iv integ data =>
    (derive = mechEcdh1Derive ∧ target = mechAesCbcPad) ∧ (K.b64.decode data).isSome ∧
      (∃ bytes, K.b64.decode iv = some bytes ∧ bytes.length = 16) ∧ (K.b64.decode integ).isSome

/-- A token that holds every key, accepts every signature and decrypts everything. -/
def Ref.openToken : Token Unit where
  pin := "648219"
  value _ := ()
  find _ := [1]
  verify _ _ _ := .ok ()
  decrypt _ _ ct := .ok ct
  derive _ _ := .ok ()
  handle _ := 2
  value_handle _ := rfl

theorem expected_openToken {c : HsmCall} (h : c.IvFits) : Ref.openToken.expected c = some true := by
  cases c with
  | decrypt label ct iv => exact if_pos h
  | deriveAndDecrypt label peer ct iv => exact if_pos h
  | sign label data => rfl
  | verify label data sig => rfl
  | encrypt label data => rfl
  | deriveAndEncrypt label peer data => rfl

namespace Gateway

variable {K : Crates} {g : Gateway} {cn : String} {req : Request} {peer : Option (List UInt8)}
  {t u : List (Ev gwSig)} {aud : AppendArgs → Except String Unit}

theorem servable_iff (peer : Option (List UInt8)) :
    req.Servable K ↔ ∃ c, req.hsmCall K peer = some c ∧ c.IvFits := by
  cases req <;>
    simp only [Request.Servable, Request.hsmCall, Option.ite_none_right_eq_some,
      Option.map_eq_some_iff, Option.bind_eq_some_iff, Option.isSome_iff_exists] <;>
    grind [HsmCall.IvFits]

/-- On that token, a servable request is answered `Ok`. -/
theorem execute_serves {c : HsmCall} (hcall : req.hsmCall K peer = some c) (hiv : c.IvFits) :
    EndsWith Ref.openToken aud .ok (g.execute K req peer) := by
  intro h
  have hb := g.execute_branch K req peer
  generalize g.execute K req peer = p at hb
  cases hb with
  | reject message hnone =>
    rw [hcall] at hnone
    cases hnone
  | serve c' f hcall' hf =>
    obtain rfl : c = c' := Option.some_inj.mp (hcall.symm.trans hcall')
    have hseal : ∀ iv ct, EndsWith Ref.openToken aud .ok (g.sealResponse K req.keyLabel iv ct) := by
      refine fun iv ct h => ⟨trivial, fun r hr => ?_⟩
      rcases r with e | sig
      · cases hr
      · rfl
    -- the own call, behind the check
    have hown : EndsWith Ref.openToken aud .ok (blocking c >>= f) := by
      refine fun h => ⟨trivial, fun s hs => ?_⟩
      obtain rfl : s = Spawn.ran := hs
      refine ⟨trivial, fun r hr => ?_⟩
      have hshape : c.shape r = some true := hr.trans (expected_openToken hiv)
      obtain ⟨p, hp⟩ := exists_onSuccess K g req.keyLabel hshape
      show Safe _ _ _ _ (f (.ok r))
      rw [hf.done r p hp]
      cases c with
      | encrypt _ data =>
        obtain ⟨x, -, rfl⟩ := Option.map_eq_some_iff.mp hp
        exact hseal x.1 x.2 _
      | deriveAndEncrypt _ peer data =>
        obtain ⟨x, -, rfl⟩ := Option.map_eq_some_iff.mp hp
        exact hseal x.1 x.2 _
      | sign _ data =>
        obtain ⟨x, -, rfl⟩ := Option.map_eq_some_iff.mp hp
        rfl
      | verify _ data sig =>
        obtain ⟨x, -, rfl⟩ := Option.map_eq_some_iff.mp hp
        rfl
      | decrypt _ ct iv =>
        obtain ⟨x, -, rfl⟩ := Option.map_eq_some_iff.mp hp
        rfl
      | deriveAndDecrypt _ peer ct iv =>
        obtain ⟨x, -, rfl⟩ := Option.map_eq_some_iff.mp hp
        rfl
    rw [behindCheck]
    rcases c.ciphertext with _ | ⟨iv, ct⟩
    · exact hown h
    · refine ⟨trivial, fun r hr => ?_⟩
      obtain rfl : r = .ok true := HsmCall.eq_ok_of_shape hr
      exact hown _

/-- A decryption whose IV has not 16 bytes fails. -/
theorem ivFits_of_shape {c : HsmCall} {t : List (Ev lowSig)} {r : c.Ret} {b : Bool}
    (h : Steps (g.lower K (.hsm c)) t (.ret r)) (hr : c.shape r = some b) : c.IvFits := by
  have hu := steps_of_liftP11 h
  generalize p11Part t = v at hu
  cases c with
  | decrypt label ct iv =>
    by_contra hiv
    rw [HsmClient.perform, HsmClient.decryptAesCbcPad,
      if_neg (show ¬ iv.length = 16 from hiv)] at hu
    cases hu
    cases hr
  | deriveAndDecrypt label peer ct iv =>
    by_contra hiv
    rw [HsmClient.perform, HsmClient.deriveAndDecrypt,
      if_neg (show ¬ iv.length = 16 from hiv)] at hu
    cases hu
    cases hr
  | sign label data => trivial
  | verify label data sig => trivial
  | encrypt label data => trivial
  | deriveAndEncrypt label peer data => trivial

/-- A request that is answered `Ok` is servable, whatever the HSM does. -/
theorem servable_of_ok {resp : Response} (h : Steps (g.execute K req peer) u (.ret resp))
    (hlow : ∀ ev ∈ u, ∃ t, Steps (g.lower K ev.op) t (.ret ev.ret)) (hok : resp.status = .ok) :
    req.Servable K := by
  have hans := (execute_answer []).post_of_steps h fun _ _ _ _ => trivial
  obtain ⟨c, b, hcall, ⟨r, hr, hshape⟩, -⟩ := hans.ofOk hok
  obtain ⟨t, ht⟩ := hlow _ hr
  exact (servable_iff peer).mpr ⟨c, hcall, ivFits_of_shape ht hshape⟩

/-! ### An `Ok` response and the log -/

variable (K g) in
/-- Some HSM would have the line answered `Ok`: it is a request, passes the gates, and is
servable. -/
def ServableLine (parse : String → Except String Request) (cn line : String) : Prop :=
  ∃ req peer, parse line = .ok req ∧ g.Admits K cn req peer ∧ req.Servable K

/-- The appends of the run succeed and fail as `pat` says. -/
def Follows (pat : ℕ → Except String Unit) (t : List (Ev gwSig)) : Prop :=
  ∀ n r, (appendResults t)[n]? = some r → r = pat n

/-- Intent and authorized entry of the request have been added. -/
def BothAdded (parse : String → Except String Request) (cn line : String)
    (t : List (Ev gwSig)) : Prop :=
  ∃ req, parse line = .ok req ∧
    ⟨cn, opName req.operation, req.keyLabel, .intent, ""⟩ ∈ entries t ∧
    ⟨cn, opName req.operation, req.keyLabel, .authorized, ""⟩ ∈ entries t

/-- A log whose first append, the intent, ends as `pat 0`, and the other as `pat 1`. -/
def answering (pat : ℕ → Except String Unit) (a : AppendArgs) : Except String Unit :=
  if a.outcome = .intent then pat 0 else pat 1

/-- On the token that serves all, a servable line is answered `Ok` if its intent is written. -/
theorem ok_of_served {parse : String → Except String Request} {line : String}
    {pat : ℕ → Except String Unit} {resp : Response} (hline : g.ServableLine K parse cn line)
    (h₀ : pat 0 = .ok ()) (hu : Steps (g.processLine K parse cn line) u (.ret resp))
    (hreg : ∀ ev ∈ u, Regular Ref.openToken (answering pat) ev) : resp.status = .ok := by
  obtain ⟨req, peer, hreq, hadm, hserv⟩ := hline
  obtain ⟨c, hcall, hiv⟩ := (servable_iff peer).mp hserv
  rw [processLine_of_parse hreq] at hu
  obtain ⟨o, hrun, ho⟩ := processRequest_run hu
  obtain rfl := ho resp rfl
  cases hrun with
  | refused reason r hr => exact (hadm.not_refuses hr).elim
  | noIntent peer' e _ =>
    have hint : .error e = pat 0 := hreg _ List.mem_cons_self
    rw [h₀] at hint
    cases hint
  | closed peer' u' _ r hadm' hu' =>
    obtain rfl : peer = peer' := Except.ok.inj (hadm.2.symm.trans hadm'.2)
    refine (execute_serves hcall hiv []).post_of_steps hu' fun u₁ ev u₂ heq => hreg ev ?_
    rw [heq]
    simp

/-- **Fail-closed audit up to the answer.**  Whatever the HSM answers to each PKCS#11 operation,
an `Ok` response has both its entries in the log, if and only if the intent cannot be written,
or the closing entry can, or the line is one that is never answered `Ok`. -/
theorem ok_audited_iff (parse : String → Except String Request) (cn line : String)
    (pat : ℕ → Except String Unit) :
    (∀ t resp, Steps (g.processLineP11 K parse cn line) t (.ret resp) → Follows pat (outside t) →
      resp.status = .ok → BothAdded parse cn line (outside t)) ↔
    ((∃ e, pat 0 = .error e) ∨ pat 1 = .ok () ∨ ¬ g.ServableLine K parse cn line) := by
  constructor
  · intro hall
    by_contra hcon
    rw [not_or, not_or, not_not] at hcon
    obtain ⟨h₀, h₁, hline⟩ := hcon
    obtain ⟨e, he⟩ : ∃ e, pat 1 = .error e := by
      rcases hp : pat 1 with e | ⟨⟩
      · exact ⟨e, rfl⟩
      · exact absurd hp h₁
    have hp₀ : pat 0 = .ok () := by
      rcases hp : pat 0 with e | ⟨⟩
      · exact absurd ⟨e, hp⟩ h₀
      · rfl
    -- the token serves all, and the disk is full for the closing entry
    have ht := steps_exec (Ref.openToken.serveLow (answering pat))
      (g.processLineP11 K parse cn line)
    have hf := Ref.openToken.faultless_serveLow (answering pat) (g.processLineP11 K parse cn line)
    obtain ⟨u, hu, hent, happ, hlow⟩ := steps_outside ht
    have hreg : ∀ ev ∈ u, Regular Ref.openToken (answering pat) ev := by
      intro ev hev
      obtain ⟨t', ht', hsub⟩ := hlow ev hev
      exact regular_of_steps ht' (hf.of_segment hsub)
    have hok := ok_of_served hline hp₀ hu hreg
    obtain ⟨req, peer, hreq, -, -⟩ := hline
    have hrun := hu
    rw [processLine_of_parse hreq] at hrun
    obtain ⟨o, hrun, ho⟩ := processRequest_run hrun
    rw [ho _ rfl] at hrun
    obtain ⟨peer', u', r, -, hu', rfl⟩ := hrun.closed_of_ok hok
    have hclosing : r = pat 1 := hreg ⟨.append (entryFor cn req .authorized ""), r⟩ (by simp)
    obtain rfl : r = .error e := hclosing.trans he
    obtain ⟨req', -, -, hauth⟩ := hall _ _ ht (by
      intro n r hn
      rw [happ, intentOk, appendResults_cons, appendResults_append, appendResults_execute hu'] at hn
      rcases n with _ | _ | n
      · exact (Option.some_inj.mp hn).symm.trans hp₀.symm
      · exact (Option.some_inj.mp hn).symm.trans he.symm
      · cases hn) hok
    rw [hent, intentOk, entries_cons_ok, entries_append, entries_execute hu', entries_cons_error,
      entries_nil, List.append_nil, List.mem_singleton] at hauth
    have hout : Outcome.authorized = Outcome.intent := congrArg AppendArgs.outcome hauth
    cases hout
  · intro hcond t resp ht hpat hok
    obtain ⟨v, hv, hent, happ, hlow⟩ := steps_outside ht
    rw [Follows, happ] at hpat
    rw [BothAdded, hent]
    rw [processLine] at hv
    rcases hreq : parse line with e | req
    · rw [hreq] at hv
      cases hv
      cases hok
    rw [hreq] at hv
    obtain ⟨o, hrun, ho⟩ := processRequest_run hv
    rw [ho resp rfl] at hrun
    obtain ⟨peer, u, r, hadm, hu, rfl⟩ := hrun.closed_of_ok hok
    have hres : appendResults (intentOk cn req ::
        (u ++ [⟨.append (entryFor cn req .authorized ""), r⟩])) = [.ok (), r] := by
      rw [intentOk, appendResults_cons, appendResults_append, appendResults_execute hu]
      rfl
    have hp₀ : .ok () = pat 0 := hpat 0 _ (by rw [hres]; rfl)
    have hp₁ : r = pat 1 := hpat 1 _ (by rw [hres]; rfl)
    rcases hcond with ⟨e, he⟩ | hone | hno
    · rw [he] at hp₀
      cases hp₀
    · rw [hone] at hp₁
      subst hp₁
      refine ⟨req, rfl, ?_⟩
      rw [intentOk, entries_cons_ok, entries_append, entries_execute hu, entries_cons_ok,
        entries_nil]
      exact ⟨by simp [entryFor], by simp [entryFor]⟩
    · refine absurd ⟨req, peer, hreq, hadm, servable_of_ok hu (fun ev hev => ?_) hok⟩ hno
      obtain ⟨t', ht', -⟩ := hlow ev (List.mem_cons_of_mem _ (List.mem_append_left _ hev))
      exact ⟨t', ht'⟩

/-- **An answer that is not in the log.**  The disk fills between the two entries: the
signature is returned, and the log holds the intent only. -/
theorem ok_not_audited : ∃ t sigB64,
    Steps (Ref.gateway.processLineP11 Ref.crates Ref.parseRequest "app-a"
      (Ref.requestText signRequest)) t (.ret (.ok (some sigB64) none none none)) ∧
    entries (outside t) = [⟨"app-a", "sign", "k1", .intent, ""⟩] ∧
    ¬ BothAdded Ref.parseRequest "app-a" (Ref.requestText signRequest) (outside t) := by
  let full (a : AppendArgs) : Except String Unit :=
    if a.outcome = .intent then .ok () else .error "No space left on device (os error 28)"
  have hrun := steps_exec (Ref.token.serveLow full) (Ref.gateway.processLineP11 Ref.crates
    Ref.parseRequest "app-a" (Ref.requestText signRequest))
  have hent : entries (outside ((Ref.gateway.processLineP11 Ref.crates Ref.parseRequest "app-a"
      (Ref.requestText signRequest)).exec (Ref.token.serveLow full)).1) =
        [⟨"app-a", "sign", "k1", .intent, ""⟩] := by
    rw [processLineP11_of_parse (Ref.parseRequest_requestText _)]
    rfl
  have hresp : ((Ref.gateway.processLineP11 Ref.crates Ref.parseRequest "app-a"
      (Ref.requestText signRequest)).exec (Ref.token.serveLow full)).2 =
        .ok (some "AQIDBA==") none none none := by
    rw [processLineP11_of_parse (Ref.parseRequest_requestText _)]
    rfl
  rw [hresp] at hrun
  refine ⟨_, "AQIDBA==", hrun, hent, ?_⟩
  rintro ⟨req, hreq, -, hauth⟩
  rw [hent, List.mem_singleton] at hauth
  have hout : Outcome.authorized = Outcome.intent := congrArg AppendArgs.outcome hauth
  cases hout

end Gateway

end PicoHsm
