/-
What a lone intent in the log means.

`audit.rs` says of its two-phase protocol that an intent without a closing entry stands for
an operation that was interrupted, its outcome unknown.  Here the log is read as accounts:
for each client, operation and key label, the intents on the one side, and on the other the
entries that close one, which can be told from the refusals before an intent by their
outcome and, for a denial, by its text.

* `settled_of_steps` — one request, finished or not: its intent is closed, or it is still at
  work, or its closing append has failed;
* `accounts` — over any number of handlers, at every moment: the intents that are not
  closed are exactly those requests, and none is left when all have returned and no append
  has failed.
-/
import PicoHsm.AuditProtocol

namespace PicoHsm

open Text Effects Prog

/-- The one denial behind an intent. -/
def integrityDenial : String := "integrity check failed, ciphertext rejected"

/-- The entry closes an intent. -/
def isCloser (τ : String × String × String) (a : AppendArgs) : Bool :=
  (a.outcome = .authorized ∨ a.outcome = .error ∨
    (a.outcome = .denied ∧ a.detail = integrityDenial)) ∧ a.triple = τ

def wroteIntent : Ev gwSig → Bool
  | ⟨.append a, .ok _⟩ => a.outcome = .intent
  | _ => false

def failedAppend : Ev gwSig → Bool
  | ⟨.append _, .error _⟩ => true
  | _ => false

/-- The intent is in the log and the closing entry is not: the request is still at work, or
its last append has failed. -/
def unsettledRun (t : List (Ev gwSig)) (returned : Bool) : Bool :=
  t.any wroteIntent && (!returned || t.getLast?.any failedAppend)

namespace Gateway

variable {K : Crates} {g : Gateway} {cn : String} {req : Request} {peer : Option (List UInt8)}
  {t u : List (Ev gwSig)} {p : Prog gwSig Response} {o : Option Response}
  {τ : String × String × String}

/-! ### The texts of denials -/

/-- A refusal before the intent has another text than the denial behind it. -/
theorem Refuses.reason_ne {reason : String} (h : g.Refuses K cn req reason) :
    reason ≠ integrityDenial := by
  rintro rfl
  rcases h with ⟨-, h⟩ | ⟨-, h⟩
  · have := congrArg String.toList h
    simp [integrityDenial, denialReason] at this
  · rw [peerKey] at h
    rcases hp : req.peerPublicKeyB64 with _ | peerB64
    · rw [hp] at h
      cases h
    rw [hp] at h
    dsimp only at h
    rcases hd : K.b64.decode peerB64 with _ | bytes
    · rw [hd] at h
      exact absurd (Except.error.inj h) (by decide)
    · rw [hd] at h
      dsimp only at h
      split at h
      · have := congrArg String.toList (Except.error.inj h)
        simp [integrityDenial] at this
      · cases h

/-- Code that denies, if at all, with the text of the integrity check. -/
def DeniesOnly (p : Prog gwSig Response) : Prop :=
  ∀ h : List (Ev gwSig), Safe (fun _ _ => True) (fun _ _ => True)
    (fun _ resp => ∀ reason, resp = .denied reason → reason = integrityDenial) h p

theorem deniesOnly_onSuccess {label : String} {c : HsmCall} {r : c.Ret} {p : Prog gwSig Response}
    (hp : g.onSuccess K label c r = some p) : DeniesOnly p := by
  have hseal : ∀ iv ct, DeniesOnly (g.sealResponse K label iv ct) := by
    intro iv ct h
    refine ⟨trivial, fun r _ => ?_⟩
    rcases r with e | sig
    · exact fun reason hr => by cases hr
    · exact fun reason hr => by cases hr
  cases c with
  | encrypt _ data =>
    obtain ⟨x, -, rfl⟩ := Option.map_eq_some_iff.mp hp
    exact hseal x.1 x.2
  | deriveAndEncrypt _ peer data =>
    obtain ⟨x, -, rfl⟩ := Option.map_eq_some_iff.mp hp
    exact hseal x.1 x.2
  | sign _ data =>
    obtain ⟨sig, -, rfl⟩ := Option.map_eq_some_iff.mp hp
    exact fun _ reason hr => by cases hr
  | verify _ data sig =>
    obtain ⟨valid, -, rfl⟩ := Option.map_eq_some_iff.mp hp
    exact fun _ reason hr => by cases hr
  | decrypt _ ct iv =>
    obtain ⟨pt, -, rfl⟩ := Option.map_eq_some_iff.mp hp
    exact fun _ reason hr => by cases hr
  | deriveAndDecrypt _ peer ct iv =>
    obtain ⟨pt, -, rfl⟩ := Option.map_eq_some_iff.mp hp
    exact fun _ reason hr => by cases hr

theorem deniesOnly_err (message : String) : DeniesOnly (.ret (err message)) :=
  fun _ reason hr => by cases hr

/-- Going on with the result of the call. -/
theorem Finishes.deniesOnly {label : String} {c : HsmCall}
    {f : Except String c.Ret → Prog gwSig Response} (hf : g.Finishes K label c f)
    (r : Except String c.Ret) : DeniesOnly (f r) := by
  rcases r with e | r
  · obtain ⟨message, hm⟩ := hf.task e
    rw [hm]
    exact deniesOnly_err message
  · rcases hs : g.onSuccess K label c r with _ | p
    · obtain ⟨message, hm⟩ := hf.failed r hs
      rw [hm]
      exact deniesOnly_err message
    · rw [hf.done r p hs]
      exact deniesOnly_onSuccess hs

theorem execute_deniesOnly : DeniesOnly (g.execute K req peer) := by
  have hb := g.execute_branch K req peer
  generalize g.execute K req peer = p at hb
  cases hb with
  | reject message _ => exact deniesOnly_err message
  | serve c f _ hf =>
    have hserve : DeniesOnly (blocking c >>= f) := fun h =>
      safe_blocking trivial (fun _ _ => trivial) (fun h' r _ _ => hf.deniesOnly (.ok r) h')
        fun h' e _ => hf.deniesOnly (.error e) h'
    intro h
    rw [behindCheck]
    rcases c.ciphertext with _ | ⟨iv, ct⟩
    · exact hserve h
    refine ⟨trivial, fun r _ => ?_⟩
    rcases r with e | _ | _
    · exact fun reason hr => (Response.denied.inj hr).symm
    · exact fun reason hr => (Response.denied.inj hr).symm
    · exact hserve _

/-! ### One request -/

/-- Whatever the result of `execute`, its closing entry is one that closes. -/
theorem isCloser_closing {result : Response}
    (h : Steps (g.execute K req peer) u (.ret result)) :
    isCloser (requestTriple cn req) (closing cn req result) = true := by
  have hd : DeniesOnly (g.execute K req peer) := execute_deniesOnly
  have hd := (hd []).post_of_steps h fun _ _ _ _ => trivial
  cases result with
  | ok a b c d => simp [isCloser, closing, entryFor, AppendArgs.triple, requestTriple]
  | denied reason =>
    simp [isCloser, closing, entryFor, AppendArgs.triple, requestTriple, hd reason rfl]
  | error message => simp [isCloser, closing, entryFor, AppendArgs.triple, requestTriple]

theorem isIntent_closing (result : Response) : isIntent τ (closing cn req result) = false := by
  cases result <;> simp [isIntent, closing, entryFor]

/-- An entry about another triple counts nowhere. -/
theorem count_entryFor_of_ne (hτ : requestTriple cn req ≠ τ) (outcome : Outcome) (detail : String) :
    isIntent τ (entryFor cn req outcome detail) = false ∧
      isCloser τ (entryFor cn req outcome detail) = false := by
  have hne : (entryFor cn req outcome detail).triple ≠ τ := hτ
  simp [isIntent, isCloser, hne]

/-- **One request and its accounts**, finished or not: its intent is closed, or it is still at
work, or its closing append has failed. -/
theorem settled_of_steps (h : Steps (g.processRequest K cn req) t p)
    (τ : String × String × String) :
    (entries t).countP (isIntent τ) = (entries t).countP (isCloser τ) +
      if requestTriple cn req = τ ∧ unsettledRun t p.returned = true then 1 else 0 := by
  obtain ⟨o, hrun, ho⟩ := processRequest_run h
  -- without an intent in the log nothing is unsettled
  have hnone : t.any wroteIntent = false → unsettledRun t p.returned = false := by
    intro hany
    rw [unsettledRun, hany, Bool.false_and]
  cases hrun with
  | start =>
    rw [hnone rfl]
    simp
  | refused reason r hr =>
    have hclose : isCloser τ (entryFor cn req .denied reason) = false := by
      simp [isCloser, entryFor, hr.reason_ne]
    rcases r with e | ⟨⟩
    · rw [hnone rfl]
      simp
    · rw [hnone rfl, entries_cons_ok, entries_nil, List.countP_singleton, List.countP_singleton,
        hclose]
      simp [isIntent, entryFor]
  | noIntent peer e _ =>
    rw [hnone rfl]
    simp
  | executing peer u q ha hu =>
    have hwork : p.returned = false := by
      rcases p with resp | ⟨e, k⟩
      · cases ho resp rfl
      · rfl
    have hun : unsettledRun (intentOk cn req :: u) p.returned = true := by
      rw [unsettledRun, hwork]
      rfl
    rw [hun, intentOk, entries_cons_ok, entries_execute hu, List.countP_singleton,
      List.countP_singleton]
    by_cases hτ : requestTriple cn req = τ
    · subst hτ
      rw [isIntent_intent]
      simp [isCloser, entryFor]
    · obtain ⟨hi, hc⟩ := count_entryFor_of_ne hτ .intent ""
      simp [hi, hc, hτ]
  | closed peer u result r ha hu =>
    have hback : p = .ret result := h.unique (ha.steps hu r)
    have hclosing : isCloser (requestTriple cn req) (closing cn req result) = true :=
      isCloser_closing hu
    have hun : unsettledRun (intentOk cn req :: (u ++ [⟨.append (closing cn req result), r⟩]))
        p.returned = failedAppend ⟨.append (closing cn req result), r⟩ := by
      rw [unsettledRun, hback, ← List.cons_append, List.getLast?_concat]
      rfl
    rw [hun, intentOk, entries_cons_ok, entries_append, entries_execute hu, List.nil_append]
    by_cases hτ : requestTriple cn req = τ
    · subst hτ
      have hopen : isCloser (requestTriple cn req) (entryFor cn req .intent "") = false := by
        simp [isCloser, entryFor]
      rcases r with e | ⟨⟩
      · rw [entries_cons_error, entries_nil, List.countP_singleton, List.countP_singleton,
          isIntent_intent, hopen]
        simp [failedAppend]
      · rw [entries_cons_ok, entries_nil]
        simp [isIntent_intent, hopen, isIntent_closing, hclosing, failedAppend]
    · have hother : (entries [⟨.append (closing cn req result), r⟩]).countP (isIntent τ) = 0 ∧
          (entries [⟨.append (closing cn req result), r⟩]).countP (isCloser τ) = 0 := by
        have hne : (closing cn req result).triple ≠ τ := by cases result <;> exact hτ
        rcases r with e | ⟨⟩
        · exact ⟨rfl, rfl⟩
        · rw [entries_cons_ok, entries_nil]
          simp [isIntent, isCloser, hne]
      obtain ⟨hi, hc⟩ := count_entryFor_of_ne hτ .intent ""
      rw [List.countP_cons, List.countP_cons, hother.1, hother.2]
      simp [hi, hc, hτ]

end Gateway

/-! ### All handlers -/

section Pool

variable (parse : String → Except String Request) {ι : Type} [DecidableEq ι]

/-- The tasks on this triple whose intent is not closed. -/
def unsettled (tasks : ι → Task) (τ : String × String × String)
    (c : Conf gwSig (List AppendArgs) ι (Option Response)) : Finset ι :=
  (ids c.hist).filter fun i =>
    (tasks i).triple parse = some τ ∧ unsettledRun (c.own i) (c.prog i).returned = true

variable {parse} {K : Crates} {g : Gateway} {log : List AppendArgs} {tasks : ι → Task}
  {c : Conf gwSig (List AppendArgs) ι (Option Response)} {τ : String × String × String}

omit [DecidableEq ι] in
theorem returned_map {α β : Type} (p : Prog gwSig α) (f : α → β) :
    (p >>= fun a => .ret (f a)).returned = p.returned := by
  cases p <;> rfl

omit [DecidableEq ι] in
/-- The accounts of one task, finished or not. -/
theorem Task.settled (task : Task) {t : List (Ev gwSig)} {p : Prog gwSig (Option Response)}
    (h : Steps (task.prog K g parse) t p) (τ : String × String × String) :
    (entries t).countP (isIntent τ) = (entries t).countP (isCloser τ) +
      if task.triple parse = some τ ∧ unsettledRun t p.returned = true then 1 else 0 := by
  cases task with
  | connect cn v d =>
    obtain ⟨p', h', -⟩ := Steps.of_map h
    rw [countP_certPolicy (by simp [isIntent]) (by simp [isIntent]) h',
      countP_certPolicy (by simp [isCloser, integrityDenial]) (by simp [isCloser]) h']
    simp [Task.triple]
  | request cn line =>
    obtain ⟨p', h', rfl⟩ := Steps.of_map h
    rw [returned_map, Task.triple]
    rw [Gateway.processLine] at h'
    rcases hreq : parse line with e | req
    · rw [hreq] at h'
      cases h'
      simp
    · rw [hreq] at h'
      rw [Gateway.settled_of_steps h' τ]
      simp only [Option.some_inj]

theorem accounts_eq (hc : Reach logAct anySchedule (handling K g parse log tasks) c)
    (τ : String × String × String) :
    c.shared.countP (isIntent τ) + log.countP (isCloser τ) =
      c.shared.countP (isCloser τ) + log.countP (isIntent τ) +
        (unsettled parse tasks τ c).card := by
  have hsum : ∑ i ∈ ids c.hist, (entries (c.own i)).countP (isIntent τ) =
      ∑ i ∈ ids c.hist, (entries (c.own i)).countP (isCloser τ) +
        (unsettled parse tasks τ c).card := by
    rw [unsettled, Finset.card_filter, ← Finset.sum_add_distrib]
    exact Finset.sum_congr rfl fun i _ => (tasks i).settled (hc.own_steps rfl i) τ
  rw [countP_shared hc, countP_shared hc, hsum]
  omega

/-- A task that has returned, and whose appends have not failed, is settled. -/
theorem unsettled_eq_empty (hrest : ∀ i, ¬ c.InFlight i)
    (hok : ∀ x ∈ c.hist, failedAppend x.2 = false) (τ : String × String × String) :
    unsettled parse tasks τ c = ∅ := by
  rw [unsettled, Finset.filter_eq_empty_iff]
  rintro i hi ⟨-, hun⟩
  rw [unsettledRun, Bool.and_eq_true, Bool.or_eq_true] at hun
  obtain ⟨hany, hopen | hlast⟩ := hun
  · refine hrest i ⟨?_, ?_⟩
    · intro hnil
      rw [hnil] at hany
      cases hany
    · rintro ⟨resp, hp⟩
      rw [hp] at hopen
      cases hopen
  · rcases hev : (c.own i).getLast? with _ | ev
    · rw [hev] at hlast
      cases hlast
    · rw [hev, Option.any_some, hok _ (mem_proj.mp (List.mem_of_getLast? hev))] at hlast
      cases hlast

/-- **What a lone intent means.**  For any number of connections and lines, under every
interleaving, with appends that fail or not and an HSM that answers as it likes, at every
moment: on each triple, the intents written are the entries that close one and the requests
that are still at work behind their intent or whose closing append has failed.  So when no
task is running and no append has failed, every intent of the run is closed. -/
theorem accounts (hc : Reach logAct anySchedule (handling K g parse log tasks) c) :
    (∀ τ, c.shared.countP (isIntent τ) + log.countP (isCloser τ) =
      c.shared.countP (isCloser τ) + log.countP (isIntent τ) +
        (unsettled parse tasks τ c).card) ∧
    ((∀ i, ¬ c.InFlight i) → (∀ x ∈ c.hist, failedAppend x.2 = false) →
      ∀ τ, c.shared.countP (isIntent τ) + log.countP (isCloser τ) =
        c.shared.countP (isCloser τ) + log.countP (isIntent τ)) := by
  refine ⟨accounts_eq hc, fun hrest hok τ => ?_⟩
  rw [accounts_eq hc τ, unsettled_eq_empty hrest hok τ]
  rfl

end Pool

/-- The disk fills when the first of two interleaved signing requests is to close its intent,
and has room again for the second: both are answered, and the first one is what the lone
intent of their triple stands for. -/
theorem accounts_diskFull :
    ∃ c, Reach logAct anySchedule
        (handling Ref.crates Ref.gateway Ref.parseRequest [] sampleTasks) c ∧
      c.hist = bothSigning (.error "No space left on device (os error 28)") ∧
      (∀ i, i = 0 ∨ i = 1 → c.prog i = .ret (some (.ok (some "AQIDBA==") none none none))) ∧
      c.shared.countP (isIntent ("app-a", "sign", "k1")) = 2 ∧
      (unsettled Ref.parseRequest sampleTasks ("app-a", "sign", "k1") c).card = 1 := by
  obtain ⟨c, hc, hhist, hp⟩ := reach_bothSigning (.error "No space left on device (os error 28)")
  have hintents : c.shared.countP (isIntent ("app-a", "sign", "k1")) = 2 := by
    rw [shared_eq hc, hhist]
    rfl
  have hclosers : c.shared.countP (isCloser ("app-a", "sign", "k1")) = 1 := by
    rw [shared_eq hc, hhist]
    rfl
  have hcard := (accounts hc).1 ("app-a", "sign", "k1")
  rw [hintents, hclosers, List.countP_nil, List.countP_nil] at hcard
  exact ⟨c, hc, hhist, hp, hintents, by omega⟩

end PicoHsm
