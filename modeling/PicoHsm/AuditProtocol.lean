/-
The two-phase audit protocol.

Every append is atomic here: it adds its entry to the log and returns `Ok`, or adds
nothing and fails.  Handlers of any number of connections run at once.

* `twoPhase` — what each finished `process_line` has added, how that matches its
  response, and the counting invariant of the log: at every point at least as many
  intents as closing entries, and no HSM call without one.
-/
import Mathlib.Algebra.BigOperators.Group.Finset.Piecewise
import Mathlib.Algebra.Order.BigOperators.Group.Finset
import PicoHsm.Pipeline
import PicoHsm.Pool

namespace PicoHsm

open Text Effects Prog

/-! ### What a run adds to the log -/

/-- The entry an event adds. -/
def added : Ev gwSig → Option AppendArgs
  | ⟨.append a, .ok _⟩ => some a
  | _ => none

/-- The entries added, in order. -/
def entries (t : List (Ev gwSig)) : List AppendArgs := t.filterMap added

/-- The results of the appends, in order. -/
def appendResults (t : List (Ev gwSig)) : List (Except String Unit) :=
  t.filterMap fun
    | ⟨.append _, r⟩ => some r
    | _ => none

def isHsm : Ev gwSig → Bool
  | ⟨.hsm _, _⟩ => true
  | _ => false

@[simp] theorem entries_nil : entries [] = [] := rfl

@[simp] theorem entries_cons_ok (a : AppendArgs) (t : List (Ev gwSig)) :
    entries (⟨.append a, .ok ()⟩ :: t) = a :: entries t := rfl

@[simp] theorem entries_cons_error (a : AppendArgs) (e : String) (t : List (Ev gwSig)) :
    entries (⟨.append a, .error e⟩ :: t) = entries t := rfl

@[simp] theorem entries_append (t u : List (Ev gwSig)) :
    entries (t ++ u) = entries t ++ entries u :=
  List.filterMap_append

@[simp] theorem appendResults_cons (a : AppendArgs) (r : Except String Unit)
    (t : List (Ev gwSig)) : appendResults (⟨.append a, r⟩ :: t) = r :: appendResults t := rfl

@[simp] theorem appendResults_append (t u : List (Ev gwSig)) :
    appendResults (t ++ u) = appendResults t ++ appendResults u := List.filterMap_append

namespace Gateway

variable {K : Crates} {g : Gateway} {cn : String} {req : Request} {peer : Option (List UInt8)}
  {t u : List (Ev gwSig)} {p : Prog gwSig Response} {o : Option Response}

/-- `execute` appends nothing. -/
theorem not_append_of_execute (h : Steps (g.execute K req peer) u p) {ev : Ev gwSig}
    (hev : ev ∈ u) (a : AppendArgs) : ev.op ≠ .append a := by
  intro hop
  obtain ⟨u₁, u₂, rfl⟩ := List.append_of_mem hev
  have hs : Safe (fun _ _ => True) (g.Proper K req peer) (fun _ _ => True) []
      (g.execute K req peer) := execute_proper []
  have hpr := hs.guar_of_steps h (fun _ _ _ _ => trivial) rfl
  rw [hop] at hpr
  exact hpr

theorem entries_execute (h : Steps (g.execute K req peer) u p) : entries u = [] := by
  rw [entries, List.filterMap_eq_nil_iff]
  rintro ⟨a | _ | c, r⟩ hev
  · exact absurd rfl (not_append_of_execute h hev a)
  · rfl
  · rfl

theorem appendResults_execute (h : Steps (g.execute K req peer) u p) : appendResults u = [] := by
  rw [appendResults, List.filterMap_eq_nil_iff]
  rintro ⟨a | _ | c, r⟩ hev
  · exact absurd rfl (not_append_of_execute h hev a)
  · rfl
  · rfl

/-- A finished run that is answered `Ok` has come to its closing entry. -/
theorem Run.closed_of_ok {resp : Response} (h : g.Run K cn req t (some resp))
    (hok : resp.status = .ok) :
    ∃ peer u r, g.Admits K cn req peer ∧ Steps (g.execute K req peer) u (.ret resp) ∧
      t = intentOk cn req :: (u ++ [⟨.append (entryFor cn req .authorized ""), r⟩]) := by
  cases h with
  | refused reason r _ => cases hok
  | noIntent peer e _ => cases hok
  | closed peer u _ r ha hu =>
    refine ⟨peer, u, r, ha, hu, ?_⟩
    cases resp with
    | ok a b c d => rfl
    | denied reason => cases hok
    | error message => cases hok

/-- A signing request of `app-a`. -/
def signRequest : Request := .sign "k1" "ecdsa_sha256" "aGVsbG8="

/-- How it is handled, on an HSM that signs and a log that answers the closing append by `r`. -/
def signRun (r : Except String Unit) : List (Ev gwSig) :=
  [⟨.append ⟨"app-a", "sign", "k1", .intent, ""⟩, .ok ()⟩, ⟨.spawn, .ran⟩,
    ⟨.hsm (.sign "k1" (utf8 "hello")), .ok [1, 2, 3, 4]⟩,
    ⟨.append ⟨"app-a", "sign", "k1", .authorized, ""⟩, r⟩]

theorem steps_signRequest (r : Except String Unit) :
    Steps (Ref.gateway.processLine Ref.crates Ref.parseRequest "app-a"
        (Ref.requestText signRequest)) (signRun r)
      (.ret (.ok (some "AQIDBA==") none none none)) := by
  have hadm : Ref.gateway.Admits Ref.crates "app-a" signRequest none := ⟨rfl, rfl⟩
  have hu : Steps (Ref.gateway.execute Ref.crates signRequest none)
      [⟨.spawn, .ran⟩, ⟨.hsm (.sign "k1" (utf8 "hello")), .ok [1, 2, 3, 4]⟩]
      (.ret (.ok (some "AQIDBA==") none none none)) :=
    .call (.call (.refl _))
  rw [processLine_of_parse (Ref.parseRequest_requestText _)]
  exact hadm.steps hu r

/-! ### What a finished request has added -/

/-- The closing entry matches the response. -/
def Matches (e : AppendArgs) : Response → Prop
  | .ok _ _ _ _ => e.outcome = .authorized
  | .denied reason => e.outcome = .denied ∧ e.detail = reason
  | .error message => e.outcome = .error ∧ e.detail = message

/-- What a finished request may have added: nothing; a denial, and then it was denied for
that reason and the HSM was not asked; an intent; or an intent and an entry that matches
the response. -/
inductive Audited (cn : String) (req : Request) (t : List (Ev gwSig)) (resp : Response) :
    Prop where
  | nothing : entries t = [] → Audited cn req t resp
  | refused (reason : String) : entries t = [entryFor cn req .denied reason] →
      resp = .denied reason → (∀ c r, (⟨.hsm c, r⟩ : Ev gwSig) ∉ t) → Audited cn req t resp
  | intent : entries t = [entryFor cn req .intent ""] → Audited cn req t resp
  | closed (outcome : Outcome) (detail : String) :
      entries t = [entryFor cn req .intent "", entryFor cn req outcome detail] →
      Matches (entryFor cn req outcome detail) resp → Audited cn req t resp

theorem Run.audited {resp : Response} (h : g.Run K cn req t (some resp)) :
    Audited cn req t resp := by
  cases h with
  | refused reason r _ =>
    rcases r with e | ⟨⟩
    · exact .nothing rfl
    · exact .refused reason rfl rfl hsm_notMem_append
  | noIntent peer e _ => exact .nothing rfl
  | closed peer u _ r ha hu =>
    rcases r with e | ⟨⟩
    · refine .intent ?_
      rw [intentOk, entries_cons_ok, entries_append, entries_execute hu]
      rfl
    · have hent : entries (intentOk cn req :: (u ++ [⟨.append (closing cn req resp), .ok ()⟩])) =
          [entryFor cn req .intent "", closing cn req resp] := by
        rw [intentOk, entries_cons_ok, entries_append, entries_execute hu]
        rfl
      cases resp with
      | ok a b c d => exact .closed .authorized "" hent rfl
      | denied reason => exact .closed .denied reason hent ⟨rfl, rfl⟩
      | error message => exact .closed .error message hent ⟨rfl, rfl⟩

end Gateway

/-! ### Counting -/

/-- What an entry is about: client, operation and key label. -/
def AppendArgs.triple (a : AppendArgs) : String × String × String :=
  (a.cn, a.operation, a.keyLabel)

def isIntent (τ : String × String × String) (a : AppendArgs) : Bool :=
  a.outcome = .intent ∧ a.triple = τ

/-- Authorized and error entries stand only behind an intent. -/
def isClosing (τ : String × String × String) (a : AppendArgs) : Bool :=
  (a.outcome = .authorized ∨ a.outcome = .error) ∧ a.triple = τ

/-- Every prefix of the log has at least as many intents as authorized and error entries. -/
def Balanced (log : List AppendArgs) : Prop :=
  ∀ τ P, P <+: log → P.countP (isClosing τ) ≤ P.countP (isIntent τ)

namespace Gateway

variable {K : Crates} {g : Gateway} {cn : String} {req : Request} {t : List (Ev gwSig)}
  {o : Option Response}

/-- The triple of a request. -/
def requestTriple (cn : String) (req : Request) : String × String × String :=
  (cn, opName req.operation, req.keyLabel)

theorem isIntent_intent : isIntent (requestTriple cn req) (entryFor cn req .intent "") = true := by
  simp [isIntent, entryFor, AppendArgs.triple, requestTriple]

/-- The counts of one request, finished or not. -/
theorem Run.counts (h : g.Run K cn req t o) (τ : String × String × String) :
    (entries t).countP (isClosing τ) ≤ (entries t).countP (isIntent τ) ∧
      (requestTriple cn req = τ → t.any isHsm = true → 1 ≤ (entries t).countP (isIntent τ)) := by
  -- a request that has its intent written, and nothing closed yet
  have hone : ∀ {l : List AppendArgs}, requestTriple cn req = τ →
      1 ≤ (entryFor cn req .intent "" :: l).countP (isIntent τ) := by
    rintro l rfl
    rw [List.countP_cons_of_pos isIntent_intent]
    omega
  cases h with
  | start => exact ⟨le_refl _, fun _ hh => by cases hh⟩
  | refused reason r _ =>
    refine ⟨?_, fun _ hh => by cases hh⟩
    rcases r with e | ⟨⟩
    · exact le_refl _
    · rw [entries_cons_ok, entries_nil, List.countP_cons_of_neg (by simp [isClosing, entryFor])]
      exact Nat.zero_le _
  | noIntent peer e _ => exact ⟨le_refl _, fun _ hh => by cases hh⟩
  | executing peer u q ha hu =>
    rw [intentOk, entries_cons_ok, entries_execute hu]
    refine ⟨?_, fun hτ _ => hone hτ⟩
    rw [List.countP_cons_of_neg (by simp [isClosing, entryFor])]
    exact Nat.zero_le _
  | closed peer u result r ha hu =>
    rw [intentOk, entries_cons_ok, entries_append, entries_execute hu, List.nil_append]
    refine ⟨?_, fun hτ _ => hone hτ⟩
    rw [List.countP_cons_of_neg (by simp [isClosing, entryFor])]
    by_cases hτ : requestTriple cn req = τ
    · refine le_trans ?_ (hone hτ)
      rcases r with e | ⟨⟩
      · exact Nat.zero_le _
      · exact List.countP_le_length
    · -- an entry about another triple does not count
      have hz : (entries [⟨.append (closing cn req result), r⟩]).countP (isClosing τ) = 0 := by
        rcases r with e | ⟨⟩
        · rfl
        · have hne : (closing cn req result).triple ≠ τ := by cases result <;> exact hτ
          rw [entries_cons_ok, entries_nil, List.countP_cons_of_neg (by simp [isClosing, hne]),
            List.countP_nil]
      rw [hz]
      exact Nat.zero_le _

end Gateway

/-! ### Any number of connections -/

/-- What a handler does at once: the certificate policy of a new connection, or a line. -/
inductive Task where
  | connect (cn : String) (validityDays daysLeft : Int)
  | request (cn line : String)

section Tasks

variable (K : Crates) (g : Gateway) (parse : String → Except String Request)

/-- Only a line has a response. -/
def Task.prog : Task → Prog gwSig (Option Response)
  | .connect cn validityDays daysLeft =>
    g.certPolicy cn validityDays daysLeft >>= fun _ => .ret none
  | .request cn line => g.processLine K parse cn line >>= fun resp => .ret (some resp)

/-- The triple a task is about. -/
def Task.triple : Task → Option (String × String × String)
  | .connect _ _ _ => none
  | .request cn line =>
    match parse line with
    | .error _ => none
    | .ok req => some (Gateway.requestTriple cn req)

variable {ι : Type}

/-- Tasks to be handled with the log at `log`. -/
def handling (log : List AppendArgs) (tasks : ι → Task) :
    Conf gwSig (List AppendArgs) ι (Option Response) :=
  ⟨log, fun i => (tasks i).prog K g parse, []⟩

/-- An append adds its entry or fails; the HSM answers as it likes. -/
def logAct (log : List AppendArgs) (ev : Ev gwSig) (log' : List AppendArgs) : Prop :=
  log' = log ++ (added ev).toList

/-- The tasks on this triple that have started an HSM call. -/
def started [DecidableEq ι] (tasks : ι → Task) (τ : String × String × String)
    (c : Conf gwSig (List AppendArgs) ι (Option Response)) : Finset ι :=
  (ids c.hist).filter fun i => (tasks i).triple parse = some τ ∧ (c.own i).any isHsm = true

end Tasks

section Counting

variable {K : Crates} {g : Gateway} {parse : String → Except String Request} {ι : Type}
  [DecidableEq ι] {log : List AppendArgs} {tasks : ι → Task}
  {c : Conf gwSig (List AppendArgs) ι (Option Response)}

/-- Entries that are neither a rejection of a certificate nor a warning about one do not
come from the certificate policy. -/
theorem countP_certPolicy {cn : String} {v d : Int} {t : List (Ev gwSig)} {p : Prog gwSig Bool}
    {q : AppendArgs → Bool}
    (hreject : q ⟨cn, "connect", "", .denied, "cert_policy_violation: validity exceeds maximum"⟩ =
      false)
    (hwarn : ∀ detail, q ⟨cn, "connect", "", .certExpiringSoon, detail⟩ = false)
    (h : Steps (g.certPolicy cn v d) t p) : (entries t).countP q = 0 := by
  -- at most one entry is written
  have hone : ∀ {a : AppendArgs} {b : Bool}, q a = false →
      Steps (S := gwSig) (.call (.append a) fun _ => .ret b) t p → (entries t).countP q = 0 := by
    intro a b ha h
    cases h with
    | refl => rfl
    | @call _ _ r _ _ h =>
      cases h
      rcases r with e | ⟨⟩
      · rfl
      · rw [entries_cons_ok, entries_nil, List.countP_singleton, ha]
        rfl
  rw [Gateway.certPolicy] at h
  split at h
  · exact hone hreject h
  · split at h
    · exact hone (hwarn _) h
    · cases h
      rfl

/-- A line that is handled is a request, and its run is one of `Run`. -/
theorem run_of_line {cn line : String} {t : List (Ev gwSig)} {p : Prog gwSig (Option Response)}
    (h : Steps (Task.prog K g parse (.request cn line)) t p) :
    (t = [] ∧ ∃ e, parse line = .error e) ∨
      ∃ req o, parse line = .ok req ∧ g.Run K cn req t o ∧
        ∀ resp, p = .ret (some resp) → o = some resp := by
  obtain ⟨p', h', rfl⟩ := Steps.of_map h
  rw [Gateway.processLine] at h'
  rcases hreq : parse line with e | req
  · rw [hreq] at h'
    cases h'
    exact Or.inl ⟨rfl, e, rfl⟩
  · rw [hreq] at h'
    obtain ⟨o, hrun, ho⟩ := Gateway.processRequest_run h'
    refine Or.inr ⟨req, o, rfl, hrun, fun resp hp => ho resp ?_⟩
    cases p' with
    | ret r =>
      cases hp
      rfl
    | call e k => cases hp

/-- The counts of one task, finished or not. -/
theorem Task.counts (task : Task) {t : List (Ev gwSig)} {p : Prog gwSig (Option Response)}
    (h : Steps (task.prog K g parse) t p) (τ : String × String × String) :
    (entries t).countP (isClosing τ) ≤ (entries t).countP (isIntent τ) ∧
      (task.triple parse = some τ → t.any isHsm = true →
        1 ≤ (entries t).countP (isIntent τ)) := by
  cases task with
  | connect cn v d =>
    obtain ⟨p', h', -⟩ := Steps.of_map h
    rw [countP_certPolicy (by simp [isClosing]) (by simp [isClosing]) h']
    exact ⟨Nat.zero_le _, fun hτ => by cases hτ⟩
  | request cn line =>
    rcases run_of_line h with ⟨rfl, -⟩ | ⟨req, o, hreq, hrun, -⟩
    · exact ⟨le_refl _, fun _ hh => by cases hh⟩
    · obtain ⟨hle, hone⟩ := hrun.counts τ
      refine ⟨hle, fun hτ => hone ?_⟩
      rw [Task.triple, hreq] at hτ
      exact Option.some_inj.mp hτ

/-- The log is what it was, and what the tasks have added. -/
theorem shared_eq (hc : Reach logAct anySchedule (handling K g parse log tasks) c) :
    c.shared = log ++ entries (c.hist.map Prod.snd) := by
  refine Reach.inv (fun c => c.shared = log ++ entries (c.hist.map Prod.snd)) ?_ ?_ hc
  · simp [handling]
  · intro c i e k r s' _ ih _ ha _
    rw [logAct] at ha
    rw [Conf.advance_shared, Conf.advance_hist, List.map_append, entries_append, ha, ih,
      List.append_assoc]
    rfl

/-- Counting in the log is counting task by task. -/
theorem countP_shared (hc : Reach logAct anySchedule (handling K g parse log tasks) c)
    (q : AppendArgs → Bool) :
    c.shared.countP q = log.countP q + ∑ i ∈ ids c.hist, (entries (c.own i)).countP q := by
  -- entries are counted by the events that add them
  have hfm : ∀ t : List (Ev gwSig), (entries t).countP q = t.countP fun ev => (added ev).any q := by
    intro t
    induction t with
    | nil => rfl
    | cons ev t ih =>
      rw [entries, List.filterMap_cons, List.countP_cons, ← ih, entries]
      rcases added ev with _ | a
      · rfl
      · rw [List.countP_cons]
        rfl
  rw [shared_eq hc, List.countP_append, hfm, List.countP_map]
  congr 1
  refine (countP_eq_sum (fun ev => (added ev).any q) c.hist).trans (Finset.sum_congr rfl ?_)
  intro i _
  exact (hfm (proj i c.hist)).symm

theorem closing_le_intent (hlog : Balanced log)
    (hc : Reach logAct anySchedule (handling K g parse log tasks) c)
    (τ : String × String × String) :
    c.shared.countP (isClosing τ) ≤ c.shared.countP (isIntent τ) := by
  rw [countP_shared hc, countP_shared hc]
  refine Nat.add_le_add (hlog τ log (List.prefix_refl _)) (Finset.sum_le_sum fun i _ => ?_)
  exact ((tasks i).counts (hc.own_steps rfl i) τ).1

/-- Every prefix of the log was the log at some point of the run. -/
theorem balanced_shared (hlog : Balanced log)
    (hc : Reach logAct anySchedule (handling K g parse log tasks) c) : Balanced c.shared := by
  refine Reach.inv (fun c => Balanced c.shared) hlog ?_ hc
  intro c i e k r s' hr ih hp ha hal τ P hP
  have hstep := closing_le_intent hlog (hr.step hp ha hal) τ
  rw [Conf.advance_shared] at hP hstep
  rw [logAct] at ha
  rcases hadd : added ⟨e, r⟩ with _ | a
  · rw [hadd, Option.toList_none, List.append_nil] at ha
    rw [ha] at hP
    exact ih τ P hP
  · rw [hadd, Option.toList_some] at ha
    rw [ha, List.prefix_concat_iff] at hP
    -- the only new prefix is the whole log
    rcases hP with rfl | hP
    · rwa [ha] at hstep
    · exact ih τ P hP

theorem card_started_le (hc : Reach logAct anySchedule (handling K g parse log tasks) c)
    (τ : String × String × String) :
    (started parse tasks τ c).card ≤ c.shared.countP (isIntent τ) := by
  rw [countP_shared hc, started, Finset.card_filter]
  refine le_trans (Finset.sum_le_sum fun i _ => ?_) (Nat.le_add_left _ _)
  split
  · rename_i h
    exact ((tasks i).counts (hc.own_steps rfl i) τ).2 h.1 h.2
  · exact Nat.zero_le _

/-- **The two-phase protocol.**  For any number of connections and lines, under every
interleaving, with appends that fail or not and an HSM that answers as it likes:
each finished line has added what `Audited` says, and a line that is no request nothing;
every prefix of the log has at least as many intents as authorized and error entries; and
on each triple no more requests have started an HSM call than there are intents. -/
theorem twoPhase (hlog : Balanced log)
    (hc : Reach logAct anySchedule (handling K g parse log tasks) c) :
    (∀ i cn line resp, tasks i = .request cn line → c.prog i = .ret (some resp) →
      (∀ req, parse line = .ok req → Gateway.Audited cn req (c.own i) resp) ∧
      ∀ e, parse line = .error e → entries (c.own i) = []) ∧
    Balanced c.shared ∧
    ∀ τ, (started parse tasks τ c).card ≤ c.shared.countP (isIntent τ) := by
  refine ⟨?_, balanced_shared hlog hc, card_started_le hc⟩
  intro i cn line resp hi hp
  have hsteps := hc.own_steps rfl i
  change Steps ((tasks i).prog K g parse) (c.own i) (c.prog i) at hsteps
  rw [hi] at hsteps
  rcases run_of_line hsteps with ⟨hnil, e, he⟩ | ⟨req, o, hreq, hrun, ho⟩
  -- a line that is no request has done nothing
  · rw [hnil]
    refine ⟨fun req hreq => ?_, fun _ _ => rfl⟩
    rw [he] at hreq
    cases hreq
  · refine ⟨fun req' hreq' => ?_, fun e he => ?_⟩
    · rw [hreq] at hreq'
      cases hreq'
      rw [ho resp hp] at hrun
      exact hrun.audited
    · rw [hreq] at he
      cases he

end Counting

/-! ### Two requests at once -/

/-- Two connections with the same signing request, and others that have just been made. -/
def sampleTasks : ℕ → Task
  | 0 => .request "app-a" (Ref.requestText Gateway.signRequest)
  | 1 => .request "app-a" (Ref.requestText Gateway.signRequest)
  | _ => .connect "app-b" 30 5

/-- The two requests in turns; the closing append of the first one is answered by `r`. -/
def bothSigning (r : Except String Unit) : List (ℕ × Ev gwSig) :=
  [(0, ⟨.append ⟨"app-a", "sign", "k1", .intent, ""⟩, .ok ()⟩),
    (1, ⟨.append ⟨"app-a", "sign", "k1", .intent, ""⟩, .ok ()⟩),
    (0, ⟨.spawn, .ran⟩), (1, ⟨.spawn, .ran⟩),
    (1, ⟨.hsm (.sign "k1" (utf8 "hello")), .ok [1, 2, 3, 4]⟩),
    (0, ⟨.hsm (.sign "k1" (utf8 "hello")), .ok [1, 2, 3, 4]⟩),
    (0, ⟨.append ⟨"app-a", "sign", "k1", .authorized, ""⟩, r⟩),
    (1, ⟨.append ⟨"app-a", "sign", "k1", .authorized, ""⟩, .ok ()⟩)]

theorem reach_bothSigning (r : Except String Unit) :
    ∃ c, Reach logAct anySchedule
        (handling Ref.crates Ref.gateway Ref.parseRequest [] sampleTasks) c ∧
      c.hist = bothSigning r ∧ ∀ i, i = 0 ∨ i = 1 →
        c.prog i = .ret (some (.ok (some "AQIDBA==") none none none)) := by
  have hfst : proj 0 (bothSigning r) = Gateway.signRun r := rfl
  have hsnd : proj 1 (bothSigning r) = Gateway.signRun (.ok ()) := rfl
  have hsteps : ∀ r', Steps (Task.prog Ref.crates Ref.gateway Ref.parseRequest
      (.request "app-a" (Ref.requestText Gateway.signRequest))) (Gateway.signRun r') _ := fun r' =>
    Steps.bind (f := fun resp => .ret (some resp)) (Gateway.steps_signRequest r') (.refl _)
  have hruns : ∀ i, ∃ p, Steps ((sampleTasks i).prog Ref.crates Ref.gateway Ref.parseRequest)
      (proj i (bothSigning r)) p := by
    intro i
    match i with
    | 0 => exact ⟨_, hfst ▸ hsteps r⟩
    | 1 => exact ⟨_, hsnd ▸ hsteps (.ok ())⟩
    | _ + 2 => exact ⟨_, .refl _⟩
  have hstart : (handling Ref.crates Ref.gateway Ref.parseRequest [] sampleTasks).hist = [] := rfl
  have hact : ∀ log ev, ∃ log', logAct log ev log' := fun log ev => ⟨_, rfl⟩
  obtain ⟨c, hc, hhist⟩ := Reach.interleave hstart hact hruns
  refine ⟨c, hc, hhist, fun i hi => ?_⟩
  have hown := hc.own_steps rfl i
  rw [Conf.own, hhist] at hown
  rcases hi with rfl | rfl
  · exact hown.unique (hsteps r)
  · exact hown.unique (hsteps (.ok ()))

theorem balanced_nil : Balanced [] := by
  intro τ P hP
  rw [List.prefix_nil.mp hP]
  exact le_refl _

theorem twoPhase_sampleTasks :
    ∃ c, Reach logAct anySchedule
        (handling Ref.crates Ref.gateway Ref.parseRequest [] sampleTasks) c ∧
      c.hist = bothSigning (.ok ()) ∧
      (∀ i, i = 0 ∨ i = 1 → Gateway.Audited "app-a" Gateway.signRequest (c.own i)
        (.ok (some "AQIDBA==") none none none)) ∧
      Balanced c.shared ∧
      ∀ τ, (started Ref.parseRequest sampleTasks τ c).card ≤ c.shared.countP (isIntent τ) := by
  obtain ⟨c, hc, hhist, hp⟩ := reach_bothSigning (.ok ())
  obtain ⟨haud, hbal, hcard⟩ := twoPhase balanced_nil hc
  refine ⟨c, hc, hhist, fun i hi => ?_, hbal, hcard⟩
  have htask : sampleTasks i = .request "app-a" (Ref.requestText Gateway.signRequest) := by
    rcases hi with rfl | rfl
    · rfl
    · rfl
  exact (haud i _ _ _ htask (hp i hi)).1 _ (Ref.parseRequest_requestText Gateway.signRequest)

end PicoHsm
