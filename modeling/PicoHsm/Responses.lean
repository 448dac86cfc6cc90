/-
One response per line.

`Answered lines t` says what a well-behaved connection does with the lines of a client:
in the trace `t`, one response on a line of its own for each line that is not blank, in
order, each behind the work done for it.

* `handleLines_answers` — what the loop does with lines of which some may not be text;
* `one_answer_iff` — a connection is well behaved exactly when they all are.
-/
import PicoHsm.Connection

namespace PicoHsm

open Text Effects

/-- A gateway event on a connection. -/
def liftEv (ev : Ev gwSig) : Ev connSig := ⟨.gw ev.op, ev.ret⟩

/-- A finished run of gateway code on a connection is one of the gateway code. -/
theorem steps_liftGw {α : Type} {p : Prog gwSig α} {t : List (Ev connSig)} {a : α}
    (h : (liftGw p).Steps t (.ret a)) : ∃ u, t = u.map liftEv ∧ p.Steps u (.ret a) := by
  induction p generalizing t with
  | ret b =>
    cases h
    exact ⟨[], rfl, .refl _⟩
  | call e k ih =>
    cases h with
    | @call _ _ r t _ h =>
      obtain ⟨u, rfl, hu⟩ := ih r h
      exact ⟨⟨e, r⟩ :: u, rfl, .call hu⟩

/-- Every write was taken. -/
def WritesOk (t : List (Ev connSig)) : Prop :=
  ∀ bytes r, (⟨.write bytes, r⟩ : Ev connSig) ∈ t → r = .ok ()

theorem WritesOk.append {t u : List (Ev connSig)} (h : WritesOk (t ++ u)) : WritesOk u :=
  fun bytes r hm => h bytes r (List.mem_append_right _ hm)

namespace Gateway

open Prog

variable (K : Crates) (g : Gateway) (parse : String → Except String Request)
  (toJson : Response → Except String String)

/-- The response is written to the client, on a line of its own. -/
def Writes (response : Response) (ev : Ev connSig) : Prop :=
  ev = ⟨.write (responseLine toJson response), .ok ()⟩ ∧
    lf ∉ utf8 (responseText toJson response)

/-- The lines are answered in order: nothing for a blank line, an `error` for a line
that is no text or no request, and `process_line`'s response for the others. -/
inductive Answered (cn : String) : List (List UInt8) → List (Ev connSig) → Prop where
  | nil : Answered cn [] []
  | blank {l : List UInt8} {line : String} {ls : List (List UInt8)} {t : List (Ev connSig)} :
      fromUtf8 l = some line → trim line = "" → Answered cn ls t → Answered cn (l :: ls) t
  | line {l : List UInt8} {line : String} {ls : List (List UInt8)} {u : List (Ev gwSig)}
      {response : Response} {ev : Ev connSig} {t : List (Ev connSig)} :
      fromUtf8 l = some line → trim line ≠ "" →
      Steps (g.processLine K parse cn line) u (.ret response) →
      (∀ e, parse line = .error e → response.status = .error) →
      Writes toJson response ev → Answered cn ls t →
      Answered cn (l :: ls) (u.map liftEv ++ ev :: t)
  | malformed {l : List UInt8} {ls : List (List UInt8)} {message : String} {ev : Ev connSig}
      {t : List (Ev connSig)} :
      fromUtf8 l = none → Writes toJson (.error message) ev → Answered cn ls t →
      Answered cn (l :: ls) (ev :: t)

/-- What a connection owes a client that sends `bytes`, while its writes are taken: it
can always go on to return, and when it has returned, it has done so normally, behind
answers to all lines. -/
structure OneAnswerPerLine (utf8Error : List UInt8 → String) (certs : PeerCertificates)
    (now : Int) (cn : String) (bytes : List UInt8) : Prop where
  returns : ∀ t q, Steps (g.handleConnection K parse toJson utf8Error certs now ⟨bytes, none⟩) t q →
    ∃ u r, Steps q u (.ret r) ∧ (WritesOk t → WritesOk (t ++ u))
  answers : ∀ t r,
    Steps (g.handleConnection K parse toJson utf8Error certs now ⟨bytes, none⟩) t (.ret r) →
    WritesOk t → r = .ok () ∧ ∃ pre u, t = pre ++ u ∧
      (∀ ev ∈ pre, ∃ days, ev.op = warning cn days) ∧ Answered K g parse toJson cn (lines bytes) u

variable {K g parse toJson}

/-- Whatever the answer of `process_line`, it goes on one line. -/
theorem lf_notMem_responseText (hJ : ∀ response s, toJson response = .ok s → lf ∉ utf8 s)
    (response : Response) : lf ∉ utf8 (responseText toJson response) := by
  rw [responseText]
  rcases h : toJson response with e | s
  · dsimp only
    decide
  · exact hJ response s h

/-- What is not a request is answered with an error. -/
theorem status_of_not_request {cn line : String} {u : List (Ev gwSig)} {response : Response}
    (h : Steps (g.processLine K parse cn line) u (.ret response)) (e : String)
    (he : parse line = .error e) : response.status = .error := by
  rw [processLine, he] at h
  cases h
  rfl

/-- The loop answers its lines if they all are text, and fails otherwise. -/
theorem handleLines_answers (hJ : ∀ response s, toJson response = .ok s → lf ∉ utf8 s)
    {cn : String} {ls : List (List UInt8)} {t : List (Ev connSig)} {r : Except String Unit}
    (h : Steps (g.handleLines K parse toJson cn none ls) t (.ret r)) (hw : WritesOk t) :
    ((∀ l ∈ ls, fromUtf8 l ≠ none) → r = .ok () ∧ Answered K g parse toJson cn ls t) ∧
      ((∃ l ∈ ls, fromUtf8 l = none) → r = .error notUtf8) := by
  induction ls generalizing t with
  | nil =>
    cases h
    exact ⟨fun _ => ⟨rfl, .nil⟩, fun ⟨_, hl, _⟩ => absurd hl (by simp)⟩
  | cons l ls ih =>
    rw [handleLines] at h
    rcases hl : fromUtf8 l with _ | line
    · rw [hl] at h
      cases h
      exact ⟨fun hall => absurd hl (hall l List.mem_cons_self), fun _ => rfl⟩
    rw [hl] at h
    dsimp only at h
    -- this line is text, so the others decide
    have hrest : (∃ l' ∈ l :: ls, fromUtf8 l' = none) → ∃ l' ∈ ls, fromUtf8 l' = none := by
      rintro ⟨l', hl', hn⟩
      rcases List.mem_cons.mp hl' with rfl | hl'
      · exact absurd hn (by rw [hl]; simp)
      · exact ⟨l', hl', hn⟩
    by_cases hb : trim line = ""
    · rw [if_pos hb] at h
      obtain ⟨ih₁, ih₂⟩ := ih h hw
      refine ⟨fun hall => ?_, fun hex => ih₂ (hrest hex)⟩
      obtain ⟨hr, ha⟩ := ih₁ fun l' hl' => hall l' (List.mem_cons_of_mem _ hl')
      exact ⟨hr, .blank hl hb ha⟩
    · rw [if_neg hb] at h
      obtain ⟨t₁, t₂, response, rfl, h₁, h₂⟩ := h.bind_ret
      obtain ⟨u, rfl, hu⟩ := steps_liftGw h₁
      cases h₂ with
      | @call _ _ w t _ h₂ =>
        -- the response was taken, so the loop goes on
        obtain rfl : w = .ok () := hw _ _ (List.mem_append_right _ List.mem_cons_self)
        have hw' : WritesOk t := fun bytes r hm =>
          hw bytes r (List.mem_append_right _ (List.mem_cons_of_mem _ hm))
        obtain ⟨ih₁, ih₂⟩ := ih h₂ hw'
        refine ⟨fun hall => ?_, fun hex => ih₂ (hrest hex)⟩
        obtain ⟨hr, ha⟩ := ih₁ fun l' hl' => hall l' (List.mem_cons_of_mem _ hl')
        exact ⟨hr, .line hl hb hu (status_of_not_request hu)
          ⟨rfl, lf_notMem_responseText hJ response⟩ ha⟩

/-- A program on a connection can always be run to its end with its writes taken. -/
theorem exists_finish (q : Prog connSig (Except String Unit)) :
    ∃ u r, Steps q u (.ret r) ∧ WritesOk u := by
  refine ⟨_, _, steps_exec Ref.obligingConn q, fun bytes r hm => ?_⟩
  exact ret_of_mem_exec hm

variable {utf8Error : List UInt8 → String} {certs : PeerCertificates} {cert : LeafCert}
  {cn : String}

/-- A finished run of an accepted connection is one of the loop, behind a warning or
not. -/
theorem steps_accepted (hp : Presents utf8Error certs cert cn)
    (hacc : numDays (cert.notAfter * nanosPerSec - cert.notBefore * nanosPerSec) ≤
      g.maxCertValidityDays) {now : Int} {inc : Incoming} {t : List (Ev connSig)}
    {r : Except String Unit}
    (h : Steps (g.handleConnection K parse toJson utf8Error certs now inc) t (.ret r)) :
    ∃ pre u, t = pre ++ u ∧ (∀ ev ∈ pre, ∃ days, ev.op = warning cn days) ∧
      Steps (g.handleLines K parse toJson cn inc.failure inc.lines) u (.ret r) := by
  rw [handleConnection_eq hp, if_neg (not_lt.mpr hacc)] at h
  split at h
  · cases h with
    | @call _ _ w u _ h =>
      refine ⟨[⟨_, w⟩], u, rfl, fun ev hev => ?_, h⟩
      rw [List.mem_singleton] at hev
      subst hev
      exact ⟨_, rfl⟩
  · exact ⟨[], t, rfl, by simp, h⟩

/-- **One response per line.**  On an accepted connection whose client sends `bytes`,
every line that is not blank is answered by one line, in order, and the connection ends
with the stream, if and only if all lines are valid UTF-8. -/
theorem one_answer_iff (hJ : ∀ response s, toJson response = .ok s → lf ∉ utf8 s)
    (hp : Presents utf8Error certs cert cn)
    (hacc : numDays (cert.notAfter * nanosPerSec - cert.notBefore * nanosPerSec) ≤
      g.maxCertValidityDays) (now : Int) (bytes : List UInt8) :
    g.OneAnswerPerLine K parse toJson utf8Error certs now cn bytes ↔
      ∀ l ∈ lines bytes, fromUtf8 l ≠ none := by
  constructor
  · intro hone l hl hnone
    obtain ⟨t, r, hrun, hw⟩ := exists_finish
      (g.handleConnection K parse toJson utf8Error certs now ⟨bytes, none⟩)
    obtain ⟨pre, u, rfl, -, hu⟩ := steps_accepted hp hacc hrun
    have hr := (handleLines_answers hJ hu hw.append).2 ⟨l, hl, hnone⟩
    rw [(hone.answers _ r hrun hw).1] at hr
    exact absurd hr (by simp)
  · intro hall
    refine ⟨fun t q _ => ?_, fun t r hrun hw => ?_⟩
    · obtain ⟨u, r, hu, hw⟩ := exists_finish q
      refine ⟨u, r, hu, fun ht bytes r hm => ?_⟩
      rcases List.mem_append.mp hm with hm | hm
      · exact ht bytes r hm
      · exact hw bytes r hm
    · obtain ⟨pre, u, rfl, hpre, hu⟩ := steps_accepted hp hacc hrun
      obtain ⟨hr, ha⟩ := (handleLines_answers hJ hu hw.append).1 hall
      exact ⟨hr, pre, u, rfl, hpre, ha⟩

/-- A request, a blank line and a line that is no request. -/
def threeLines : List UInt8 :=
  utf8 (Ref.requestText (.sign "k1" "ecdsa_sha256" "aGVsbG8=") ++ "\r\n \nhello")

theorem one_answer_threeLines :
    Ref.gateway.OneAnswerPerLine Ref.crates Ref.parseRequest Ref.responseJson (fun _ => "")
      (some [.ok (Ref.certFor (30 * 86400))]) 0 "app-a" threeLines := by
  refine (one_answer_iff Ref.responseJson_noBreak (Ref.presents_certFor (by decide)) (by decide) 0
    threeLines).mpr ?_
  have hlines : lines threeLines =
      [Ref.requestText (.sign "k1" "ecdsa_sha256" "aGVsbG8="), " ", "hello"].map utf8 := by
    decide +kernel
  rw [hlines]
  intro l hl
  obtain ⟨s, -, rfl⟩ := List.mem_map.mp hl
  rw [fromUtf8_utf8]
  simp

/-- A line that starts with the byte `0xff`, which is no UTF-8, then a request. -/
def brokenLine : List UInt8 := 0xff :: utf8 "\nx\n"

/-- Behind the broken line the connection is closed: nothing is answered, and it returns
an error with a line still to read. -/
theorem not_one_answer_brokenLine :
    (∃ r, Steps (Ref.gateway.handleConnection Ref.crates Ref.parseRequest Ref.responseJson
        (fun _ => "") (some [.ok (Ref.certFor (30 * 86400))]) 0 ⟨brokenLine, none⟩) [] (.ret r) ∧
      r = .error notUtf8) ∧
      ¬ Ref.gateway.OneAnswerPerLine Ref.crates Ref.parseRequest Ref.responseJson (fun _ => "")
        (some [.ok (Ref.certFor (30 * 86400))]) 0 "app-a" brokenLine := by
  have hrun : Steps (Ref.gateway.handleConnection Ref.crates Ref.parseRequest Ref.responseJson
      (fun _ => "") (some [.ok (Ref.certFor (30 * 86400))]) 0 ⟨brokenLine, none⟩) []
      (.ret (.error notUtf8)) := by
    have hlines : Incoming.lines ⟨brokenLine, none⟩ = [[0xff], utf8 "x"] := by decide
    have hnone : fromUtf8 [0xff] = none := by decide
    rw [handleConnection_eq (Ref.presents_certFor (by decide)), if_neg (by decide),
      if_neg (by decide), hlines, handleLines, hnone]
    exact .refl _
  refine ⟨⟨_, hrun, rfl⟩, fun hone => ?_⟩
  exact absurd (hone.answers _ _ hrun fun _ _ hm => absurd hm (by simp)).1 (by simp)

end Gateway

end PicoHsm
