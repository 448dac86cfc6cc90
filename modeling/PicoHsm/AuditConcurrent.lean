/-
Concurrent appends to one audit log.

`AuditLog::append` decides its link in one critical section (it reads
`last_hash_b64`), writes its line in a second one and stores the new hash in a third.
Between the first and the third another handler may come in.

* `append_oneAtATime` — if no call reads `last_hash_b64` while another one is between
  its read and its return, the log is in step whenever no call is running, under
  every schedule of any number of calls;
* `append_race` — two calls that both read before either writes leave a log that
  `verify_chain` refuses.
-/
import PicoHsm.AuditRuns
import PicoHsm.Pool

namespace PicoHsm

open Text Effects

/-! ### Where a call stands -/

/-- A write that failed. -/
def failedWrite : Ev auditSig → Prop
  | ⟨.writeLine _, .error _⟩ => True
  | _ => False

/-- The log, on a disk that takes every write. -/
def LogState.actOk (s : LogState) (ev : Ev auditSig) (s' : LogState) : Prop :=
  s.act ev s' ∧ ¬ failedWrite ev

/-- The points of `append` between two operations, with what it has read. -/
inductive Phase where
  | fresh
  | stamped (ts : String)
  | linked (ts prev : String)
  | written (ts prev : String)
  | stored (ts prev : String)

/-- The call has read `last_hash_b64` and has not returned. -/
def Phase.Linking : Phase → Prop
  | .linked _ _ => True
  | .written _ _ => True
  | _ => False

/-- The call has read `last_hash_b64`. -/
def Phase.HasRead : Phase → Prop
  | .fresh => False
  | .stamped _ => False
  | _ => True

theorem Phase.Linking.hasRead {ph : Phase} (h : ph.Linking) : ph.HasRead := by
  cases ph with
  | linked ts prev => trivial
  | written ts prev => trivial
  | fresh => exact h.elim
  | stamped ts => exact h.elim
  | stored ts prev => exact h.elim

section Phases

variable (K : Crates) (J : Json Entry) (path : String)

/-- What is left of the call at each point. -/
def Phase.prog (a : AppendArgs) : Phase → Prog auditSig (Except String Unit)
  | .fresh => append K J path a
  | .stamped ts => .call .lastHash fun (prev : String) =>
    match J.toString (a.entry K ts prev) with
    | .error e => .ret (.error (withContext "audit serialize error" e))
    | .ok line => storeLine K path (a.entry K ts prev) line
  | .linked ts prev =>
    match J.toString (a.entry K ts prev) with
    | .error e => .ret (.error (withContext "audit serialize error" e))
    | .ok line => storeLine K path (a.entry K ts prev) line
  | .written ts prev => .call (.setLastHash (a.entry K ts prev).hashB64) fun _ => .ret (.ok ())
  | .stored _ _ => .ret (.ok ())

/-- One operation of a call, on a disk that takes every write. -/
inductive Phase.Step (a : AppendArgs) (s : LogState) : Phase → LogState → Phase → Prop where
  | now (ts : String) : Step a s .fresh s (.stamped ts)
  | lastHash {ts : String} : Step a s (.stamped ts) s (.linked ts s.lastHashB64)
  | writeLine {ts prev line : String} : J.toString (a.entry K ts prev) = .ok line →
      Step a s (.linked ts prev) { s with file := s.file ++ lineBytes line } (.written ts prev)
  | setLastHash {ts prev : String} : Step a s (.written ts prev)
      { s with lastHashB64 := (a.entry K ts prev).hashB64 } (.stored ts prev)

end Phases

section Concurrent

variable {K : Crates} {J : Json Entry} {path : String}

/-- What one operation of one call can do. -/
theorem Phase.step_of_act (hJ : J.Lawful) {a : AppendArgs} {ph : Phase} {s s' : LogState}
    {e : AuditOp} {k : AuditOp.Ret e → Prog auditSig (Except String Unit)} {r : AuditOp.Ret e}
    (hp : ph.prog K J path a = .call e k) (ha : s.actOk ⟨e, r⟩ s') :
    ∃ ph', Phase.Step K J a s ph s' ph' ∧ k r = ph'.prog K J path a ∧
      (e = .lastHash ↔ ∃ ts, ph = .stamped ts) := by
  obtain ⟨hact, hok⟩ := ha
  cases ph with
  | fresh =>
    cases hp
    obtain rfl : s' = s := hact
    exact ⟨.stamped r, .now r, rfl, by simp⟩
  | stamped ts =>
    cases hp
    obtain ⟨hr, rfl⟩ : r = s.lastHashB64 ∧ s' = s := hact
    subst hr
    exact ⟨.linked ts s'.lastHashB64, .lastHash, rfl, by simp⟩
  | linked ts prev =>
    -- every entry serializes, so the next operation is the write
    obtain ⟨line, hl, -⟩ := hJ.fromStr_toString (a.entry K ts prev)
    rw [Phase.prog, hl] at hp
    cases hp
    rcases r with e | u
    · exact absurd trivial hok
    · obtain rfl : s' = { s with file := s.file ++ lineBytes line } := hact
      exact ⟨.written ts prev, .writeLine hl, rfl, by simp⟩
  | written ts prev =>
    cases hp
    obtain rfl : s' = { s with lastHashB64 := (a.entry K ts prev).hashB64 } := hact
    exact ⟨.stored ts prev, .setLastHash, rfl, by simp⟩
  | stored ts prev => cases hp

/-- Between its read and its return a call has an operation to issue. -/
theorem Phase.Linking.not_ret (hJ : J.Lawful) {a : AppendArgs} {ph : Phase} (h : ph.Linking)
    (r : Except String Unit) : ph.prog K J path a ≠ .ret r := by
  intro hp
  cases ph with
  | linked ts prev =>
    obtain ⟨line, hl, -⟩ := hJ.fromStr_toString (a.entry K ts prev)
    rw [Phase.prog, hl] at hp
    cases hp
  | written ts prev => cases hp
  | fresh => exact h
  | stamped ts => exact h
  | stored ts prev => exact h

/-! ### The log while calls are running -/

variable {ι : Type}

/-- Only call `i`, if any, is between its read and its return. -/
def OnlyLinking (ph : ι → Phase) (i : ι) : Prop := ∀ j, j ≠ i → ¬ (ph j).Linking

variable (K J) in
/-- The log `s` with entries `es`, while call `i` stands at `ph i`: nobody is between
read and return; or one call is, and has read the hash that is in memory; or one call
is, and has put the file one entry ahead of the memory. -/
inductive InStep (a : ι → AppendArgs) (s : LogState) (ph : ι → Phase) (es : List Entry) :
    Prop where
  | idle : (∀ j, ¬ (ph j).Linking) → s.Holds K J es → InStep a s ph es
  | linked (i : ι) (ts : String) : ph i = .linked ts s.lastHashB64 → OnlyLinking ph i →
      s.Holds K J es → InStep a s ph es
  | written (i : ι) (ts prev : String) : ph i = .written ts prev → OnlyLinking ph i →
      LogState.Holds K J { s with lastHashB64 := ((a i).entry K ts prev).hashB64 } es →
      InStep a s ph es

variable [DecidableEq ι] {a : ι → AppendArgs} {s s' : LogState} {ph : ι → Phase}
  {es : List Entry}

theorem OnlyLinking.update {i : ι} (h : OnlyLinking ph i) (p : Phase) :
    OnlyLinking (Function.update ph i p) i := by
  intro j hj
  rw [Function.update_of_ne hj]
  exact h j hj

/-- A call that is not between read and return does not count. -/
theorem OnlyLinking.update_other {i j : ι} (h : OnlyLinking ph i) {p : Phase}
    (hp : ¬ p.Linking) : OnlyLinking (Function.update ph j p) i := by
  intro k hk
  rcases eq_or_ne k j with rfl | hkj
  · rwa [Function.update_self]
  · rw [Function.update_of_ne hkj]
    exact h k hk

theorem not_linking_update {i : ι} (h : OnlyLinking ph i) {p : Phase} (hp : ¬ p.Linking)
    (j : ι) : ¬ (Function.update ph i p j).Linking := by
  rcases eq_or_ne j i with rfl | hj
  · rwa [Function.update_self]
  · exact h.update p j hj

/-- Every operation of a call keeps the log in step, if `last_hash_b64` is read only
while no other call is between its read and its return. -/
theorem InStep.step (hJ : J.Lawful) (h : InStep K J a s ph es) {i : ι} {p : Phase}
    (hst : Phase.Step K J (a i) s (ph i) s' p)
    (hsolo : (∃ ts, ph i = .stamped ts) → ∀ j, ¬ (ph j).Linking) :
    ∃ es', InStep K J a s' (Function.update ph i p) es' := by
  generalize hq : ph i = q at hst
  -- the call whose turn it is cannot be at two points at once
  have hpos : ∀ {j : ι} {q' : Phase}, ph j = q' → q ≠ q' → j ≠ i := by
    rintro j q' hj hqq rfl
    exact hqq (hq.symm.trans hj)
  cases hst with
  | now ts =>
    refine ⟨es, ?_⟩
    cases h with
    | idle hn hh =>
      exact .idle (not_linking_update (fun j _ => hn j) (by simp [Phase.Linking])) hh
    | linked j ts' hj ho hh =>
      refine .linked j ts' ?_ (ho.update_other (by simp [Phase.Linking])) hh
      rwa [Function.update_of_ne (hpos hj (by simp))]
    | written j ts' prev hj ho hh =>
      refine .written j ts' prev ?_ (ho.update_other (by simp [Phase.Linking])) hh
      rwa [Function.update_of_ne (hpos hj (by simp))]
  | @lastHash ts =>
    have hn := hsolo ⟨ts, hq⟩
    cases h with
    | idle _ hh =>
      exact ⟨es, .linked i ts (Function.update_self i _ ph) (OnlyLinking.update (fun j _ => hn j) _)
        hh⟩
    | linked j ts' hj ho hh => exact absurd (by rw [hj]; trivial) (hn j)
    | written j ts' prev hj ho hh => exact absurd (by rw [hj]; trivial) (hn j)
  | @writeLine ts prev line hl =>
    cases h with
    | idle hn hh => exact absurd (by rw [hq]; trivial) (hn i)
    | linked j ts' hj ho hh =>
      obtain rfl : i = j := by
        by_contra hij
        exact ho i hij (by rw [hq]; trivial)
      obtain ⟨rfl, rfl⟩ : ts = ts' ∧ prev = s.lastHashB64 := by
        simpa using hq.symm.trans hj
      exact ⟨_, .written i ts _ (Function.update_self i _ ph) (ho.update _) (hh.append hJ hl)⟩
    | written j ts' prev' hj ho hh =>
      exact absurd (by rw [hq]; trivial) (ho i (hpos hj (by simp)).symm)
  | @setLastHash ts prev =>
    cases h with
    | idle hn hh => exact absurd (by rw [hq]; trivial) (hn i)
    | linked j ts' hj ho hh =>
      exact absurd (by rw [hq]; trivial) (ho i (hpos hj (by simp)).symm)
    | written j ts' prev' hj ho hh =>
      obtain rfl : i = j := by
        by_contra hij
        exact ho i hij (by rw [hq]; trivial)
      obtain ⟨rfl, rfl⟩ : ts = ts' ∧ prev = prev' := by
        simpa using hq.symm.trans hj
      exact ⟨es, .idle (not_linking_update ho (by simp [Phase.Linking])) hh⟩

/-! ### Runs -/

/-- Calls of `append` on one log. -/
def appends (K : Crates) (J : Json Entry) (path : String) (s : LogState) (a : ι → AppendArgs) :
    Conf auditSig LogState ι (Except String Unit) :=
  ⟨s, fun i => append K J path (a i), []⟩

/-- Call `i` has read `last_hash_b64`. -/
def HasRead (c : Conf auditSig LogState ι (Except String Unit)) (i : ι) : Prop :=
  ∃ h : String, (⟨.lastHash, h⟩ : Ev auditSig) ∈ c.own i

/-- `last_hash_b64` is read only when every call that has read it has returned. -/
def oneAtATime (c : Conf auditSig LogState ι (Except String Unit)) (_ : ι) (ev : Ev auditSig) :
    Prop :=
  ev.op = .lastHash → ∀ j, HasRead c j → c.Done j

variable {c c₀ : Conf auditSig LogState ι (Except String Unit)}

variable (K J path) in
/-- The calls of `c` stand at the points `ph`, and the log is in step with them. -/
structure Tracks (a : ι → AppendArgs) (c : Conf auditSig LogState ι (Except String Unit))
    (ph : ι → Phase) : Prop where
  prog : ∀ i, c.prog i = (ph i).prog K J path (a i)
  read : ∀ i, HasRead c i ↔ (ph i).HasRead
  inStep : ∃ es, InStep K J a c.shared ph es

theorem hasRead_advance_self {i : ι} {ev : Ev auditSig} {p : Prog auditSig (Except String Unit)} :
    HasRead (c.advance i ev s p) i ↔ HasRead c i ∨ ev.op = .lastHash := by
  obtain ⟨e, r⟩ := ev
  rw [HasRead, Conf.advance_own_self]
  simp only [List.mem_append, List.mem_singleton, exists_or]
  refine or_congr Iff.rfl ⟨?_, ?_⟩
  · rintro ⟨h, heq⟩
    cases heq
    rfl
  · rintro rfl
    exact ⟨r, rfl⟩

theorem hasRead_advance_ne {i j : ι} (h : j ≠ i) {ev : Ev auditSig}
    {p : Prog auditSig (Except String Unit)} :
    HasRead (c.advance i ev s p) j ↔ HasRead c j := by
  rw [HasRead, Conf.advance_own_ne c h, HasRead]

theorem Phase.Step.hasRead {b : AppendArgs} {q p : Phase} (h : Phase.Step K J b s q s' p) :
    p.HasRead ↔ q.HasRead ∨ ∃ ts, q = .stamped ts := by
  cases h <;> simp [Phase.HasRead]

/-- One operation of one call. -/
theorem Tracks.step (hJ : J.Lawful) (h : Tracks K J path a c ph) {i : ι} {e : AuditOp}
    {k : AuditOp.Ret e → Prog auditSig (Except String Unit)} {r : AuditOp.Ret e}
    (hp : c.prog i = .call e k) (ha : c.shared.actOk ⟨e, r⟩ s')
    (hal : oneAtATime c i ⟨e, r⟩) :
    ∃ p, Tracks K J path a (c.advance i ⟨e, r⟩ s' (k r)) (Function.update ph i p) := by
  obtain ⟨p, hst, hk, hread⟩ := Phase.step_of_act hJ ((h.prog i).symm.trans hp) ha
  refine ⟨p, ?_, ?_, ?_⟩
  · intro j
    rcases eq_or_ne j i with rfl | hj
    · rw [Conf.advance_prog_self, Function.update_self, hk]
    · rw [Conf.advance_prog_ne c hj, Function.update_of_ne hj]
      exact h.prog j
  · intro j
    rcases eq_or_ne j i with rfl | hj
    · rw [Function.update_self, hasRead_advance_self, hst.hasRead, h.read]
      exact or_congr Iff.rfl hread
    · rw [Function.update_of_ne hj, hasRead_advance_ne hj]
      exact h.read j
  · obtain ⟨es, hes⟩ := h.inStep
    refine hes.step hJ hst fun hstamped j hl => ?_
    -- a call between its read and its return has not returned, so this read is not allowed
    obtain ⟨v, hv⟩ := hal (hread.mpr hstamped) j ((h.read j).mpr hl.hasRead)
    exact hl.not_ret hJ v ((h.prog j).symm.trans hv)

/-- **Appends that do not overlap between read and return.**  From a log that
`verify_chain` accepts and that ends in a line feed, under every schedule of any
number of calls in which `last_hash_b64` is read only when every call that has read
it has returned: whenever no call is running, `verify_chain` accepts the file and
returns the hash in memory. -/
theorem append_oneAtATime (hJ : J.Lawful) (hT : Terminated s.file)
    (hv : verifyChain K J path (.content s.file) = .ok s.lastHashB64)
    (hc : Reach LogState.actOk oneAtATime (appends K J path s a) c)
    (hq : ∀ i, ¬ c.InFlight i) :
    verifyChain K J path (.content c.shared.file) = .ok c.shared.lastHashB64 := by
  obtain ⟨es, hes, hck⟩ := verifyChain_ok.mp hv
  have hinv : ∃ ph, Tracks K J path a c ph := by
    refine Reach.inv (fun c => ∃ ph, Tracks K J path a c ph) ?_ ?_ hc
    · refine ⟨fun _ => .fresh, fun i => rfl, fun i => ?_, es, .idle (fun j => id) ⟨hT, hes, hck⟩⟩
      simp [HasRead, appends, Conf.own, Phase.HasRead]
    · rintro c i e k r s' - ⟨ph, h⟩ hp ha hal
      obtain ⟨p, h'⟩ := h.step hJ hp ha hal
      exact ⟨_, h'⟩
  obtain ⟨ph, h⟩ := hinv
  have hnone : ∀ i, ¬ (ph i).Linking := by
    intro i hl
    -- a call between its read and its return is in flight
    obtain ⟨x, hx⟩ := (h.read i).mpr hl.hasRead
    refine hq i ⟨List.ne_nil_of_mem hx, ?_⟩
    rintro ⟨v, hvi⟩
    exact hl.not_ret hJ v ((h.prog i).symm.trans hvi)
  obtain ⟨es', hes'⟩ := h.inStep
  cases hes' with
  | idle _ hh => exact hh.verifyChain
  | linked i ts hi _ _ => exact absurd (by rw [hi]; trivial) (hnone i)
  | written i ts prev hi _ _ => exact absurd (by rw [hi]; trivial) (hnone i)

end Concurrent

/-! ### Two handlers -/

/-- The intents of two requests. -/
def twoIntents : Bool → AppendArgs
  | false => ⟨"app-a", "sign", "k1", .intent, ""⟩
  | true => ⟨"app-b", "sign", "k1", .intent, ""⟩

/-- Two calls on a fresh log. -/
def twoAppends : Conf auditSig LogState Bool (Except String Unit) :=
  appends Ref.crates Ref.entryJson "audit.jsonl" ⟨[], genesis⟩ twoIntents

/-- The log's answers, at a fixed time and without faults. -/
def LogState.answer : LogState → (e : AuditOp) → AuditOp.Ret e × LogState :=
  LogState.handle "2026-01-01T00:00:00.000Z" none

theorem LogState.actOk_answer (s : LogState) (e : AuditOp) :
    s.actOk ⟨e, (s.answer e).1⟩ (s.answer e).2 := by
  refine ⟨LogState.act_handle _ _ s e, ?_⟩
  cases e <;> exact id

/-- The second call starts while the first one is running, but reads the last hash
when it has returned. -/
theorem append_oneAtATime_twoAppends :
    verifyChain Ref.crates Ref.entryJson "audit.jsonl"
      (.content (twoAppends.exec LogState.answer
        [false, true, false, false, false, true, true, true]).shared.file) =
      .ok (twoAppends.exec LogState.answer
        [false, true, false, false, false, true, true, true]).shared.lastHashB64 := by
  have h₀ : Reach LogState.actOk oneAtATime twoAppends twoAppends := .init
  have h₁ := h₀.turn (i := false) LogState.actOk_answer (fun _ _ hp hl => by cases hp; cases hl)
  have h₂ := h₁.turn (i := true) LogState.actOk_answer (fun _ _ hp hl => by cases hp; cases hl)
  have h₃ := h₂.turn (i := false) LogState.actOk_answer (fun _ _ _ _ j hj => by
    obtain ⟨h, hj⟩ := hj
    cases j <;> cases hj <;> rename_i hj <;> cases hj)
  have h₄ := h₃.turn (i := false) LogState.actOk_answer (fun _ _ hp hl => by cases hp; cases hl)
  have h₅ := h₄.turn (i := false) LogState.actOk_answer (fun _ _ hp hl => by cases hp; cases hl)
  have h₆ := h₅.turn (i := true) LogState.actOk_answer (fun _ _ _ _ j hj => by
    cases j with
    | false => exact ⟨.ok (), rfl⟩
    | true =>
      obtain ⟨h, hj⟩ := hj
      cases hj
      rename_i hj
      cases hj)
  have h₇ := h₆.turn (i := true) LogState.actOk_answer (fun _ _ hp hl => by cases hp; cases hl)
  have h₈ := h₇.turn (i := true) LogState.actOk_answer (fun _ _ hp hl => by cases hp; cases hl)
  refine append_oneAtATime Ref.entryJson_lawful terminated_nil rfl h₈ ?_
  rintro i ⟨-, hnd⟩
  exact hnd ⟨.ok (), by cases i <;> rfl⟩

/-- The entry of call `i` if it reads `GENESIS`. -/
def forkEntry (i : Bool) : Entry :=
  (twoIntents i).entry Ref.crates "2026-01-01T00:00:00.000Z" genesis

/-- Both entries link to `GENESIS`, but the first one's hash is not `GENESIS`. -/
theorem check_forkEntry :
    HashChain.check (Entry.links Ref.crates) genesis [forkEntry false, forkEntry true] = none := by
  have hlen : (forkEntry false).hashB64.length = 44 := Ref.encode_digest_length _
  have hne : (forkEntry true).prevHashB64 ≠ (forkEntry false).hashB64 := by
    intro h
    rw [← h] at hlen
    exact absurd hlen (by decide)
  rcases hc : HashChain.check (Entry.links Ref.crates) genesis [forkEntry false, forkEntry true]
    with _ | h
  · rfl
  · exact absurd (HashChain.check_cons.mp (HashChain.check_cons.mp hc).2.2).1 hne

/-- **A lost link.**  Two calls read `last_hash_b64` before either of them writes.
When both have returned, the second line links to `GENESIS` and not to the first, and
`verify_chain` refuses the file. -/
theorem append_race :
    ∃ c, Reach LogState.actOk anySchedule twoAppends c ∧ (∀ i, c.prog i = .ret (.ok ())) ∧
      ∃ e, verifyChain Ref.crates Ref.entryJson "audit.jsonl" (.content c.shared.file) =
        .error e := by
  refine ⟨twoAppends.exec LogState.answer [false, true, false, true, false, true, false, true],
    Reach.init.exec LogState.actOk_answer _, fun i => by cases i <;> rfl, ?_⟩
  have hT : Terminated (([] : List UInt8) ++
      lineBytes (String.ofList (Ref.writeEntry (forkEntry false)))) :=
    terminated_nil.append (terminated_lineBytes Ref.entryJson_lawful rfl)
  have hp : parseLog Ref.entryJson (twoAppends.exec LogState.answer
      [false, true, false, true, false, true, false, true]).shared.file =
      some [forkEntry false, forkEntry true] :=
    parseLog_append_line Ref.entryJson_lawful hT
      (parseLog_append_line Ref.entryJson_lawful terminated_nil rfl rfl) rfl
  rcases hv : verifyChain Ref.crates Ref.entryJson "audit.jsonl" (.content (twoAppends.exec
      LogState.answer [false, true, false, true, false, true, false, true]).shared.file) with e | h
  · exact ⟨e, hv⟩
  · obtain ⟨es, hes, hck⟩ := verifyChain_ok.mp hv
    rw [FileRead.entries, hp, Option.some.injEq] at hes
    rw [← hes, check_forkEntry] at hck
    exact absurd hck (by simp)

end PicoHsm
