/-
The audit protocol on the file.

In `AuditProtocol.lean` an append is one atomic step.  Here it is what
`AuditLog::append` does: the clock, the read of `last_hash_b64`, the write of the
line and the store of the new hash, each a step of its own between which the other
handlers run.  The disk is one on which a write that fails leaves nothing: a line is
written whole or not at all, and no flush fails (`AuditRuns.lean` says what torn lines do).

* `appends_linearize` — an append takes effect at its write: every interleaved run on
  the file is a run of the atomic log, whose entries are those of the file after every
  step (instance of `Linearizes`);
* `twoPhase_onDisk` — so the counting invariant of the two-phase protocol holds of the
  file, after every step and under every schedule;
* `restart_onDisk` — if moreover `last_hash_b64` is read only while no other append is
  between its read and its return, the file can be opened again after every step, however
  often the gateway has been cut off between steps and started again.
-/
import PicoHsm.AuditConcurrent
import PicoHsm.AuditProtocol
import PicoHsm.Linearize

namespace PicoHsm

open Text Effects Prog

/-! ### Appends, spelled out -/

inductive DiskOp where
  /-- One critical section of `AuditLog::append`. -/
  | log (op : AuditOp)
  | spawn
  | hsm (c : HsmCall)

def DiskOp.Ret : DiskOp → Type
  | .log op => op.Ret
  | .spawn => Spawn
  | .hsm c => c.Ret

abbrev diskSig : Sig := ⟨DiskOp, DiskOp.Ret⟩

/-- Code of the audit log, among the operations of the pipeline. -/
def onLog {α : Type} (p : Prog auditSig α) : Prog diskSig α :=
  p.interp fun op => .call (.log op) .ret

@[simp] theorem onLog_ret {α : Type} (a : α) : onLog (.ret a) = .ret a := rfl

@[simp] theorem onLog_call {α : Type} (op : AuditOp) (k : AuditOp.Ret op → Prog auditSig α) :
    onLog (.call op k) = .call (.log op) fun r => onLog (k r) := rfl

/-- An operation of the pipeline, with the append spelled out. -/
def spellOut (K : Crates) (J : Json Entry) (path : String) :
    (e : GwOp) → Prog diskSig (GwOp.Ret e)
  | .append a => onLog (append K J path a)
  | .spawn => .call .spawn .ret
  | .hsm c => .call (.hsm c) .ret

/-- The log, on a disk where a write that fails leaves nothing. -/
def diskAct (s : LogState) : Ev diskSig → LogState → Prop
  | ⟨.log op, r⟩, s' => s.act ⟨op, r⟩ s' ∧ (failedWrite ⟨op, r⟩ → s' = s)
  | ⟨.spawn, _⟩, s' => s' = s
  | ⟨.hsm _, _⟩, s' => s' = s

/-- What is observed of a run on the file, and of one on the atomic log: blocking tasks
and HSM calls, with their answers. -/
def besideLog : Ev diskSig → Option (Ev gwSig)
  | ⟨.log _, _⟩ => none
  | ⟨.spawn, r⟩ => some ⟨.spawn, r⟩
  | ⟨.hsm c, r⟩ => some ⟨.hsm c, r⟩

def notAppend : Ev gwSig → Option (Ev gwSig)
  | ⟨.append _, _⟩ => none
  | ev => some ev

/-! ### Who is between read and return -/

/-- A handler is between the read of `last_hash_b64` and the return of its append. -/
def linkStep : Bool → Ev diskSig → Bool
  | _, ⟨.log .lastHash, _⟩ => true
  | _, ⟨.log (.writeLine _), .error _⟩ => false
  | _, ⟨.log (.setLastHash _), _⟩ => false
  | b, _ => b

def linking (t : List (Ev diskSig)) : Bool := t.foldl linkStep false

theorem linking_concat (t : List (Ev diskSig)) (ev : Ev diskSig) :
    linking (t ++ [ev]) = linkStep (linking t) ev := by
  rw [linking, List.foldl_append]
  rfl

/-- Every read of `last_hash_b64` came while no handler was between read and return. -/
def SoloReads {ι : Type} [DecidableEq ι] (g : List (ι × Ev diskSig)) : Prop :=
  ∀ g₁ i ev g₂, g = g₁ ++ (i, ev) :: g₂ → ev.op = .log .lastHash →
    ∀ j, linking (proj j g₁) = false

section Invariant

variable (K : Crates) (J : Json Entry) (path : String) {ι : Type} [DecidableEq ι]

/-- The stage of a handler, and where its append stands. -/
inductive At : Stage gwSig diskSig → AppendArgs → Phase → Prop where
  | idle (a : AppendArgs) (ph : Phase) : ¬ ph.Linking → At .idle a ph
  | fresh (a : AppendArgs) : At (.before (.append a) (onLog (Phase.fresh.prog K J path a))) a .fresh
  | stamped (a : AppendArgs) (ts : String) :
      At (.before (.append a) (onLog ((Phase.stamped ts).prog K J path a))) a (.stamped ts)
  | linked (a : AppendArgs) (ts prev : String) :
      At (.before (.append a) (onLog ((Phase.linked ts prev).prog K J path a))) a (.linked ts prev)
  | written (a : AppendArgs) (ts prev : String) :
      At (.after (.append a) (.ok ()) (onLog ((Phase.written ts prev).prog K J path a))) a
        (.written ts prev)
  | stored (a : AppendArgs) (ts prev : String) :
      At (.after (.append a) (.ok ()) (onLog ((Phase.stored ts prev).prog K J path a))) a
        (.stored ts prev)
  | failed (a : AppendArgs) (r : Except String Unit) :
      At (.after (.append a) r (.ret r)) a .fresh
  | spawn (a : AppendArgs) : At (.before .spawn (.call .spawn .ret)) a .fresh
  | spawned (a : AppendArgs) (r : Spawn) : At (.after .spawn r (.ret r)) a .fresh
  | hsm (a : AppendArgs) (c : HsmCall) : At (.before (.hsm c) (.call (.hsm c) .ret)) a .fresh
  | performed (a : AppendArgs) (c : HsmCall) (r : c.Ret) : At (.after (.hsm c) r (.ret r)) a .fresh

/-- The file holds the entries of the atomic log; and as long as reads are solo, it is in
step with the hash in memory, up to the append that is being linked. -/
structure OnFile (g : List (ι × Ev diskSig)) (s : LogState) (log : List AppendArgs)
    (st : ι → Stage gwSig diskSig) (a : ι → AppendArgs) (ph : ι → Phase) (es : List Entry) :
    Prop where
  stage : ∀ i, At K J path (st i) (a i) (ph i)
  links : ∀ i, linking (proj i g) = true ↔ (ph i).Linking
  terminated : Terminated s.file
  parsed : parseLog J s.file = some es
  args : es.map Entry.args = log
  inStep : SoloReads g → ∃ es', InStep K J a s ph es'

end Invariant

section Steps

variable {K : Crates} {J : Json Entry} {path : String} {ι : Type} [DecidableEq ι]
  {g : List (ι × Ev diskSig)} {s s' : LogState} {log : List AppendArgs}
  {st : ι → Stage gwSig diskSig} {a : ι → AppendArgs} {ph : ι → Phase} {es : List Entry} {i : ι}

theorem SoloReads.before {x : ι × Ev diskSig} (h : SoloReads (g ++ [x])) : SoloReads g := by
  intro g₁ j ev g₂ heq
  exact h g₁ j ev (g₂ ++ [x]) (by rw [heq, List.append_assoc]; rfl)

/-- Nothing changes when a handler that is not linking turns to something else. -/
theorem InStep.reset (h : InStep K J a s ph es) (hi : ¬ (ph i).Linking) (b : AppendArgs) :
    InStep K J (Function.update a i b) s (Function.update ph i .fresh) es := by
  have hfresh : ¬ Phase.fresh.Linking := id
  cases h with
  | idle hn hh => exact .idle (not_linking_update (fun j _ => hn j) hfresh) hh
  | linked j ts hj ho hh =>
    have hji : j ≠ i := by
      rintro rfl
      rw [hj] at hi
      exact hi trivial
    refine .linked j ts ?_ (ho.update_other hfresh) hh
    rwa [Function.update_of_ne hji]
  | written j ts prev hj ho hh =>
    have hji : j ≠ i := by
      rintro rfl
      rw [hj] at hi
      exact hi trivial
    refine .written j ts prev ?_ (ho.update_other hfresh) ?_
    · rwa [Function.update_of_ne hji]
    · rwa [Function.update_of_ne hji]

/-- An append whose write fails is given up, and nobody is linking then. -/
theorem InStep.abandon (h : InStep K J a s ph es) {ts prev : String} (hi : ph i = .linked ts prev) :
    InStep K J a s (Function.update ph i .fresh) es := by
  have hl : (ph i).Linking := by
    rw [hi]
    trivial
  cases h with
  | idle hn hh => exact absurd hl (hn i)
  | linked j ts' hj ho hh =>
    obtain rfl : i = j := by
      by_contra hij
      exact ho i hij hl
    exact .idle (not_linking_update ho id) hh
  | written j ts' prev' hj ho hh =>
    have hij : i ≠ j := by
      rintro rfl
      rw [hi] at hj
      cases hj
    exact absurd hl (ho i hij)

omit [DecidableEq ι] in
/-- The file is accepted, up to the hash in memory. -/
theorem InStep.accepted (h : InStep K J a s ph es) :
    ∃ last, verifyChain K J path (.content s.file) = .ok last := by
  cases h with
  | idle _ hh => exact ⟨_, hh.verifyChain⟩
  | linked _ _ _ _ hh => exact ⟨_, hh.verifyChain⟩
  | written _ _ _ _ _ hh => exact ⟨_, hh.verifyChain⟩

/-- The state of the handlers when handler `i` has moved. -/
theorem At.update (h : ∀ j, At K J path (st j) (a j) (ph j)) {x : Stage gwSig diskSig}
    {b : AppendArgs} {p : Phase} (hx : At K J path x b p) (j : ι) :
    At K J path (Function.update st i x j) (Function.update a i b j)
      (Function.update ph i p j) := by
  rcases eq_or_ne j i with rfl | hj
  · simpa only [Function.update_self] using hx
  · simpa only [Function.update_of_ne hj] using h j

theorem At.update_stage (h : ∀ j, At K J path (st j) (a j) (ph j)) {x : Stage gwSig diskSig}
    {p : Phase} (hx : At K J path x (a i) p) (j : ι) :
    At K J path (Function.update st i x j) (a j) (Function.update ph i p j) := by
  have := At.update (i := i) h hx j
  rwa [Function.update_eq_self] at this

theorem linking_update {ev : Ev diskSig} {p : Phase}
    (h : ∀ j, linking (proj j g) = true ↔ (ph j).Linking)
    (hp : linkStep (linking (proj i g)) ev = true ↔ p.Linking) (j : ι) :
    linking (proj j (g ++ [(i, ev)])) = true ↔ (Function.update ph i p j).Linking := by
  rw [proj_append]
  rcases eq_or_ne j i with rfl | hj
  · rw [Function.update_self, proj_cons_self, proj_nil, linking_concat]
    exact hp
  · rw [Function.update_of_ne hj, proj_cons_ne hj.symm, proj_nil, List.append_nil]
    exact h j

/-- Handler `i` begins an operation, or ends one: no step is made. -/
theorem OnFile.turn (h : OnFile K J path g s log st a ph es) (hi : ¬ (ph i).Linking)
    {x : Stage gwSig diskSig} {b : AppendArgs} (hx : At K J path x b .fresh) :
    OnFile K J path g s log (Function.update st i x) (Function.update a i b)
      (Function.update ph i .fresh) es := by
  refine ⟨At.update h.stage hx, fun j => ?_, h.terminated, h.parsed, h.args, fun hsolo => ?_⟩
  · rcases eq_or_ne j i with rfl | hj
    · rw [Function.update_self, h.links]
      exact ⟨fun hl => absurd hl hi, fun hl => hl.elim⟩
    · rw [Function.update_of_ne hj]
      exact h.links j
  · obtain ⟨es', hes⟩ := h.inStep hsolo
    exact ⟨es', hes.reset hi b⟩

/-- One operation of an append, on the log and in the file. -/
theorem OnFile.move (hJ : J.Lawful) (h : OnFile K J path g s log st a ph es) {ev : Ev diskSig}
    {p : Phase} (hst : Phase.Step K J (a i) s (ph i) s' p)
    (hread : (∃ ts, ph i = .stamped ts) → ev.op = .log .lastHash)
    (hlink : linkStep (linking (proj i g)) ev = true ↔ p.Linking)
    {x : Stage gwSig diskSig} (hx : At K J path x (a i) p) {log' : List AppendArgs}
    {es' : List Entry}
    (hT : Terminated s'.file) (hes : parseLog J s'.file = some es')
    (hargs : es'.map Entry.args = log') :
    OnFile K J path (g ++ [(i, ev)]) s' log' (Function.update st i x) a (Function.update ph i p)
      es' := by
  refine ⟨At.update_stage h.stage hx, linking_update h.links hlink, hT, hes, hargs, ?_⟩
  intro hsolo
  obtain ⟨es'', hin⟩ := h.inStep hsolo.before
  refine hin.step hJ hst fun hstamped j => ?_
  have hj := hsolo g i ev [] rfl (hread hstamped) j
  rw [← h.links j, hj]
  exact Bool.false_ne_true

/-- A blocking task or an HSM call leaves the log alone. -/
theorem OnFile.aside (h : OnFile K J path g s log st a ph es) {ev : Ev diskSig}
    (hnot : ∀ op, ev.op ≠ .log op) (hi : ph i = .fresh) {x : Stage gwSig diskSig}
    (hx : At K J path x (a i) .fresh) :
    OnFile K J path (g ++ [(i, ev)]) s log (Function.update st i x) a ph es := by
  have hph : Function.update ph i .fresh = ph := by
    rw [← hi, Function.update_eq_self]
  refine ⟨fun j => ?_, fun j => ?_, h.terminated, h.parsed, h.args, fun hsolo =>
    h.inStep hsolo.before⟩
  · have := At.update_stage (i := i) h.stage hx j
    rwa [hph] at this
  · have hlink : linkStep (linking (proj i g)) ev = true ↔ Phase.fresh.Linking := by
      have hkeep : linkStep (linking (proj i g)) ev = linking (proj i g) := by
        rcases ev with ⟨op | _ | c, r⟩
        · exact absurd rfl (hnot op)
        · rfl
        · rfl
      rw [hkeep, h.links, hi]
    have := linking_update h.links hlink j
    rwa [hph] at this

/-- A write that fails: the append is over, and the file is what it was. -/
theorem OnFile.giveUp (h : OnFile K J path g s log st a ph es) {ts prev : String}
    (hi : ph i = .linked ts prev) {bytes : List UInt8} {e : WriteError}
    {x : Stage gwSig diskSig} (hx : At K J path x (a i) .fresh) :
    OnFile K J path (g ++ [(i, ⟨.log (.writeLine bytes), .error e⟩)]) s log (Function.update st i x)
      a (Function.update ph i .fresh) es := by
  refine ⟨At.update_stage h.stage hx, linking_update h.links ?_, h.terminated, h.parsed, h.args,
    fun hsolo => ?_⟩
  · exact ⟨fun hl => absurd hl Bool.false_ne_true, fun hl => hl.elim⟩
  · obtain ⟨es', hes⟩ := h.inStep hsolo.before
    exact ⟨es', hes.abandon hi⟩

/-! ### The append takes effect at its write -/

variable (K J path) in
/-- The invariant between the file and the atomic log. -/
def LogOnFile (g : List (ι × Ev diskSig)) (s : LogState) (log : List AppendArgs)
    (st : ι → Stage gwSig diskSig) : Prop :=
  ∃ a ph es, OnFile K J path g s log st a ph es

omit [DecidableEq ι] in
theorem onLog_eq_call {α : Type} {p : Prog auditSig α} {o : DiskOp}
    {k : DiskOp.Ret o → Prog diskSig α} (h : onLog p = .call o k) :
    ∃ op k', p = .call op k' ∧ (⟨o, k⟩ : (o : DiskOp) × (DiskOp.Ret o → Prog diskSig α)) =
      ⟨.log op, fun r => onLog (k' r)⟩ := by
  rcases p with b | ⟨op, k'⟩
  · cases h
  · cases h
    exact ⟨op, k', rfl, rfl⟩

/-- An append that has not taken effect. -/
theorem At.before_append {b b' : AppendArgs} {q : Prog diskSig (Except String Unit)} {p : Phase}
    (h : At K J path (.before (.append b) q) b' p) :
    b' = b ∧ q = onLog (p.prog K J path b) ∧
      (p = .fresh ∨ (∃ ts, p = .stamped ts) ∨ ∃ ts prev, p = .linked ts prev) := by
  cases h with
  | fresh => exact ⟨rfl, rfl, Or.inl rfl⟩
  | stamped _ ts => exact ⟨rfl, rfl, Or.inr (Or.inl ⟨ts, rfl⟩)⟩
  | linked _ ts prev => exact ⟨rfl, rfl, Or.inr (Or.inr ⟨ts, prev, rfl⟩)⟩

/-- An append that has taken effect. -/
theorem At.after_append {b b' : AppendArgs} {r : Except String Unit}
    {q : Prog diskSig (Except String Unit)} {p : Phase}
    (h : At K J path (.after (.append b) r q) b' p) :
    b' = b ∧ ((∃ ts prev, p = .written ts prev ∧ r = .ok () ∧ q = onLog (p.prog K J path b)) ∨
      (¬ p.Linking ∧ q = .ret r)) := by
  cases h with
  | written _ ts prev => exact ⟨rfl, Or.inl ⟨ts, prev, rfl, rfl, rfl⟩⟩
  | stored _ ts prev => exact ⟨rfl, Or.inr ⟨id, rfl⟩⟩
  | failed => exact ⟨rfl, Or.inr ⟨id, rfl⟩⟩

/-- A step of an append that has not taken effect: it is the write, or it is not. -/
theorem OnFile.before_append (hJ : J.Lawful) (h : OnFile K J path g s log st a ph es)
    {b : AppendArgs} {o : DiskOp} {k : DiskOp.Ret o → Prog diskSig (Except String Unit)}
    {x : DiskOp.Ret o} (hi : st i = .before (.append b) (.call o k))
    (ha : diskAct s ⟨o, x⟩ s') :
    (besideLog ⟨o, x⟩ = none ∧ LogOnFile K J path (g ++ [(i, ⟨o, x⟩)]) s' log
        (Function.update st i (.before (.append b) (k x)))) ∨
      ∃ r log', logAct log ⟨.append b, r⟩ log' ∧ besideLog ⟨o, x⟩ = none ∧
        LogOnFile K J path (g ++ [(i, ⟨o, x⟩)]) s' log'
          (Function.update st i (.after (.append b) r (k x))) := by
  have hs := h.stage i
  rw [hi] at hs
  obtain ⟨rfl, hq, hph⟩ := hs.before_append
  obtain ⟨op, k', hp, heq⟩ := onLog_eq_call hq.symm
  cases heq
  obtain ⟨hact, hfail⟩ := ha
  by_cases hf : failedWrite ⟨op, x⟩
  -- the write fails
  · obtain rfl := hfail hf
    rcases hph with hph | ⟨ts, hph⟩ | ⟨ts, prev, hph⟩
    · rw [hph] at hp
      cases hp
      exact hf.elim
    · rw [hph] at hp
      cases hp
      exact hf.elim
    · obtain ⟨line, hl, -⟩ := hJ.fromStr_toString ((a i).entry K ts prev)
      rw [hph, Phase.prog, hl] at hp
      cases hp
      have hkeep : ∀ m : String, logAct log ⟨.append (a i), .error m⟩ log := fun m =>
        (List.append_nil log).symm
      rcases x with (e | e) | u
      · exact Or.inr ⟨.error _, log, hkeep _, rfl, a, _, es, h.giveUp hph (.failed (a i) _)⟩
      · exact Or.inr ⟨.error _, log, hkeep _, rfl, a, _, es, h.giveUp hph (.failed (a i) _)⟩
      · exact hf.elim
  · obtain ⟨ph', hst, hk, hread⟩ := Phase.step_of_act hJ hp ⟨hact, hf⟩
    have hr : (∃ ts, ph i = .stamped ts) → DiskOp.log op = .log .lastHash := by
      intro hst
      rw [hread.mpr hst]
    have hlk := h.links i
    have hk' : onLog (k' x) = onLog (ph'.prog K J path (a i)) := congrArg onLog hk
    dsimp only
    rw [hk']
    have hst' := hst
    generalize hphi : ph i = p at hst'
    cases hst' with
    | now ts =>
      rw [hphi] at hp
      cases hp
      refine Or.inl ⟨rfl, a, _, es, h.move hJ hst hr ?_ (.stamped (a i) ts) h.terminated h.parsed
        h.args⟩
      change linking (proj i g) = true ↔ False
      rw [hlk, hphi]
      rfl
    | @lastHash ts =>
      rw [hphi] at hp
      cases hp
      exact Or.inl ⟨rfl, a, _, es, h.move hJ hst hr (iff_of_true rfl trivial) (.linked (a i) ts _)
        h.terminated h.parsed h.args⟩
    | @writeLine ts prev line hl =>
      rw [hphi, Phase.prog, hl] at hp
      cases hp
      rcases x with e | ⟨⟩
      · exact absurd trivial hf
      refine Or.inr ⟨.ok (), log ++ [a i], rfl, rfl, a, _, es ++ [(a i).entry K ts prev],
        h.move hJ hst hr ?_ (.written (a i) ts prev)
          (h.terminated.append (terminated_lineBytes hJ hl))
          (parseLog_append_line hJ h.terminated h.parsed hl) ?_⟩
      · change linking (proj i g) = true ↔ True
        rw [hlk, hphi]
        rfl
      · rw [List.map_append, h.args]
        rfl
    | @setLastHash ts prev =>
      rcases hph with hph | ⟨ts, hph⟩ | ⟨ts, prev, hph⟩
      · cases hphi.symm.trans hph
      · cases hphi.symm.trans hph
      · cases hphi.symm.trans hph

/-- The step behind the write: the new hash is stored. -/
theorem OnFile.after_append (hJ : J.Lawful) (h : OnFile K J path g s log st a ph es)
    {b : AppendArgs} {r : Except String Unit} {o : DiskOp}
    {k : DiskOp.Ret o → Prog diskSig (Except String Unit)} {x : DiskOp.Ret o}
    (hi : st i = .after (.append b) r (.call o k)) (ha : diskAct s ⟨o, x⟩ s') :
    besideLog ⟨o, x⟩ = none ∧ LogOnFile K J path (g ++ [(i, ⟨o, x⟩)]) s' log
      (Function.update st i (.after (.append b) r (k x))) := by
  have hs := h.stage i
  rw [hi] at hs
  obtain ⟨rfl, ⟨ts, prev, hph, rfl, hq⟩ | ⟨-, hq⟩⟩ := hs.after_append
  · rw [hph] at hq
    cases hq
    obtain rfl : s' = { s with lastHashB64 := ((a i).entry K ts prev).hashB64 } := ha.1
    have hst : Phase.Step K J (a i) s (ph i) { s with
        lastHashB64 := ((a i).entry K ts prev).hashB64 } (.stored ts prev) := by
      rw [hph]
      exact .setLastHash
    refine ⟨rfl, a, _, es, h.move hJ hst ?_ ?_ (.stored (a i) ts prev) h.terminated h.parsed h.args⟩
    · rintro ⟨ts', hph'⟩
      cases hph.symm.trans hph'
    · exact ⟨fun hl => absurd hl Bool.false_ne_true, fun hl => hl.elim⟩
  · cases hq

/-- **An append takes effect at its write.**  What has to be shown of the implementation of
the log's operations, for every kind of step. -/
theorem appends_linearize (hJ : J.Lawful) :
    Linearizes (spellOut K J path) diskAct logAct besideLog notAppend
      (LogOnFile K J path : List (ι × Ev diskSig) → _) where
  ready e := by
    rcases e with a | _ | c
    · exact ⟨_, _, rfl⟩
    · exact ⟨_, _, rfl⟩
    · exact ⟨_, _, rfl⟩
  start e h hi := by
    obtain ⟨a, ph, es, h⟩ := h
    rename_i i
    have hs := h.stage i
    rw [hi] at hs
    have hl : ¬ (ph i).Linking := by
      generalize ph i = p at hs ⊢
      cases hs with
      | idle _ _ hl => exact hl
    rcases e with b | _ | c
    · exact ⟨_, _, es, h.turn hl (.fresh b)⟩
    · exact ⟨_, _, es, h.turn hl (.spawn (a i))⟩
    · exact ⟨_, _, es, h.turn hl (.hsm (a i) c)⟩
  open_before h hi := by
    obtain ⟨a, ph, es, h⟩ := h
    rename_i i e r
    have hs := h.stage i
    rw [hi] at hs
    rcases e with b | _ | c
    · obtain ⟨-, hq, hph⟩ := hs.before_append
      rcases hph with hph | ⟨ts, hph⟩ | ⟨ts, prev, hph⟩
      · rw [hph] at hq
        cases hq
      · rw [hph] at hq
        cases hq
      · obtain ⟨line, hl, -⟩ := hJ.fromStr_toString (b.entry K ts prev)
        rw [hph, Phase.prog, hl] at hq
        cases hq
    · cases hs
    · cases hs
  finish h hi := by
    obtain ⟨a, ph, es, h⟩ := h
    rename_i i e r r'
    have hs := h.stage i
    rw [hi] at hs
    -- whatever it was, the operation is over and the handler is not linking
    have hend : r' = r ∧ ¬ (ph i).Linking := by
      rcases e with b | _ | c
      · obtain ⟨-, ⟨ts, prev, hph, -, hq⟩ | ⟨hl, hq⟩⟩ := hs.after_append
        · rw [hph] at hq
          cases hq
        · cases hq
          exact ⟨rfl, hl⟩
      · generalize ph i = p at hs ⊢
        cases hs
        exact ⟨rfl, id⟩
      · generalize ph i = p at hs ⊢
        cases hs
        exact ⟨rfl, id⟩
    exact ⟨hend.1, _, _, es, h.turn hend.2 (.idle (a i) _ id)⟩
  before h hi ha := by
    obtain ⟨a, ph, es, h⟩ := h
    rename_i i e o k x s'
    rcases e with b | _ | c
    · exact h.before_append hJ hi ha
    · have hs := h.stage i
      rw [hi] at hs
      generalize hph : ph i = p at hs
      cases hs
      obtain rfl := ha
      exact Or.inr ⟨x, _, (List.append_nil _).symm, rfl, a, ph, es,
        h.aside (by simp) hph (.spawned (a i) x)⟩
    · have hs := h.stage i
      rw [hi] at hs
      generalize hph : ph i = p at hs
      cases hs
      obtain rfl := ha
      exact Or.inr ⟨x, _, (List.append_nil _).symm, rfl, a, ph, es,
        h.aside (by simp) hph (.performed (a i) c x)⟩
  after h hi ha := by
    obtain ⟨a, ph, es, h⟩ := h
    rename_i i e r o k x s'
    rcases e with b | _ | c
    · exact h.after_append hJ hi ha
    · have hs := h.stage i
      rw [hi] at hs
      cases hs
    · have hs := h.stage i
      rw [hi] at hs
      cases hs

end Steps

/-! ### The pipeline on the file -/

section OnDisk

variable (K : Crates) (J : Json Entry) (path : String) (g : Gateway)
  (parse : String → Except String Request) {ι : Type}

/-- Tasks to be handled on an opened log. -/
def handlingOnDisk (s : LogState) (tasks : ι → Task) :
    Conf diskSig LogState ι (Option Response) :=
  ⟨s, fun i => ((tasks i).prog K g parse).interp (spellOut K J path), []⟩

def isHsmCall : Ev diskSig → Bool
  | ⟨.hsm _, _⟩ => true
  | _ => false

/-- The tasks on this triple that have started an HSM call. -/
def startedOnDisk [DecidableEq ι] (tasks : ι → Task) (τ : String × String × String)
    (c : Conf diskSig LogState ι (Option Response)) : Finset ι :=
  (ids c.hist).filter fun i => (tasks i).triple parse = some τ ∧ (c.own i).any isHsmCall = true

end OnDisk

section Results

variable {K : Crates} {J : Json Entry} {path : String} {g : Gateway}
  {parse : String → Except String Request} {ι : Type} [DecidableEq ι] {s : LogState}
  {tasks : ι → Task} {es : List Entry} {c : Conf diskSig LogState ι (Option Response)}

theorem logOnFile_init (h : s.Holds K J es) :
    LogOnFile K J path [] s (es.map Entry.args) fun _ : ι => .idle := by
  let a : ι → AppendArgs := fun _ => ⟨"", "", "", .intent, ""⟩
  refine ⟨a, fun _ => .fresh, es, fun i => .idle _ _ id, fun i => ?_, h.terminated, h.parsed, rfl,
    fun _ => ⟨es, .idle (fun _ => id) h⟩⟩
  exact ⟨fun hl => absurd hl Bool.false_ne_true, fun hl => hl.elim⟩

/-- The invariant along a run on the file, with the run of the atomic log beside it. -/
theorem exists_beside (hJ : J.Lawful) (h : s.Holds K J es)
    (hc : Reach diskAct anySchedule (handlingOnDisk K J path g parse s tasks) c) :
    ∃ d st, Reach logAct anySchedule (handling K g parse (es.map Entry.args) tasks) d ∧
      Beside (spellOut K J path) besideLog notAppend (LogOnFile K J path) c d st :=
  (appends_linearize hJ).refines (logOnFile_init h) hc

/-- **The file refines the atomic log.**  From an opened log that ends in a line feed, under
every schedule of any number of handlers whose appends interleave step by step: there is a
run of the same handlers on the atomic log with the same blocking tasks and HSM calls in
the same order and the same responses, and at every moment the lines of the file are that
log's entries. -/
theorem onDisk_refines (hJ : J.Lawful) (h : s.Holds K J es)
    (hc : Reach diskAct anySchedule (handlingOnDisk K J path g parse s tasks) c) :
    ∃ d, Reach logAct anySchedule (handling K g parse (es.map Entry.args) tasks) d ∧
      (∃ es', parseLog J c.shared.file = some es' ∧ es'.map Entry.args = d.shared) ∧
      observed besideLog c.hist = observed notAppend d.hist ∧
      ∀ i resp, c.prog i = .ret resp → d.prog i = .ret resp := by
  obtain ⟨d, st, hd, hb⟩ := exists_beside hJ h hc
  obtain ⟨a, ph, es', hfile⟩ := hb.inv
  exact ⟨d, hd, ⟨es', hfile.parsed, hfile.args⟩, hb.observed, fun i resp =>
    (appends_linearize hJ).ret hb⟩

theorem startedOnDisk_subset {d : Conf gwSig (List AppendArgs) ι (Option Response)}
    (h : observed besideLog c.hist = observed notAppend d.hist) (τ : String × String × String) :
    startedOnDisk parse tasks τ c ⊆ started parse tasks τ d := by
  intro i hi
  rw [startedOnDisk, Finset.mem_filter] at hi
  obtain ⟨-, hτ, hany⟩ := hi
  rw [List.any_eq_true] at hany
  obtain ⟨ev, hev, hhsm⟩ := hany
  obtain ⟨op | _ | call, r⟩ := ev
  · cases hhsm
  · cases hhsm
  -- the HSM call is observed, so the other run has made it too
  have hobs : (i, (⟨.hsm call, r⟩ : Ev gwSig)) ∈ observed notAppend d.hist := by
    rw [← h, mem_observed]
    exact ⟨_, mem_proj.mp hev, rfl⟩
  obtain ⟨ev', hev', hsome⟩ := mem_observed.mp hobs
  have hd : ev' = ⟨.hsm call, r⟩ := by
    obtain ⟨a | _ | call', r'⟩ := ev'
    · cases hsome
    · cases hsome
    · exact Option.some_inj.mp hsome
  rw [started, Finset.mem_filter]
  refine ⟨?_, hτ, List.any_eq_true.mpr ⟨ev', mem_proj.mpr hev', by rw [hd]; rfl⟩⟩
  rw [ids, List.mem_toFinset, List.mem_map]
  exact ⟨_, hev', rfl⟩

/-- What the run of the atomic log says of the file. -/
theorem balanced_of_beside {d : Conf gwSig (List AppendArgs) ι (Option Response)}
    {st : ι → Stage gwSig diskSig} (hbal : Balanced (es.map Entry.args))
    (hd : Reach logAct anySchedule (handling K g parse (es.map Entry.args) tasks) d)
    (hb : Beside (spellOut K J path) besideLog notAppend (LogOnFile K J path) c d st) :
    ∃ es', parseLog J c.shared.file = some es' ∧ es'.map Entry.args = d.shared ∧
      Balanced (es'.map Entry.args) ∧ ∀ τ, (startedOnDisk parse tasks τ c).card ≤
        (es'.map Entry.args).countP (isIntent τ) := by
  obtain ⟨a, ph, es', hfile⟩ := hb.inv
  refine ⟨es', hfile.parsed, hfile.args, ?_, fun τ => ?_⟩
  · rw [hfile.args]
    exact balanced_shared hbal hd
  · rw [hfile.args]
    exact le_trans (Finset.card_le_card (startedOnDisk_subset hb.observed τ)) (card_started_le hd τ)

/-- An entry some task has added is in the log. -/
theorem mem_shared_of_own {d : Conf gwSig (List AppendArgs) ι (Option Response)}
    {log : List AppendArgs} (hd : Reach logAct anySchedule (handling K g parse log tasks) d) {i : ι}
    {a : AppendArgs} (ha : a ∈ entries (d.own i)) : a ∈ d.shared := by
  rw [shared_eq hd, List.mem_append]
  obtain ⟨ev, hev, hadd⟩ := List.mem_filterMap.mp ha
  refine Or.inr (List.mem_filterMap.mpr ⟨ev, ?_, hadd⟩)
  exact List.mem_map.mpr ⟨(i, ev), mem_proj.mp hev, rfl⟩

/-- **The two-phase protocol on the file.**  From a balanced log that ends in a line feed, under
every schedule of the appends' own steps, after each: the lines of the file parse; every
prefix of them has at least as many intents as authorized and error entries; no more
requests on a triple have started an HSM call than it has intents in the file; and a request
that has been answered `Ok` has its intent there. -/
theorem twoPhase_onDisk (hJ : J.Lawful) (h : s.Holds K J es) (hbal : Balanced (es.map Entry.args))
    (hc : Reach diskAct anySchedule (handlingOnDisk K J path g parse s tasks) c) :
    ∃ es', parseLog J c.shared.file = some es' ∧ Balanced (es'.map Entry.args) ∧
      (∀ τ, (startedOnDisk parse tasks τ c).card ≤ (es'.map Entry.args).countP (isIntent τ)) ∧
      ∀ i cn line req resp, tasks i = .request cn line → parse line = .ok req →
        c.prog i = .ret (some resp) → resp.status = .ok →
        Gateway.entryFor cn req .intent "" ∈ es'.map Entry.args := by
  obtain ⟨d, st, hd, hb⟩ := exists_beside hJ h hc
  obtain ⟨es', hparsed, hargs, hbal', hcard⟩ := balanced_of_beside hbal hd hb
  refine ⟨es', hparsed, hbal', hcard, fun i cn line req resp hi hreq hp hok => ?_⟩
  rw [hargs]
  refine mem_shared_of_own hd (i := i) ?_
  -- the run of the atomic log has answered the request as well
  have hsteps := hd.own_steps rfl i
  rw [(appends_linearize hJ).ret hb hp] at hsteps
  change Steps ((tasks i).prog K g parse) (d.own i) _ at hsteps
  rw [hi] at hsteps
  rcases run_of_line hsteps with ⟨-, e, he⟩ | ⟨req', o, hreq', hrun, ho⟩
  · cases he.symm.trans hreq
  obtain rfl : req' = req := Except.ok.inj (hreq'.symm.trans hreq)
  rw [ho resp rfl] at hrun
  obtain ⟨peer, u, r, -, -, hown⟩ := hrun.closed_of_ok hok
  rw [hown]
  exact List.mem_cons_self

/-! ### Crashes and restarts -/

variable (K J path parse) in
/-- The log as some start of the gateway has opened it: a balanced one that ends in a line
feed, such as none at all; or what was left when an earlier run of any gateway was cut off
between two steps, its reads having been solo. -/
inductive Started : LogState → Prop where
  | first (file : FileRead) {s : LogState} : openLog K J path file (.ok ()) = .ok s →
      Terminated s.file →
      (∀ es, parseLog J s.file = some es → Balanced (es.map Entry.args)) → Started s
  | restart {s s' : LogState} {g : Gateway} {ι : Type} [DecidableEq ι] {tasks : ι → Task}
      {c : Conf diskSig LogState ι (Option Response)} : Started s →
      Reach diskAct anySchedule (handlingOnDisk K J path g parse s tasks) c → SoloReads c.hist →
      openLog K J path (.content c.shared.file) (.ok ()) = .ok s' → Started s'

/-- As long as reads are solo the file can be opened again after every step, and is then in
step, also if the last append was cut off between its write and the store of its hash. -/
theorem reopens (hJ : J.Lawful) (h : s.Holds K J es)
    (hc : Reach diskAct anySchedule (handlingOnDisk K J path g parse s tasks) c)
    (hsolo : SoloReads c.hist) :
    ∃ s' es', openLog K J path (.content c.shared.file) (.ok ()) = .ok s' ∧
      s'.file = c.shared.file ∧ s'.Holds K J es' := by
  obtain ⟨d, st, -, hb⟩ := exists_beside hJ h hc
  obtain ⟨a, ph, es', hfile⟩ := hb.inv
  obtain ⟨es'', hin⟩ := hfile.inStep hsolo
  obtain ⟨last, hlast⟩ : ∃ last, verifyChain K J path (.content c.shared.file) = .ok last :=
    hin.accepted
  refine ⟨⟨c.shared.file, last⟩, es', ?_, rfl, hfile.terminated, hfile.parsed, ?_⟩
  · rw [openLog, hlast]
  · obtain ⟨es₀, hes₀, hck⟩ := verifyChain_ok.mp hlast
    obtain rfl : es' = es₀ := Option.some_inj.mp (hfile.parsed.symm.trans hes₀)
    exact hck

/-- What an accepted file gives. -/
theorem holds_of_openLog {file : FileRead} (h : openLog K J path file (.ok ()) = .ok s)
    (hT : Terminated s.file) : ∃ es, s.Holds K J es := by
  rw [openLog] at h
  rcases hv : verifyChain K J path file with e | last
  · rw [hv] at h
    cases h
  rw [hv] at h
  obtain ⟨es, hes, hck⟩ := verifyChain_ok.mp hv
  cases file with
  | notFound =>
    cases h
    cases hes
    exact ⟨[], hT, rfl, hck⟩
  | failed e => cases hes
  | broken bytes e => cases hes
  | content bytes =>
    cases h
    exact ⟨es, hT, hes, hck⟩

/-- Every start finds the log in step and balanced. -/
theorem Started.holds (hJ : J.Lawful) (h : Started K J path parse s) :
    ∃ es, s.Holds K J es ∧ Balanced (es.map Entry.args) := by
  induction h with
  | first file hopen hT hbal =>
    obtain ⟨es, hes⟩ := holds_of_openLog hopen hT
    exact ⟨es, hes, hbal es hes.parsed⟩
  | @restart s s' g ι _ tasks c _ hc hsolo hopen ih =>
    obtain ⟨es, hes, hbal⟩ := ih
    obtain ⟨s'', es', hopen', hfile, hes'⟩ := reopens hJ hes hc hsolo
    obtain rfl : s' = s'' := Except.ok.inj (hopen.symm.trans hopen')
    obtain ⟨d, st, hd, hb⟩ := exists_beside hJ hes hc
    obtain ⟨es'', hp, -, hbal', -⟩ := balanced_of_beside hbal hd hb
    rw [← hfile, hes'.parsed, Option.some_inj] at hp
    exact ⟨es', hes', hp ▸ hbal'⟩

/-- **Cut off and started again.**  However often the gateway has been cut off between steps and
started again, and wherever its handlers stand now: if `last_hash_b64` was only read
while no other append was between its read and its return, the file can be opened again as
it is, every prefix of its entries has at least as many intents as authorized and error
entries, and no more requests of this run have started an HSM call than it has intents. -/
theorem restart_onDisk (hJ : J.Lawful) (h : Started K J path parse s)
    (hc : Reach diskAct anySchedule (handlingOnDisk K J path g parse s tasks) c)
    (hsolo : SoloReads c.hist) :
    ∃ s' es', openLog K J path (.content c.shared.file) (.ok ()) = .ok s' ∧
      s'.file = c.shared.file ∧ parseLog J s'.file = some es' ∧ Balanced (es'.map Entry.args) ∧
      ∀ τ, (startedOnDisk parse tasks τ c).card ≤ (es'.map Entry.args).countP (isIntent τ) := by
  obtain ⟨es, hes, hbal⟩ := h.holds hJ
  obtain ⟨s', es', hopen, hfile, hes'⟩ := reopens hJ hes hc hsolo
  obtain ⟨d, st, hd, hb⟩ := exists_beside hJ hes hc
  obtain ⟨es'', hp, -, hbal', hcard⟩ := balanced_of_beside hbal hd hb
  obtain rfl : es' = es'' := by
    rw [← hfile, hes'.parsed] at hp
    exact Option.some_inj.mp hp
  exact ⟨s', es', hopen, hfile, hes'.parsed, hbal', hcard⟩

end Results

/-! ### Two handlers at once -/

/-- A disk that takes every write, and an HSM that does what it is asked. -/
def diskAnswer (s : LogState) : (e : DiskOp) → DiskOp.Ret e × LogState
  | .log op => s.answer op
  | .spawn => (.ran, s)
  | .hsm c => (Ref.obliging (.hsm c), s)

theorem diskAct_answer (s : LogState) (e : DiskOp) :
    diskAct s ⟨e, (diskAnswer s e).1⟩ (diskAnswer s e).2 := by
  cases e with
  | log op =>
    obtain ⟨hact, hok⟩ := LogState.actOk_answer s op
    exact ⟨hact, fun hf => absurd hf hok⟩
  | spawn => rfl
  | hsm c => rfl

/-- Two connections with a signing request each. -/
def sampleOnDisk : Conf diskSig LogState ℕ (Option Response) :=
  handlingOnDisk Ref.crates Ref.entryJson "audit.jsonl" Ref.gateway Ref.parseRequest ⟨[], genesis⟩
    sampleTasks

/-- Both requests have read `last_hash_b64` before either writes; then one is answered while the
other is behind its HSM call. -/
def sampleRace : Conf diskSig LogState ℕ (Option Response) :=
  sampleOnDisk.exec diskAnswer [0, 1, 0, 1, 0, 1, 0, 1, 0, 1, 1, 0, 0, 0, 0, 0]

theorem reach_sampleRace : Reach diskAct anySchedule sampleOnDisk sampleRace :=
  Reach.init.exec diskAct_answer _

/-- The request, once its line is parsed. -/
def signingOnDisk : Prog diskSig (Option Response) :=
  (Ref.gateway.processRequest Ref.crates "app-a" Gateway.signRequest >>= fun resp =>
    .ret (some resp)).interp (spellOut Ref.crates Ref.entryJson "audit.jsonl")

theorem sampleOnDisk_signing {i : ℕ} (hi : i = 0 ∨ i = 1) :
    sampleOnDisk.prog i = signingOnDisk := by
  have htask : sampleTasks i = .request "app-a" (Ref.requestText Gateway.signRequest) := by
    rcases hi with rfl | rfl
    · rfl
    · rfl
  rw [sampleOnDisk, handlingOnDisk]
  dsimp only
  rw [htask, Task.prog, Gateway.processLine_of_parse (Ref.parseRequest_requestText _)]
  rfl

theorem sampleRace_answered :
    sampleRace.prog 0 = .ret (some (.ok (some "AQIDBA==") none none none)) := by
  -- with the lines parsed, the run can be computed
  have hprog : sampleOnDisk.prog =
      fun i => if i = 0 ∨ i = 1 then signingOnDisk else sampleOnDisk.prog i := by
    funext i
    by_cases hi : i = 0 ∨ i = 1
    · rw [if_pos hi, sampleOnDisk_signing hi]
    · rw [if_neg hi]
  have hdisk : sampleOnDisk = ⟨⟨[], genesis⟩, sampleOnDisk.prog, []⟩ := rfl
  rw [sampleRace, hdisk, hprog]
  generalize sampleOnDisk.prog = q
  rfl

theorem onDisk_refines_sampleRace :
    ∃ d, Reach logAct anySchedule
        (handling Ref.crates Ref.gateway Ref.parseRequest [] sampleTasks) d ∧
      (∃ es, parseLog Ref.entryJson sampleRace.shared.file = some es ∧
        es.map Entry.args = d.shared) ∧
      observed besideLog sampleRace.hist = observed notAppend d.hist ∧
      ∀ i resp, sampleRace.prog i = .ret resp → d.prog i = .ret resp :=
  onDisk_refines Ref.entryJson_lawful holds_empty reach_sampleRace

theorem twoPhase_onDisk_sampleRace :
    ∃ es, parseLog Ref.entryJson sampleRace.shared.file = some es ∧
      Balanced (es.map Entry.args) ∧
      (∀ τ, (startedOnDisk Ref.parseRequest sampleTasks τ sampleRace).card ≤
        (es.map Entry.args).countP (isIntent τ)) ∧
      sampleRace.prog 0 = .ret (some (.ok (some "AQIDBA==") none none none)) ∧
      Gateway.entryFor "app-a" Gateway.signRequest .intent "" ∈ es.map Entry.args := by
  obtain ⟨es, hes, hbal, hcard, hok⟩ :=
    twoPhase_onDisk Ref.entryJson_lawful holds_empty balanced_nil reach_sampleRace
  have hintent : Gateway.entryFor "app-a" Gateway.signRequest .intent "" ∈ es.map Entry.args :=
    hok 0 "app-a" (Ref.requestText Gateway.signRequest) Gateway.signRequest
      (.ok (some "AQIDBA==") none none none) rfl
      (Ref.parseRequest_requestText Gateway.signRequest) sampleRace_answered rfl
  exact ⟨es, hes, hbal, hcard, sampleRace_answered, hintent⟩

theorem SoloReads.concat {ι : Type} [DecidableEq ι] {g : List (ι × Ev diskSig)} {i : ι}
    {ev : Ev diskSig} (h : SoloReads g)
    (hev : ev.op = .log .lastHash → ∀ j, linking (proj j g) = false) :
    SoloReads (g ++ [(i, ev)]) := by
  intro g₁ j ev' g₂ heq hop
  rcases List.eq_nil_or_concat' g₂ with rfl | ⟨g₂', x, rfl⟩
  · obtain ⟨rfl, hx⟩ := List.append_inj' heq rfl
    cases hx
    exact hev hop
  · rw [← List.cons_append, ← List.append_assoc] at heq
    exact h g₁ j ev' g₂' (List.append_inj' heq rfl).1 hop

/-- Two connections whose certificates are about to expire. -/
def twoConnects : Bool → Task
  | false => .connect "app-a" 30 5
  | true => .connect "app-b" 30 6

def connectsOnDisk : Conf diskSig LogState Bool (Option Response) :=
  handlingOnDisk Ref.crates Ref.entryJson "audit.jsonl" Ref.gateway Ref.parseRequest ⟨[], genesis⟩
    twoConnects

/-- The first handler is behind its append; the second one has written its line, and is cut
off before it stores its hash. -/
def cutOff : Conf diskSig LogState Bool (Option Response) :=
  connectsOnDisk.exec diskAnswer [false, false, false, false, true, true, true]

theorem soloReads_cutOff : SoloReads cutOff.hist := by
  have h₀ : SoloReads ([] : List (Bool × Ev diskSig)) := by
    intro g₁ i ev g₂ heq
    exact absurd heq (by simp)
  refine SoloReads.concat (SoloReads.concat (SoloReads.concat (SoloReads.concat (SoloReads.concat
    (SoloReads.concat (SoloReads.concat h₀ ?_) ?_) ?_) ?_) ?_) ?_) ?_
  · intro h
    cases h
  · intro _ j
    cases j <;> rfl
  · intro h
    cases h
  · intro h
    cases h
  · intro h
    cases h
  · intro _ j
    cases j <;> rfl
  · intro h
    cases h

theorem restart_onDisk_cutOff :
    ∃ s es, openLog Ref.crates Ref.entryJson "audit.jsonl" (.content cutOff.shared.file) (.ok ()) =
        .ok s ∧ s.file = cutOff.shared.file ∧ parseLog Ref.entryJson s.file = some es ∧
      Balanced (es.map Entry.args) := by
  have hstart : Started Ref.crates Ref.entryJson "audit.jsonl" Ref.parseRequest ⟨[], genesis⟩ := by
    refine .first .notFound rfl terminated_nil fun es hes => ?_
    cases hes
    exact balanced_nil
  obtain ⟨s, es, hopen, hfile, hes, hbal, -⟩ := restart_onDisk Ref.entryJson_lawful hstart
    (Reach.init.exec diskAct_answer _) soloReads_cutOff
  exact ⟨s, es, hopen, hfile, hes, hbal⟩

end PicoHsm
