/-
Sequential runs of the audit log.

One `append` at a time, from opening the log to dropping it, and across re-opens.
The invariant is `LogState.Holds s es`: the file ends in a line feed (or is empty),
its lines parse to the entries `es`, and these form a chain that ends in the hash
held in memory.

* `Holds.append` — a successful append keeps it and adds exactly its own entry;
* `runSessions_roundtrip` — any number of successful appends, split in any way by
  re-opening the log, is read back unchanged;
* `runAll_accepted` — what is left when appends may fail midway: the log stays
  readable as long as nothing is written behind the remains of a failed append.
-/
import PicoHsm.Audit
import PicoHsm.ReferenceJson

namespace PicoHsm

open Text Effects

/-! ### The invariant -/

/-- The file and the hash in memory are in step, and the entries are `es`. -/
structure LogState.Holds (K : Crates) (J : Json Entry) (s : LogState) (es : List Entry) :
    Prop where
  terminated : Terminated s.file
  parsed : parseLog J s.file = some es
  chained : HashChain.check (Entry.links K) genesis es = some s.lastHashB64

section Holds

variable {K : Crates} {J : Json Entry} {path : String} {s : LogState} {es : List Entry}

theorem holds_empty : LogState.Holds K J ⟨[], genesis⟩ [] := ⟨terminated_nil, rfl, rfl⟩

theorem LogState.Holds.verifyChain (h : s.Holds K J es) :
    verifyChain K J path (.content s.file) = .ok s.lastHashB64 :=
  verifyChain_ok.mpr ⟨es, h.parsed, h.chained⟩

/-- Opening a log that was left in step gives it back as it was. -/
theorem LogState.Holds.openLog (h : s.Holds K J es) :
    openLog K J path (.content s.file) (.ok ()) = .ok s := by
  rw [PicoHsm.openLog, h.verifyChain]

/-- The chain with the entry of one more append. -/
theorem check_entry (hc : HashChain.check (Entry.links K) genesis es = some s.lastHashB64)
    (a : AppendArgs) (ts : String) :
    HashChain.check (Entry.links K) genesis (es ++ [a.entry K ts s.lastHashB64]) =
      some (a.entry K ts s.lastHashB64).hashB64 :=
  HashChain.check_concat.mpr ⟨hc, rfl, rfl⟩

/-- One successful append. -/
theorem LogState.Holds.append (hJ : J.Lawful) (h : s.Holds K J es) {a : AppendArgs}
    {ts line : String} (hl : J.toString (a.entry K ts s.lastHashB64) = .ok line) :
    LogState.Holds K J ⟨s.file ++ lineBytes line, (a.entry K ts s.lastHashB64).hashB64⟩
      (es ++ [a.entry K ts s.lastHashB64]) :=
  ⟨h.terminated.append (terminated_lineBytes hJ hl),
    parseLog_append_line hJ h.terminated h.parsed hl, check_entry h.chained a ts⟩

end Holds

/-! ### One call -/

/-- How a write fails: after `k` bytes of the line, or at the flush. -/
inductive WriteFault where
  | write (k : Nat) (e : String)
  | flush (e : String)

/-- One call of `append`: its arguments, the clock, and the fault it meets, if any. -/
structure Call where
  args : AppendArgs
  ts : String
  fault : Option WriteFault

/-- The log's answers during such a call. -/
def LogState.handle (ts : String) (fault : Option WriteFault) (s : LogState) :
    (e : AuditOp) → AuditOp.Ret e × LogState
  | .now => (ts, s)
  | .lastHash => (s.lastHashB64, s)
  | .writeLine bytes =>
    match fault with
    | none => (.ok (), { s with file := s.file ++ bytes })
    | some (.write k e) => (.error (.write e), { s with file := s.file ++ bytes.take k })
    | some (.flush e) => (.error (.flush e), { s with file := s.file ++ bytes })
  | .setLastHash h => ((), { s with lastHashB64 := h })

/-- These are answers the log can give. -/
theorem LogState.act_handle (ts : String) (fault : Option WriteFault) (s : LogState)
    (e : AuditOp) : s.act ⟨e, (s.handle ts fault e).1⟩ (s.handle ts fault e).2 := by
  cases e with
  | now => rfl
  | lastHash => exact ⟨rfl, rfl⟩
  | writeLine bytes =>
    rcases fault with _ | ⟨k, e⟩ | e
    · rfl
    · exact ⟨k, rfl⟩
    · rfl
  | setLastHash h => rfl

section Runs

variable (K : Crates) (J : Json Entry) (path : String)

def runCall (s : LogState) (c : Call) : Except String Unit × LogState :=
  (append K J path c.args).run (LogState.handle c.ts c.fault) s

/-- The calls of one opened log; the first error ends it. -/
def runCalls : LogState → List Call → Except String LogState
  | s, [] => .ok s
  | s, c :: cs =>
    match runCall K J path s c with
    | (.error e, _) => .error e
    | (.ok _, s) => runCalls s cs

/-- Open the log, make the calls, drop it; again for each list of calls.  The
result is the file and the last hash. -/
def runSessions : FileRead → String → List (List Call) → Except String (FileRead × String)
  | file, last, [] => .ok (file, last)
  | file, _, calls :: rest =>
    match openLog K J path file (.ok ()) with
    | .error e => .error e
    | .ok s =>
      match runCalls K J path s calls with
      | .error e => .error e
      | .ok s => runSessions (.content s.file) s.lastHashB64 rest

end Runs

section Spec

variable {K : Crates} {J : Json Entry} {path : String}

/-- What a call does, by the fault it meets. -/
theorem runCall_eq (s : LogState) (c : Call) {line : String}
    (hl : J.toString (c.args.entry K c.ts s.lastHashB64) = .ok line) :
    runCall K J path s c =
      match c.fault with
      | none =>
        (.ok (), ⟨s.file ++ lineBytes line, (c.args.entry K c.ts s.lastHashB64).hashB64⟩)
      | some (.write k e) =>
        (.error (withContext ("cannot write audit log " ++ debugStr K.escaped path) e),
          { s with file := s.file ++ (lineBytes line).take k })
      | some (.flush e) =>
        (.error (withContext ("cannot flush audit log " ++ debugStr K.escaped path) e),
          { s with file := s.file ++ lineBytes line }) := by
  simp only [runCall, append, Prog.run, LogState.handle]
  rw [hl]
  obtain ⟨args, ts, fault⟩ := c
  rcases fault with _ | ⟨k, e⟩ | e <;> rfl

/-! ### Successful runs -/

/-- The call meets no fault. -/
def Call.Succeeds (c : Call) : Prop := c.fault = none

/-- The arguments recorded in an entry. -/
def Entry.args (e : Entry) : AppendArgs :=
  ⟨e.cn, e.operation, e.keyLabel, e.outcome, e.detail⟩

theorem Entry.args_entry (a : AppendArgs) (ts prev : String) : (a.entry K ts prev).args = a := rfl

theorem runCalls_holds (hJ : J.Lawful) {calls : List Call} (hok : ∀ c ∈ calls, c.Succeeds)
    {s : LogState} {es : List Entry} (h : s.Holds K J es) :
    ∃ s' fs, runCalls K J path s calls = .ok s' ∧ s'.Holds K J (es ++ fs) ∧
      fs.map Entry.args = calls.map Call.args := by
  induction calls generalizing s es with
  | nil => exact ⟨s, [], rfl, by simpa using h, rfl⟩
  | cons c cs ih =>
    obtain ⟨line, hl, -⟩ := hJ.fromStr_toString (c.args.entry K c.ts s.lastHashB64)
    have hc : c.fault = none := hok c (by simp)
    have hrun := @runCall_eq K J path s c line hl
    rw [hc] at hrun
    obtain ⟨s', fs, hs', hh, hargs⟩ :=
      ih (fun c hc => hok c (List.mem_cons_of_mem _ hc)) (h.append hJ hl)
    refine ⟨s', c.args.entry K c.ts s.lastHashB64 :: fs, ?_, by simpa using hh, ?_⟩
    · rw [runCalls, hrun]
      exact hs'
    · rw [List.map_cons, List.map_cons, hargs, Entry.args_entry]

theorem runSessions_holds (hJ : J.Lawful) {sessions : List (List Call)}
    (hok : ∀ calls ∈ sessions, ∀ c ∈ calls, c.Succeeds) {s : LogState} {es : List Entry}
    (h : s.Holds K J es) :
    ∃ (s' : LogState) (fs : List Entry),
      runSessions K J path (.content s.file) s.lastHashB64 sessions =
        .ok (.content s'.file, s'.lastHashB64) ∧ s'.Holds K J (es ++ fs) ∧
      fs.map Entry.args = sessions.flatten.map Call.args := by
  induction sessions generalizing s es with
  | nil => exact ⟨s, [], rfl, by simpa using h, rfl⟩
  | cons calls rest ih =>
    obtain ⟨s₁, fs₁, hr₁, hh₁, ha₁⟩ := runCalls_holds hJ (hok calls (by simp)) h
    obtain ⟨s₂, fs₂, hr₂, hh₂, ha₂⟩ :=
      ih (fun calls hc => hok calls (List.mem_cons_of_mem _ hc)) hh₁
    refine ⟨s₂, fs₁ ++ fs₂, ?_, by simpa using hh₂, ?_⟩
    · rw [runSessions, h.openLog]
      dsimp only
      rw [hr₁]
      exact hr₂
    · rw [List.flatten_cons, List.map_append, List.map_append, ha₁, ha₂]

/-- **Round trip.**  From a missing file, any successful appends, split in any way by
dropping and re-opening the log: every open succeeds, `verify_chain` on the final
file returns the last hash (`GENESIS` if nothing was appended), and the entries it
reads are the appended ones, one for each call and in order. -/
theorem runSessions_roundtrip (hJ : J.Lawful) {sessions : List (List Call)}
    (hok : ∀ calls ∈ sessions, ∀ c ∈ calls, c.Succeeds) :
    ∃ file last es, runSessions K J path .notFound genesis sessions = .ok (file, last) ∧
      verifyChain K J path file = .ok last ∧ file.entries J = some es ∧
      es.map Entry.args = sessions.flatten.map Call.args ∧
      (sessions.flatten = [] → last = genesis) := by
  rcases sessions with _ | ⟨calls, rest⟩
  · exact ⟨.notFound, genesis, [], rfl, rfl, rfl, rfl, fun _ => rfl⟩
  -- the first open finds no file and creates an empty one; from there on the log holds
  obtain ⟨s, fs, hr, hh, ha⟩ := @runSessions_holds K J path hJ _ hok _ _ holds_empty
  have hfirst : runSessions K J path .notFound genesis (calls :: rest) =
      runSessions K J path (.content []) genesis (calls :: rest) := rfl
  refine ⟨.content s.file, s.lastHashB64, fs, hfirst.trans hr, hh.verifyChain, hh.parsed, ha, ?_⟩
  intro hnil
  rw [hnil, List.map_nil, List.map_eq_nil_iff] at ha
  have hc := hh.chained
  rw [ha] at hc
  exact (Option.some_inj.mp hc).symm

end Spec

/-- Client-controlled text, with line breaks and quotes, over two sessions. -/
def sampleSessions : List (List Call) :=
  [[⟨⟨"app-a", "sign", "k\n1", .intent, ""⟩, "2026-01-01T00:00:00.000Z", none⟩,
    ⟨⟨"app-a", "sign", "k\n1", .error, "sign failed: \"k\r\n1\""⟩, "2026-01-01T00:00:00.001Z",
      none⟩],
   [⟨⟨"app-b", "connect", "", .certExpiringSoon, "expires in 3d"⟩, "2026-01-02T00:00:00.000Z",
      none⟩]]

theorem runSessions_roundtrip_sampleSessions :
    ∃ file last es,
      runSessions Ref.crates Ref.entryJson "audit.jsonl" .notFound genesis sampleSessions =
        .ok (file, last) ∧
      verifyChain Ref.crates Ref.entryJson "audit.jsonl" file = .ok last ∧
      file.entries Ref.entryJson = some es ∧
      es.map Entry.args = sampleSessions.flatten.map Call.args ∧
      (sampleSessions.flatten = [] → last = genesis) :=
  runSessions_roundtrip Ref.entryJson_lawful (by simp [sampleSessions, Call.Succeeds])

/-! ### Runs in which appends fail -/

section Faults

variable (K : Crates) (J : Json Entry) (path : String)

/-- All the calls, whatever each one returns; with the state, the entries whose
append returned `Ok`. -/
def runAll : LogState → List Call → LogState × List Entry
  | s, [] => (s, [])
  | s, c :: cs =>
    match runCall K J path s c with
    | (.error _, s') => runAll s' cs
    | (.ok _, s') =>
      ((runAll s' cs).1, c.args.entry K c.ts s.lastHashB64 :: (runAll s' cs).2)

/-- `verify_chain` accepts the file after these calls, and has every entry whose
append returned `Ok`, in order. -/
def Readable (s : LogState) (calls : List Call) : Prop :=
  ∃ h es, verifyChain K J path (.content (runAll K J path s calls).1.file) = .ok h ∧
    parseLog J (runAll K J path s calls).1.file = some es ∧
    (runAll K J path s calls).2.Sublist es

/-- The call fails before its first byte. -/
def Call.Silent (c : Call) : Prop := ∃ e, c.fault = some (.write 0 e)

/-- The call fails when the whole text of its entry is written, with or without the
line feed. -/
def Call.Whole (s : LogState) (c : Call) : Prop :=
  match c.fault with
  | none => False
  | some (.flush _) => True
  | some (.write k _) => ∀ line, J.toString (c.args.entry K c.ts s.lastHashB64) = .ok line →
      (utf8 line).length ≤ k

/-- Every call succeeds or fails before its first byte, until at most one that fails
when its whole text is written; behind that one nothing is written any more. -/
def Tolerable : LogState → List Call → Prop
  | _, [] => True
  | s, c :: cs =>
    ((c.Succeeds ∨ c.Silent) ∧ Tolerable (runCall K J path s c).2 cs) ∨
      (c.Whole K J s ∧ ∀ c' ∈ cs, c'.Silent)

end Faults

section FaultSpec

variable {K : Crates} {J : Json Entry} {path : String} {s : LogState} {es : List Entry}

/-- A tolerable run is tolerable up to every point of it. -/
theorem Tolerable.of_append {cs ds : List Call} (h : Tolerable K J path s (cs ++ ds)) :
    Tolerable K J path s cs := by
  induction cs generalizing s with
  | nil => trivial
  | cons c cs ih =>
    rcases h with ⟨hc, h⟩ | ⟨hw, h⟩
    · exact Or.inl ⟨hc, ih h⟩
    · exact Or.inr ⟨hw, fun c' hc' => h c' (List.mem_append_left _ hc')⟩

/-- A silent call changes nothing. -/
theorem runCall_silent (hJ : J.Lawful) {c : Call} (hc : c.Silent) :
    ∃ e, runCall K J path s c = (.error e, s) := by
  obtain ⟨line, hl, -⟩ := hJ.fromStr_toString (c.args.entry K c.ts s.lastHashB64)
  obtain ⟨e, he⟩ := hc
  refine ⟨withContext ("cannot write audit log " ++ debugStr K.escaped path) e,
    (runCall_eq s c hl).trans ?_⟩
  rw [he]
  dsimp only
  rw [List.take_zero, List.append_nil]

theorem runAll_silent (hJ : J.Lawful) {cs : List Call} (hcs : ∀ c ∈ cs, c.Silent) :
    runAll K J path s cs = (s, []) := by
  induction cs with
  | nil => rfl
  | cons c cs ih =>
    obtain ⟨e, he⟩ := @runCall_silent K J path s hJ c (hcs c (by simp))
    rw [runAll, he]
    exact ih fun c hc => hcs c (List.mem_cons_of_mem _ hc)

/-- An entry's text at the end of the file is read even without its line feed. -/
theorem parseLog_append_text (hJ : J.Lawful) {bytes : List UInt8} (hT : Terminated bytes)
    (hes : parseLog J bytes = some es) {e : Entry} {line : String}
    (h : J.toString e = .ok line) : parseLog J (bytes ++ utf8 line) = some (es ++ [e]) := by
  have hne : utf8 line ≠ [] := by
    intro hnil
    -- the empty line is blank, so it would hold no entry
    have hempty : parseLines J [utf8 ""] = some [] := rfl
    have hline : line = "" := utf8_inj (hnil.trans (show [] = utf8 "" from rfl))
    have hread := parseLines_line hJ h
    rw [hline, hempty] at hread
    exact absurd hread (by simp)
  rw [parseLog, lines_append hT, parseLines_append, ← parseLog, hes,
    lines_unterminated (hJ.noBreak e line h).1 hne, parseLines_line hJ h]
  rfl

/-- What a failed call that wrote its whole text leaves in the file. -/
theorem runCall_whole (hJ : J.Lawful) (h : s.Holds K J es) {c : Call} (hc : c.Whole K J s) :
    ∃ e s', runCall K J path s c = (.error e, s') ∧
      parseLog J s'.file = some (es ++ [c.args.entry K c.ts s.lastHashB64]) := by
  obtain ⟨line, hl, -⟩ := hJ.fromStr_toString (c.args.entry K c.ts s.lastHashB64)
  have hrun := @runCall_eq K J path s c line hl
  obtain ⟨args, ts, fault⟩ := c
  rcases fault with _ | ⟨k, e⟩ | e
  · exact absurd hc (by simp [Call.Whole])
  · refine ⟨_, _, hrun, ?_⟩
    have hk : (utf8 line).length ≤ k := hc line hl
    -- at least the text is there; the line feed may be missing
    rcases Nat.lt_or_ge (utf8 line).length k with hlt | hge
    · have htake : (lineBytes line).take k = lineBytes line :=
        List.take_of_length_le (by rw [lineBytes_eq, List.length_append]; exact hlt)
      dsimp only
      rw [htake]
      exact parseLog_append_line hJ h.terminated h.parsed hl
    · have htake : (lineBytes line).take k = utf8 line := by
        rw [lineBytes_eq, show k = (utf8 line).length by omega, List.take_left]
      dsimp only
      rw [htake]
      exact parseLog_append_text hJ h.terminated h.parsed hl
  · exact ⟨_, _, hrun, parseLog_append_line hJ h.terminated h.parsed hl⟩

theorem runAll_holds (hJ : J.Lawful) {calls : List Call} (h : s.Holds K J es)
    (ht : Tolerable K J path s calls) :
    ∃ h' fs, HashChain.check (Entry.links K) genesis (es ++ fs) = some h' ∧
      parseLog J (runAll K J path s calls).1.file = some (es ++ fs) ∧
      (runAll K J path s calls).2.Sublist fs := by
  induction calls generalizing s es with
  | nil =>
    refine ⟨s.lastHashB64, [], ?_, ?_, List.Sublist.slnil⟩
    · rw [List.append_nil]
      exact h.chained
    · rw [List.append_nil]
      exact h.parsed
  | cons c cs ih =>
    rcases ht with ⟨hc | hc, ht⟩ | ⟨hw, hcs⟩
    -- the call succeeds: the log goes on with its entry
    · obtain ⟨line, hl, -⟩ := hJ.fromStr_toString (c.args.entry K c.ts s.lastHashB64)
      have hrun := @runCall_eq K J path s c line hl
      rw [show c.fault = none from hc] at hrun
      rw [hrun] at ht
      obtain ⟨h', fs, hck, hp, hsub⟩ := ih (h.append hJ hl) ht
      refine ⟨h', c.args.entry K c.ts s.lastHashB64 :: fs, by simpa using hck, ?_, ?_⟩
      · rw [runAll, hrun]
        simpa using hp
      · rw [runAll, hrun]
        exact hsub.cons_cons _
    · obtain ⟨e, he⟩ := @runCall_silent K J path s hJ c hc
      rw [he] at ht
      obtain ⟨h', fs, hck, hp, hsub⟩ := ih h ht
      rw [runAll, he]
      exact ⟨h', fs, hck, hp, hsub⟩
    · obtain ⟨e, s', he, hp⟩ := @runCall_whole K J path s es hJ h c hw
      rw [runAll, he]
      dsimp only
      -- behind this call the file stays as it is
      rw [runAll_silent hJ hcs]
      exact ⟨_, [c.args.entry K c.ts s.lastHashB64], check_entry h.chained _ _, hp,
        List.nil_sublist _⟩

/-- **Failed appends that leave the log readable.**  On a log opened from a missing
file, along every tolerable run: after each call `verify_chain` accepts the file and
reads every entry whose append returned `Ok`, in order. -/
theorem runAll_accepted (hJ : J.Lawful) {calls done : List Call}
    (ht : Tolerable K J path ⟨[], genesis⟩ calls) (hd : done <+: calls) :
    Readable K J path ⟨[], genesis⟩ done := by
  obtain ⟨rest, rfl⟩ := hd
  obtain ⟨h, es, hc, hp, hsub⟩ := runAll_holds hJ holds_empty ht.of_append
  rw [List.nil_append] at hc hp
  exact ⟨h, es, verifyChain_ok.mpr ⟨es, hp, hc⟩, hp, hsub⟩

end FaultSpec

/-- A disk that is full for one append, has room again, and fails the last flush. -/
def faultyCalls : List Call :=
  [⟨⟨"app-a", "sign", "k1", .intent, ""⟩, "2026-01-01T00:00:00.000Z", none⟩,
    ⟨⟨"app-a", "sign", "k1", .authorized, ""⟩, "2026-01-01T00:00:00.001Z",
      some (.write 0 "No space left on device (os error 28)")⟩,
    ⟨⟨"app-b", "sign", "k1", .intent, ""⟩, "2026-01-01T00:00:00.002Z", none⟩,
    ⟨⟨"app-b", "sign", "k1", .authorized, ""⟩, "2026-01-01T00:00:00.003Z",
      some (.flush "Input/output error (os error 5)")⟩]

theorem runAll_accepted_faultyCalls :
    Tolerable Ref.crates Ref.entryJson "audit.jsonl" ⟨[], genesis⟩ faultyCalls ∧
      Readable Ref.crates Ref.entryJson "audit.jsonl" ⟨[], genesis⟩ faultyCalls := by
  have ht : Tolerable Ref.crates Ref.entryJson "audit.jsonl" ⟨[], genesis⟩ faultyCalls := by
    refine Or.inl ⟨Or.inl rfl, Or.inl ⟨Or.inr ⟨_, rfl⟩, Or.inl ⟨Or.inl rfl, Or.inr ⟨trivial, ?_⟩⟩⟩⟩
    intro c hc
    exact absurd hc (by simp)
  exact ⟨ht, runAll_accepted Ref.entryJson_lawful ht (List.prefix_refl _)⟩

/-- A disk that is full after five bytes of the first line, and has room again. -/
def tornCalls : List Call :=
  [⟨⟨"app-a", "sign", "k1", .intent, ""⟩, "2026-01-01T00:00:00.000Z",
      some (.write 5 "No space left on device (os error 28)")⟩,
    ⟨⟨"app-b", "sign", "k1", .intent, ""⟩, "2026-01-01T00:00:00.001Z", none⟩]

/-- The first five bytes of a line. -/
def tornText : String := "\x7b\"ts\""

theorem take_lineBytes (e : Entry) :
    (lineBytes (String.ofList (Ref.writeEntry e))).take 5 = utf8 tornText := by
  have hcons : Ref.writeEntry e = tornText.toList ++ (Ref.writeEntry e).drop 5 := rfl
  rw [lineBytes, hcons, String.ofList_append, String.ofList_toList, utf8_append, utf8_append,
    List.append_assoc]
  exact List.take_left' rfl

/-- Behind them, no line can be read. -/
theorem parseLog_tornText (e : Entry) :
    parseLog Ref.entryJson (utf8 tornText ++ lineBytes (String.ofList (Ref.writeEntry e))) =
      none := by
  obtain ⟨rest, hrest⟩ := Ref.writeEntry_cons e
  obtain ⟨hlf, hcr⟩ := Ref.entryJson_lawful.noBreak e _ rfl
  have hline : utf8 tornText ++ lineBytes (String.ofList (Ref.writeEntry e)) =
      utf8 (tornText ++ String.ofList (Ref.writeEntry e)) ++ [lf] := by
    rw [lineBytes_eq, utf8_append, List.append_assoc]
  have hchars : (tornText ++ String.ofList (Ref.writeEntry e)).toList =
      tornText.toList ++ '\x7b' :: rest := by
    rw [String.toList_append, String.toList_ofList, hrest]
  have hbreak : ∀ b, b ∉ utf8 tornText → b ∉ utf8 (String.ofList (Ref.writeEntry e)) →
      b ∉ utf8 (tornText ++ String.ofList (Ref.writeEntry e)) := by
    intro b h₁ h₂
    rw [utf8_append, List.mem_append, not_or]
    exact ⟨h₁, h₂⟩
  rw [parseLog, hline, lines_line (hbreak lf (by decide) hlf) (hbreak cr (by decide) hcr),
    parseLines, fromUtf8_utf8]
  have hread : Ref.entryJson.fromStr (tornText ++ String.ofList (Ref.writeEntry e)) =
      .error "expected an audit entry" := by
    simp only [Ref.entryJson, hchars]
    have hnone : Ref.readString Ref.tsKey (tornText.toList ++ '\x7b' :: rest) = none := by
      rw [Ref.readString, Ref.expect, if_neg]
      show ¬ ['\x7b', '"', 't', 's', '"', ':', '"'] <+:
        '\x7b' :: '"' :: 't' :: 's' :: '"' :: '\x7b' :: rest
      simp [List.cons_prefix_cons]
    simp [Ref.readEntry, hnone]
  have hblank : trim (tornText ++ String.ofList (Ref.writeEntry e)) ≠ "" := by
    intro h
    have := trim_eq_empty_iff.mp h '\x7b' (by rw [hchars]; exact List.mem_cons_self)
    exact absurd this (by decide)
  dsimp only
  rw [if_neg hblank, hread]

/-- The second append returns `Ok`, but its line stands behind the five bytes of the
first, and `verify_chain` refuses the file. -/
theorem not_readable_tornCalls :
    ¬ Readable Ref.crates Ref.entryJson "audit.jsonl" ⟨[], genesis⟩ tornCalls := by
  rintro ⟨h, es, -, hp, -⟩
  have hfile : ∃ e, (runAll Ref.crates Ref.entryJson "audit.jsonl" ⟨[], genesis⟩ tornCalls).1.file =
      utf8 tornText ++ lineBytes (String.ofList (Ref.writeEntry e)) := by
    rw [tornCalls, runAll, runCall_eq _ _ rfl]
    dsimp only
    rw [runAll, runCall_eq _ _ rfl, take_lineBytes]
    exact ⟨_, rfl⟩
  obtain ⟨e, he⟩ := hfile
  rw [he, parseLog_tornText] at hp
  exact absurd hp (by simp)

end PicoHsm
