/-
Hash-chained audit log (`audit.rs`).

The log is a file of JSON lines and, in memory, the hash of its last entry.  Code
that touches them is a program over four operations, one for each critical section
of the source: reading the clock, reading `last_hash_b64` under its lock, writing a
line and flushing it under the file lock, and storing `last_hash_b64` under its lock
again.  `verifyChain` is pure: it reads one file.

* `LogState.act` — what those operations do to the log, failed writes included;
* `append` — the source's `AuditLog::append`;
* `verifyChain`, `openLog` — the source's `verify_chain` and `AuditLog::open`;
* `verifyChain_ok` — what `verify_chain` accepts: every non-blank line parses, and
  the entries form a chain (`HashChain.check`) from `GENESIS`.
-/
import PicoHsm.Crates
import PicoHsm.Framing
import PicoHsm.HashChain
import PicoHsm.Prog

namespace PicoHsm

open Text Effects

inductive Outcome where
  | intent
  | authorized
  | denied
  | error
  | certExpiringSoon
  deriving DecidableEq, Repr

/-- `serde_json::to_string(&outcome)`: a JSON string in snake case. -/
def Outcome.json : Outcome → String
  | .intent => "\"intent\""
  | .authorized => "\"authorized\""
  | .denied => "\"denied\""
  | .error => "\"error\""
  | .certExpiringSoon => "\"cert_expiring_soon\""

theorem Outcome.json_inj {o o' : Outcome} (h : o.json = o'.json) : o = o' := by
  cases o <;> cases o' <;> first | rfl | exact absurd h (by decide)

/-- One line of the log. -/
structure Entry where
  ts : String
  cn : String
  operation : String
  keyLabel : String
  outcome : Outcome
  detail : String
  prevHashB64 : String
  hashB64 : String
  deriving DecidableEq, Repr

def genesis : String := "GENESIS"

/-- The bytes fed to the hash: seven parts, each behind its length. -/
def entryPreimage (prevHashB64 ts cn op label : String) (outcome : Outcome) (detail : String) :
    List UInt8 :=
  Framing.frames [utf8 prevHashB64, utf8 ts, utf8 cn, utf8 op, utf8 label, utf8 outcome.json,
    utf8 detail]

def entryHash (K : Crates) (prevHashB64 ts cn op label : String) (outcome : Outcome)
    (detail : String) : String :=
  K.b64.encode (K.sha256 (entryPreimage prevHashB64 ts cn op label outcome detail))

namespace Entry

/-- The bytes this entry's hash is computed from. -/
def preimage (e : Entry) : List UInt8 :=
  entryPreimage e.prevHashB64 e.ts e.cn e.operation e.keyLabel e.outcome e.detail

/-- The hash recomputed from the entry's fields. -/
def recomputed (K : Crates) (e : Entry) : String :=
  entryHash K e.prevHashB64 e.ts e.cn e.operation e.keyLabel e.outcome e.detail

/-- Audit entries as links of a hash chain. -/
def links (K : Crates) : HashChain.Links Entry String where
  prev := prevHashB64
  stored := hashB64
  digest := recomputed K

end Entry

/-! ### Verification -/

section Verify

variable (K : Crates) (J : Json Entry) (path : String)

/-- What opening the log file and reading it gives. -/
inductive FileRead where
  | notFound
  | failed (e : String)
  | content (bytes : List UInt8)
  /-- Reading fails behind these bytes. -/
  | broken (bytes : List UInt8) (e : String)

/-- The loop of `verify_chain`, at line `idx` with `expected_prev` so far. -/
def verifyLines : Nat → String → List (List UInt8) → Except String String
  | _, expectedPrev, [] => .ok expectedPrev
  | idx, expectedPrev, l :: rest =>
    match fromUtf8 l with
    | none =>
      .error (withContext ("cannot read audit log " ++ debugStr K.escaped path ++ " line " ++
        toString idx) "stream did not contain valid UTF-8")
    | some line =>
      -- blank lines are skipped, and counted
      if trim line = "" then verifyLines (idx + 1) expectedPrev rest
      else
        match J.fromStr line with
        | .error e =>
          .error (withContext ("audit log " ++ debugStr K.escaped path ++ " line " ++
            toString idx ++ ": invalid JSON") e)
        | .ok entry =>
          -- the link to the entry before, then the entry's own hash
          if entry.prevHashB64 ≠ expectedPrev then
            .error ("audit log " ++ debugStr K.escaped path ++ " line " ++ toString idx ++
              ": chain gap (prev hash mismatch)")
          else if entry.recomputed K ≠ entry.hashB64 then
            .error ("audit log " ++ debugStr K.escaped path ++ " line " ++ toString idx ++
              ": entry hash mismatch (tampered?)")
          else verifyLines (idx + 1) entry.hashB64 rest

def verifyChain : FileRead → Except String String
  | .notFound => .ok genesis
  | .failed e => .error ("cannot open audit log " ++ debugStr K.escaped path ++ ": " ++ e)
  | .content bytes => verifyLines K J path 0 genesis (lines bytes)
  | .broken bytes e =>
    -- a line is looked at when all of it has been read
    match verifyLines K J path 0 genesis ((splitLf bytes).1.map stripCr) with
    | .error e' => .error e'
    | .ok _ =>
      .error (withContext ("cannot read audit log " ++ debugStr K.escaped path ++ " line " ++
        toString (splitLf bytes).1.length) e)

end Verify

/-! ### The log and its operations -/

/-- Why `write_all` or `flush` failed. -/
inductive WriteError where
  | write (e : String)
  | flush (e : String)

inductive AuditOp where
  /-- `Utc::now().to_rfc3339_opts(..)` -/
  | now
  /-- `last_hash_b64.lock().clone()` -/
  | lastHash
  /-- `write_all` and `flush` under the file lock. -/
  | writeLine (bytes : List UInt8)
  /-- `*last_hash_b64.lock() = hash` -/
  | setLastHash (hash : String)

def AuditOp.Ret : AuditOp → Type
  | .now => String
  | .lastHash => String
  | .writeLine _ => Except WriteError Unit
  | .setLastHash _ => Unit

abbrev auditSig : Sig := ⟨AuditOp, AuditOp.Ret⟩

/-- The file's bytes and the hash held in memory. -/
structure LogState where
  file : List UInt8
  lastHashB64 : String

/-- The operations on the log.  A failed write may leave any prefix of the line in
the file, a failed flush has written all of it. -/
def LogState.act (s : LogState) : Ev auditSig → LogState → Prop
  | ⟨.now, _⟩, s' => s' = s
  | ⟨.lastHash, h⟩, s' => h = s.lastHashB64 ∧ s' = s
  | ⟨.writeLine bytes, .ok _⟩, s' => s' = { s with file := s.file ++ bytes }
  | ⟨.writeLine bytes, .error (.write _)⟩, s' =>
    ∃ k, s' = { s with file := s.file ++ bytes.take k }
  | ⟨.writeLine bytes, .error (.flush _)⟩, s' => s' = { s with file := s.file ++ bytes }
  | ⟨.setLastHash h, _⟩, s' => s' = { s with lastHashB64 := h }

section Append

variable (K : Crates) (J : Json Entry) (path : String)

/-- `AuditLog::open`; `opened` is the outcome of opening the file for appending,
which creates it if it is missing. -/
def openLog (file : FileRead) (opened : Except String Unit) : Except String LogState :=
  match verifyChain K J path file with
  | .error e => .error (withContext ("audit chain broken in " ++ debugStr K.escaped path) e)
  | .ok last =>
    match opened with
    | .error e => .error (withContext ("cannot open audit log " ++ debugStr K.escaped path) e)
    | .ok _ =>
      match file with
      | .content bytes => .ok ⟨bytes, last⟩
      | _ => .ok ⟨[], last⟩

/-- The arguments of one `append`. -/
structure AppendArgs where
  cn : String
  operation : String
  keyLabel : String
  outcome : Outcome
  detail : String
  deriving DecidableEq, Repr

/-- The entry `append` writes when the clock says `ts` and the last hash is `prev`. -/
def AppendArgs.entry (a : AppendArgs) (ts prev : String) : Entry :=
  { ts := ts
    cn := a.cn
    operation := a.operation
    keyLabel := a.keyLabel
    outcome := a.outcome
    detail := a.detail
    prevHashB64 := prev
    hashB64 := entryHash K prev ts a.cn a.operation a.keyLabel a.outcome a.detail }

/-- The bytes of an entry's line, with its line feed. -/
def lineBytes (line : String) : List UInt8 := utf8 (line ++ "\n")

/-- The second half of `append`: write the entry's line, then store its hash. -/
def storeLine (entry : Entry) (line : String) : Prog auditSig (Except String Unit) :=
  .call (.writeLine (lineBytes line)) fun (r : Except WriteError Unit) =>
    match r with
    | .error (.write e) =>
      .ret (.error (withContext ("cannot write audit log " ++ debugStr K.escaped path) e))
    | .error (.flush e) =>
      .ret (.error (withContext ("cannot flush audit log " ++ debugStr K.escaped path) e))
    | .ok _ => .call (.setLastHash entry.hashB64) fun _ => .ret (.ok ())

/-- `AuditLog::append` -/
def append (a : AppendArgs) : Prog auditSig (Except String Unit) :=
  .call .now fun (ts : String) =>
  .call .lastHash fun (prev : String) =>
    match J.toString (a.entry K ts prev) with
    | .error e => .ret (.error (withContext "audit serialize error" e))
    | .ok line => storeLine K path (a.entry K ts prev) line

end Append

/-! ### What `verify_chain` accepts -/

/-- The entries on these lines, if every line that is not blank holds one. -/
def parseLines (J : Json Entry) : List (List UInt8) → Option (List Entry)
  | [] => some []
  | l :: rest =>
    match fromUtf8 l with
    | none => none
    | some line =>
      if trim line = "" then parseLines J rest
      else
        match J.fromStr line with
        | .error _ => none
        | .ok entry => (parseLines J rest).map (entry :: ·)

/-- The entry sequence of a log file. -/
def parseLog (J : Json Entry) (bytes : List UInt8) : Option (List Entry) :=
  parseLines J (lines bytes)

/-- The entries of what was read; a missing file has none. -/
def FileRead.entries (J : Json Entry) : FileRead → Option (List Entry)
  | .notFound => some []
  | .failed _ => none
  | .content bytes => parseLog J bytes
  | .broken _ _ => none

section

variable {K : Crates} {J : Json Entry} {path : String}

theorem parseLines_append {ls ms : List (List UInt8)} :
    parseLines J (ls ++ ms) =
      (parseLines J ls).bind fun es => (parseLines J ms).map (es ++ ·) := by
  induction ls with
  | nil => simp [parseLines]
  | cons l ls ih =>
    rw [List.cons_append, parseLines, parseLines]
    rcases fromUtf8 l with _ | line
    · rfl
    dsimp only
    split
    · exact ih
    · rcases J.fromStr line with e | entry
      · rfl
      · dsimp only
        rw [ih]
        rcases parseLines J ls with _ | es
        · rfl
        · rcases parseLines J ms with _ | fs <;> rfl

/-- The loop is parsing followed by the chain check. -/
theorem verifyLines_ok {idx : Nat} {g h : String} {ls : List (List UInt8)} :
    verifyLines K J path idx g ls = .ok h ↔
      ∃ es, parseLines J ls = some es ∧ HashChain.check (Entry.links K) g es = some h := by
  induction ls generalizing idx g with
  | nil => simp [verifyLines, parseLines]
  | cons l ls ih =>
    rw [verifyLines, parseLines]
    rcases fromUtf8 l with _ | line
    · simp
    dsimp only
    by_cases hb : trim line = ""
    · rw [if_pos hb, if_pos hb]
      exact ih
    rw [if_neg hb, if_neg hb]
    rcases J.fromStr line with e | entry
    · simp
    dsimp only
    -- both sides now test the entry's link and then its hash
    by_cases hp : entry.prevHashB64 = g
    · by_cases hr : entry.recomputed K = entry.hashB64
      · rw [if_neg (not_not.mpr hp), if_neg (not_not.mpr hr), ih]
        constructor
        · rintro ⟨es, hes, hc⟩
          exact ⟨entry :: es, by rw [hes]; rfl, HashChain.check_cons.mpr ⟨hp, hr, hc⟩⟩
        · rintro ⟨es, hes, hc⟩
          obtain ⟨es', hes', rfl⟩ := Option.map_eq_some_iff.mp hes
          exact ⟨es', hes', (HashChain.check_cons.mp hc).2.2⟩
      · rw [if_neg (not_not.mpr hp), if_pos hr]
        refine ⟨fun h => by simp at h, ?_⟩
        rintro ⟨es, hes, hc⟩
        obtain ⟨es', -, rfl⟩ := Option.map_eq_some_iff.mp hes
        exact absurd (HashChain.check_cons.mp hc).2.1 hr
    · rw [if_pos hp]
      refine ⟨fun h => by simp at h, ?_⟩
      rintro ⟨es, hes, hc⟩
      obtain ⟨es', -, rfl⟩ := Option.map_eq_some_iff.mp hes
      exact absurd (HashChain.check_cons.mp hc).1 hp

/-- **What `verify_chain` accepts.** -/
theorem verifyChain_ok {file : FileRead} {h : String} :
    verifyChain K J path file = .ok h ↔
      ∃ es, file.entries J = some es ∧
        HashChain.check (Entry.links K) genesis es = some h := by
  cases file with
  | notFound => simp [verifyChain, FileRead.entries]
  | failed e => simp [verifyChain, FileRead.entries]
  | content bytes => exact verifyLines_ok
  | broken bytes e =>
    rw [verifyChain]
    split
    · simp [FileRead.entries]
    · simp [FileRead.entries]

/-! ### A line behind a terminated file -/

theorem lineBytes_eq (line : String) : lineBytes line = utf8 line ++ [lf] := by
  rw [lineBytes, utf8_append]
  rfl

/-- A serialized entry is on one line, and that line parses back to it. -/
theorem parseLines_line (hJ : J.Lawful) {e : Entry} {line : String}
    (h : J.toString e = .ok line) : parseLines J [utf8 line] = some [e] := by
  obtain ⟨s, hs, hp⟩ := hJ.fromStr_toString e
  obtain rfl : s = line := by
    rw [h, Except.ok.injEq] at hs
    exact hs.symm
  have hb : trim s ≠ "" := by
    intro hb
    obtain ⟨err, he⟩ := hJ.blank s hb
    rw [hp] at he
    exact absurd he (by simp)
  rw [parseLines, fromUtf8_utf8]
  dsimp only
  rw [if_neg hb, hp]
  rfl

theorem lines_lineBytes (hJ : J.Lawful) {e : Entry} {line : String}
    (h : J.toString e = .ok line) : lines (lineBytes line) = [utf8 line] := by
  rw [lineBytes_eq]
  exact lines_line (hJ.noBreak e line h).1 (hJ.noBreak e line h).2

theorem terminated_lineBytes (hJ : J.Lawful) {e : Entry} {line : String}
    (h : J.toString e = .ok line) : Terminated (lineBytes line) := by
  rw [lineBytes_eq]
  exact terminated_line (hJ.noBreak e line h).1

/-- Writing an entry's line to a terminated file adds exactly that entry. -/
theorem parseLog_append_line (hJ : J.Lawful) {bytes : List UInt8} (hT : Terminated bytes)
    {es : List Entry} (hes : parseLog J bytes = some es) {e : Entry} {line : String}
    (h : J.toString e = .ok line) : parseLog J (bytes ++ lineBytes line) = some (es ++ [e]) := by
  rw [parseLog, lines_append hT, parseLines_append, ← parseLog, hes, lines_lineBytes hJ h,
    parseLines_line hJ h]
  rfl

end

end PicoHsm
