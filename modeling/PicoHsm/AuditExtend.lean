/-
Extending a log that is already there.

`open` accepts every file whose lines are blank or parse to a chain, also one whose
last line has no line feed; `append` writes at the end of the file.  So the first
appended entry stands behind whatever follows the last line feed, on the same line.

* `parseLog_append_tail` — what is read of that line;
* `extended_iff` — an accepted file can be extended exactly when nothing but JSON
  whitespace follows its last line feed.
-/
import PicoHsm.AuditRuns

namespace PicoHsm

open Text Effects

/-! ### What follows the last line feed -/

/-- The bytes behind the last line feed. -/
def tailOf (bytes : List UInt8) : List UInt8 := (splitLf bytes).2

/-- The lines that have their line feed. -/
def headLines (bytes : List UInt8) : List (List UInt8) := (splitLf bytes).1.map stripCr

/-- Nothing but JSON whitespace: spaces, tabs and carriage returns. -/
def BlankTail (bytes : List UInt8) : Prop :=
  ∃ w : String, tailOf bytes = utf8 w ∧ w.toList.all jsonWhitespace = true

section Tail

variable {K : Crates} {J : Json Entry} {path : String}

theorem trim_of_jsonWhitespace {w : String} (h : w.toList.all jsonWhitespace = true) :
    trim w = "" :=
  trim_eq_empty_iff.mpr fun c hc => isWhitespace_of_jsonWhitespace (List.all_eq_true.mp h c hc)

/-- What is read of a file is what is read of its head and of its tail. -/
theorem parseLog_eq_tail (bytes : List UInt8) :
    parseLog J bytes =
      (parseLines J (headLines bytes)).bind fun es =>
        (parseLines J [tailOf bytes]).map (es ++ ·) := by
  rw [parseLog, lines, ← headLines, ← tailOf]
  by_cases ht : tailOf bytes = []
  · have hnil : parseLines J [[]] = some [] := rfl
    rw [if_pos ht, List.append_nil, ht, hnil]
    simp
  · rw [if_neg ht, parseLines_append]

/-- Behind a line, the file is read as its head, with the line behind its tail. -/
theorem parseLog_append_tail (hJ : J.Lawful) {e : Entry} {line : String}
    (hl : J.toString e = .ok line) (bytes : List UInt8) :
    parseLog J (bytes ++ lineBytes line) =
      (parseLines J (headLines bytes)).bind fun es =>
        (parseLines J [tailOf bytes ++ utf8 line]).map (es ++ ·) := by
  obtain ⟨hlf, hcr⟩ := hJ.noBreak e line hl
  have hne : utf8 line ≠ [] := by
    intro hnil
    have hread := parseLines_line hJ hl
    rw [hnil] at hread
    exact absurd hread (by simp [show parseLines J [[]] = some [] from rfl])
  -- the line does not end in a carriage return
  have hstrip : stripCr (tailOf bytes ++ utf8 line) = tailOf bytes ++ utf8 line := by
    rw [stripCr, if_neg]
    rw [List.getLast?_append_of_ne_nil _ hne]
    exact fun h => hcr (List.mem_of_getLast? h)
  rw [parseLog, lineBytes_eq, lines_append_line bytes hlf, ← headLines, ← tailOf, hstrip,
    parseLines_append]

/-- One line of text. -/
theorem parseLines_text (s : String) :
    parseLines J [utf8 s] =
      if trim s = "" then some [] else (J.fromStr s).toOption.map fun entry => [entry] := by
  rw [parseLines, fromUtf8_utf8]
  dsimp only
  split
  · rfl
  · rcases J.fromStr s with e | entry <;> rfl

/-- A line that can be read is text. -/
theorem exists_text {l : List UInt8} {es : List Entry} (h : parseLines J [l] = some es) :
    ∃ s, l = utf8 s := by
  rw [parseLines] at h
  rcases hl : fromUtf8 l with _ | s
  · rw [hl] at h
    exact absurd h (by simp)
  · exact ⟨s, utf8_of_fromUtf8 hl⟩

/-- Behind JSON whitespace an entry's text reads as the entry. -/
theorem parseLines_blank_line (hJ : J.Lawful) (hD : J.Delimited) {w : String}
    (hw : w.toList.all jsonWhitespace = true) {e : Entry} {line : String}
    (hl : J.toString e = .ok line) : parseLines J [utf8 w ++ utf8 line] = some [e] := by
  obtain ⟨s, hs, hread⟩ := hJ.fromStr_toString e
  obtain rfl : line = s := by
    rw [hl, Except.ok.injEq] at hs
    exact hs
  have hok := hD.leading w line e hw hread
  have hne : trim (w ++ line) ≠ "" := by
    intro hb
    obtain ⟨err, herr⟩ := hJ.blank _ hb
    rw [hok] at herr
    exact absurd herr (by simp)
  rw [← utf8_append, parseLines_text, if_neg hne, hok]
  rfl

/-- Behind anything else that could be read before, it cannot be read. -/
theorem parseLines_tail_line (hJ : J.Lawful) (hD : J.Delimited) {w : String} {es : List Entry}
    (hr : parseLines J [utf8 w] = some es) (hw : w.toList.all jsonWhitespace ≠ true) {e : Entry}
    {line : String} (hl : J.toString e = .ok line) :
    parseLines J [utf8 w ++ utf8 line] = none := by
  -- the line is not blank, so neither is what it ends
  have hline : trim line ≠ "" := by
    intro hb
    have hread := parseLines_line hJ hl
    rw [parseLines_text, if_pos hb] at hread
    exact absurd hread (by simp)
  have hne : trim (w ++ line) ≠ "" := by
    intro hb
    refine hline (trim_eq_empty_iff.mpr fun c hc => trim_eq_empty_iff.mp hb c ?_)
    rw [String.toList_append]
    exact List.mem_append_right _ hc
  suffices herr : ∃ err, J.fromStr (w ++ line) = .error err by
    obtain ⟨err, herr⟩ := herr
    rw [← utf8_append, parseLines_text, if_neg hne, herr]
    rfl
  rw [parseLines_text] at hr
  by_cases hb : trim w = ""
  · -- whitespace, but not all of it JSON's: the first that is not
    obtain ⟨c, rest, hdrop⟩ : ∃ c rest, w.toList.dropWhile jsonWhitespace = c :: rest := by
      rcases h : w.toList.dropWhile jsonWhitespace with _ | ⟨c, rest⟩
      · exact absurd (List.all_eq_true.mpr (List.dropWhile_eq_nil_iff.mp h)) hw
      · exact ⟨c, rest, rfl⟩
    have hsplit : w ++ line = String.ofList (w.toList.takeWhile jsonWhitespace) ++
        (String.singleton c ++ (String.ofList rest ++ line)) := by
      rw [← String.toList_inj]
      simp only [String.toList_append, String.toList_ofList, String.toList_singleton,
        List.singleton_append]
      rw [← List.cons_append, ← hdrop, ← List.append_assoc, List.takeWhile_append_dropWhile]
    have hmem : c ∈ w.toList := by
      rw [← List.takeWhile_append_dropWhile (p := jsonWhitespace) (l := w.toList), hdrop]
      simp
    have hc : jsonWhitespace c = false := by
      have := List.head_dropWhile_not jsonWhitespace (l := w.toList) (by rw [hdrop]; simp)
      simpa [hdrop] using this
    rw [hsplit]
    refine hD.noLeading _ c _ ?_ (trim_eq_empty_iff.mp hb c hmem) hc
    rw [String.toList_ofList]
    exact List.all_takeWhile
  · rw [if_neg hb] at hr
    rcases hs : J.fromStr w with err | e'
    · rw [hs] at hr
      exact absurd hr (by simp [Except.toOption])
    · rcases hs' : J.fromStr (w ++ line) with err | e''
      · exact ⟨err, rfl⟩
      · exact absurd (trim_of_jsonWhitespace (hD.trailing w line e' e'' hs hs')) hline

end Tail

/-! ### Appending to an accepted file -/

section Extend

variable {K : Crates} {J : Json Entry} {path : String}

/-- A file that `open` has accepted, as it is held from then on. -/
theorem openLog_ok {file : FileRead} {s : LogState} (h : openLog K J path file (.ok ()) = .ok s) :
    ∃ es, file.entries J = some es ∧ parseLog J s.file = some es ∧
      HashChain.check (Entry.links K) genesis es = some s.lastHashB64 := by
  rw [openLog] at h
  rcases hv : verifyChain K J path file with e | last
  · rw [hv] at h
    exact absurd h (by simp)
  rw [hv] at h
  obtain ⟨es, hes, hc⟩ := verifyChain_ok.mp hv
  cases file with
  | notFound =>
    cases h
    exact ⟨es, hes, hes, hc⟩
  | failed e => exact absurd hes (by simp [FileRead.entries])
  | broken bytes e => exact absurd hes (by simp [FileRead.entries])
  | content bytes =>
    cases h
    exact ⟨es, hes, hes, hc⟩

/-- Calls that meet no fault return, and only add to the file. -/
theorem runCalls_file (hJ : J.Lawful) {calls : List Call} (hok : ∀ c ∈ calls, c.Succeeds)
    (s : LogState) : ∃ s' more, runCalls K J path s calls = .ok s' ∧ s'.file = s.file ++ more := by
  induction calls generalizing s with
  | nil => exact ⟨s, [], rfl, (List.append_nil _).symm⟩
  | cons c cs ih =>
    obtain ⟨line, hl, -⟩ := hJ.fromStr_toString (c.args.entry K c.ts s.lastHashB64)
    have hrun := @runCall_eq K J path s c line hl
    rw [show c.fault = none from hok c List.mem_cons_self] at hrun
    obtain ⟨s', more, hr, hm⟩ := ih (fun c hc => hok c (List.mem_cons_of_mem _ hc))
      ⟨s.file ++ lineBytes line, (c.args.entry K c.ts s.lastHashB64).hashB64⟩
    refine ⟨s', lineBytes line ++ more, ?_, by rw [hm, List.append_assoc]⟩
    rw [runCalls, hrun]
    exact hr

variable (K J path) in
/-- The calls on the opened log return, and leave a file that `verify_chain` accepts,
that holds the entries it had and then those of the calls, and that can be opened
again. -/
def Extended (file : FileRead) (s : LogState) (calls : List Call) : Prop :=
  ∃ s' es fs, runCalls K J path s calls = .ok s' ∧ file.entries J = some es ∧
    verifyChain K J path (.content s'.file) = .ok s'.lastHashB64 ∧
    parseLog J s'.file = some (es ++ fs) ∧ fs.map Entry.args = calls.map Call.args ∧
    ∃ s'', openLog K J path (.content s'.file) (.ok ()) = .ok s''

/-- Behind a blank tail, the first append brings the log in step. -/
theorem holds_of_blankTail (hJ : J.Lawful) (hD : J.Delimited) {s : LogState} {es : List Entry}
    (hp : parseLog J s.file = some es)
    (hc : HashChain.check (Entry.links K) genesis es = some s.lastHashB64) (ht : BlankTail s.file)
    {a : AppendArgs} {ts line : String} (hl : J.toString (a.entry K ts s.lastHashB64) = .ok line) :
    LogState.Holds K J ⟨s.file ++ lineBytes line, (a.entry K ts s.lastHashB64).hashB64⟩
      (es ++ [a.entry K ts s.lastHashB64]) := by
  obtain ⟨w, hw, hws⟩ := ht
  refine ⟨?_, ?_, check_entry hc a ts⟩
  · rw [lineBytes_eq]
    exact terminated_append_line _ (hJ.noBreak _ line hl).1
  · -- the tail is blank, so the entries are those of the head
    rw [parseLog_eq_tail, hw, parseLines_text, if_pos (trim_of_jsonWhitespace hws)] at hp
    obtain ⟨es', hes', heq⟩ := Option.bind_eq_some_iff.mp hp
    rw [Option.map_some, List.append_nil, Option.some_inj] at heq
    rw [parseLog_append_tail hJ hl, hw, parseLines_blank_line hJ hD hws hl, hes', heq]
    rfl

/-- Behind any other tail, it makes the file unreadable for good. -/
theorem parseLog_of_not_blankTail (hJ : J.Lawful) (hD : J.Delimited) {bytes : List UInt8}
    {es : List Entry} (hp : parseLog J bytes = some es) (ht : ¬ BlankTail bytes) {e : Entry}
    {line : String} (hl : J.toString e = .ok line) (more : List UInt8) :
    parseLog J (bytes ++ lineBytes line ++ more) = none := by
  obtain ⟨es₁, hes₁, hes⟩ := Option.bind_eq_some_iff.mp ((parseLog_eq_tail bytes).symm.trans hp)
  obtain ⟨es₂, hes₂, -⟩ := Option.map_eq_some_iff.mp hes
  obtain ⟨w, hw⟩ := exists_text hes₂
  rw [hw] at hes₂
  have hws : w.toList.all jsonWhitespace ≠ true := fun h => ht ⟨w, hw, h⟩
  have hT : Terminated (bytes ++ lineBytes line) := by
    rw [lineBytes_eq]
    exact terminated_append_line _ (hJ.noBreak _ line hl).1
  rw [parseLog, lines_append hT, parseLines_append, ← parseLog, parseLog_append_tail hJ hl, hw,
    parseLines_tail_line hJ hD hes₂ hws hl]
  simp

/-- Whatever is appended behind such a tail. -/
theorem runCalls_of_not_blankTail (hJ : J.Lawful) (hD : J.Delimited) {s : LogState}
    {es : List Entry} (hp : parseLog J s.file = some es) (ht : ¬ BlankTail s.file)
    {calls : List Call} (hne : calls ≠ []) (hok : ∀ c ∈ calls, c.Succeeds) :
    ∃ s', runCalls K J path s calls = .ok s' ∧ parseLog J s'.file = none := by
  obtain ⟨c, cs, rfl⟩ := List.exists_cons_of_ne_nil hne
  obtain ⟨line, hl, -⟩ := hJ.fromStr_toString (c.args.entry K c.ts s.lastHashB64)
  have hrun := @runCall_eq K J path s c line hl
  rw [show c.fault = none from hok c List.mem_cons_self] at hrun
  obtain ⟨s', more, hr, hm⟩ := @runCalls_file K J path hJ cs
    (fun c hc => hok c (List.mem_cons_of_mem _ hc))
    ⟨s.file ++ lineBytes line, (c.args.entry K c.ts s.lastHashB64).hashB64⟩
  refine ⟨s', ?_, ?_⟩
  · rw [runCalls, hrun]
    exact hr
  · rw [hm]
    exact parseLog_of_not_blankTail hJ hD hp ht hl more

/-- **What can be extended.**  Of every file that `open` accepts and every non-empty
sequence of successful appends: the file they leave is accepted, holds the old entries
and then the new ones, and can be opened again, if and only if nothing but JSON
whitespace follows the last line feed of the file that was opened. -/
theorem extended_iff (hJ : J.Lawful) (hD : J.Delimited) {file : FileRead} {s : LogState}
    (h : openLog K J path file (.ok ()) = .ok s) {calls : List Call} (hne : calls ≠ [])
    (hok : ∀ c ∈ calls, c.Succeeds) :
    Extended K J path file s calls ↔ BlankTail s.file := by
  obtain ⟨es, hes, hp, hc⟩ := openLog_ok h
  constructor
  · rintro ⟨s', es', fs, hr, -, -, hread, -⟩
    by_contra ht
    obtain ⟨s'', hr', hnone⟩ := @runCalls_of_not_blankTail K J path hJ hD s es hp ht calls hne hok
    rw [hr, Except.ok.injEq] at hr'
    rw [hr', hnone] at hread
    exact absurd hread (by simp)
  · intro ht
    obtain ⟨c, cs, rfl⟩ := List.exists_cons_of_ne_nil hne
    obtain ⟨line, hl, -⟩ := hJ.fromStr_toString (c.args.entry K c.ts s.lastHashB64)
    have hrun := @runCall_eq K J path s c line hl
    rw [show c.fault = none from hok c List.mem_cons_self] at hrun
    have hh := holds_of_blankTail hJ hD hp hc ht hl
    obtain ⟨s', fs, hr, hh', hargs⟩ := @runCalls_holds K J path hJ cs
      (fun c hc => hok c (List.mem_cons_of_mem _ hc)) _ _ hh
    refine ⟨s', es, c.args.entry K c.ts s.lastHashB64 :: fs, ?_, hes, hh'.verifyChain, ?_, ?_,
      ⟨s', hh'.openLog⟩⟩
    · rw [runCalls, hrun]
      exact hr
    · simpa using hh'.parsed
    · rw [List.map_cons, List.map_cons, hargs, Entry.args_entry]

end Extend

/-! ### Two files -/

/-- One append on a log that was opened before. -/
def laterCall : Call :=
  ⟨⟨"app-b", "sign", "k1", .intent, ""⟩, "2026-01-02T00:00:00.000Z", none⟩

/-- The first entry of a log, as text. -/
def plainEntry : Entry :=
  AppendArgs.entry Ref.crates ⟨"app-a", "sign", "k1", .intent, ""⟩ "2026-01-01T00:00:00.000Z" genesis

def plainLine : String := String.ofList (Ref.writeEntry plainEntry)

/-- A log of one line, whose line feed may be missing, is accepted. -/
theorem openLog_plainLine {bytes : List UInt8}
    (h : parseLog Ref.spacedJson bytes = some [plainEntry]) :
    openLog Ref.crates Ref.spacedJson "audit.jsonl" (.content bytes) (.ok ()) =
      .ok ⟨bytes, plainEntry.hashB64⟩ := by
  have hv : verifyChain Ref.crates Ref.spacedJson "audit.jsonl" (.content bytes) =
      .ok plainEntry.hashB64 :=
    verifyChain_ok.mpr ⟨[plainEntry], h, HashChain.check_cons.mpr ⟨rfl, rfl, rfl⟩⟩
  rw [openLog, hv]

theorem toString_plainEntry : Ref.spacedJson.toString plainEntry = .ok plainLine := rfl

/-- A line, and an indented blank one without a line feed. -/
def indentedFile : List UInt8 := lineBytes plainLine ++ utf8 "  \t"

theorem extended_indentedFile :
    Extended Ref.crates Ref.spacedJson "audit.jsonl" (.content indentedFile)
      ⟨indentedFile, plainEntry.hashB64⟩ [laterCall] := by
  have hT := terminated_lineBytes Ref.spacedJson_lawful toString_plainEntry
  have hread : parseLog Ref.spacedJson indentedFile = some [plainEntry] := by
    rw [indentedFile, parseLog, lines_append hT,
      lines_lineBytes Ref.spacedJson_lawful toString_plainEntry, parseLines_append,
      parseLines_line Ref.spacedJson_lawful toString_plainEntry]
    rfl
  refine (extended_iff Ref.spacedJson_lawful Ref.spacedJson_delimited (openLog_plainLine hread)
    (by simp) (by simp [Call.Succeeds, laterCall])).mpr ?_
  refine ⟨"  \t", ?_, by decide⟩
  rw [tailOf, indentedFile, splitLf_append hT]
  decide

/-- The line without its line feed, as a crash may leave it. -/
def cutFile : List UInt8 := utf8 plainLine

theorem not_blankTail_cutFile : ¬ BlankTail cutFile := by
  rintro ⟨w, hw, hws⟩
  have hlf : lf ∉ cutFile := (Ref.spacedJson_lawful.noBreak _ _ toString_plainEntry).1
  rw [tailOf, splitLf_of_notMem hlf] at hw
  dsimp only at hw
  rw [cutFile] at hw
  obtain ⟨cs, hcs⟩ := Ref.writeEntry_cons plainEntry
  rw [← utf8_inj hw, plainLine, String.toList_ofList, hcs, List.all_cons] at hws
  exact absurd hws (by simp [jsonWhitespace])

theorem parseLog_cutFile : parseLog Ref.spacedJson cutFile = some [plainEntry] := by
  have := parseLog_append_text Ref.spacedJson_lawful terminated_nil rfl toString_plainEntry
  rwa [List.nil_append, List.nil_append, ← cutFile] at this

/-- The cut file is accepted, the append behind it returns `Ok`, and `verify_chain`
refuses the file it leaves. -/
theorem not_extended_cutFile :
    openLog Ref.crates Ref.spacedJson "audit.jsonl" (.content cutFile) (.ok ()) =
        .ok ⟨cutFile, plainEntry.hashB64⟩ ∧
      (∃ s', runCalls Ref.crates Ref.spacedJson "audit.jsonl" ⟨cutFile, plainEntry.hashB64⟩
        [laterCall] = .ok s' ∧ ∀ h,
          verifyChain Ref.crates Ref.spacedJson "audit.jsonl" (.content s'.file) ≠ .ok h) ∧
      ¬ Extended Ref.crates Ref.spacedJson "audit.jsonl" (.content cutFile)
        ⟨cutFile, plainEntry.hashB64⟩ [laterCall] := by
  -- the state is kept as a variable, for its hash is not to be computed
  generalize hs : (⟨cutFile, plainEntry.hashB64⟩ : LogState) = s
  have hfile : s.file = cutFile := by rw [← hs]
  obtain ⟨s', hrun, hnone⟩ := @runCalls_of_not_blankTail Ref.crates Ref.spacedJson "audit.jsonl"
    Ref.spacedJson_lawful Ref.spacedJson_delimited s [plainEntry]
    (by rw [hfile]; exact parseLog_cutFile) (by rw [hfile]; exact not_blankTail_cutFile)
    [laterCall] (by simp) (by simp [Call.Succeeds, laterCall])
  refine ⟨hs ▸ openLog_plainLine parseLog_cutFile, ⟨s', hrun, fun h hv => ?_⟩, ?_⟩
  · obtain ⟨es, hes, -⟩ := verifyChain_ok.mp hv
    rw [FileRead.entries, hnone] at hes
    exact absurd hes (by simp)
  · rintro ⟨s'', es, fs, hr, -, -, hp, -⟩
    rw [hrun, Except.ok.injEq] at hr
    rw [← hr, hnone] at hp
    exact absurd hp (by simp)

end PicoHsm
