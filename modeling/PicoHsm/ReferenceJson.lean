/-
Reference implementations of the dependencies (part 2: JSON of audit entries).

`entryJson` writes an entry as `serde_json` does (fields in declaration order, an
empty `detail` left out, control characters escaped) and reads back exactly such
texts.  The real reader accepts more (other field orders, whitespace); on written
entries, and on text that is no JSON at all, the two agree.  `spacedJson` reads such
texts with JSON whitespace around them.

* `Ref.entryJson_lawful` — one line, read back unchanged, blank text refused;
* `Ref.spacedJson_delimited` — nothing but whitespace may stand around a document.
-/
import PicoHsm.Audit
import PicoHsm.Reference

namespace PicoHsm.Ref

open Text

/-! ### Strings -/

/-- One character inside a JSON string. -/
def escapeChar (c : Char) : List Char :=
  if c = '"' then ['\\', '"']
  else if c = '\\' then ['\\', '\\']
  else if c.toNat < 0x20 then
    if c.toNat = 8 then ['\\', 'b']
    else if c.toNat = 9 then ['\\', 't']
    else if c.toNat = 10 then ['\\', 'n']
    else if c.toNat = 12 then ['\\', 'f']
    else if c.toNat = 13 then ['\\', 'r']
    else ['\\', 'u', '0', '0', Nat.digitChar (c.toNat / 16), Nat.digitChar (c.toNat % 16)]
  else [c]

def jsonString (s : List Char) : List Char := '"' :: (s.flatMap escapeChar ++ ['"'])

/-- The control character behind `\u00ab`. -/
def controlChar (a b : Char) : Option Char :=
  ((List.range 32).find? fun n =>
    Nat.digitChar (n / 16) = a ∧ Nat.digitChar (n % 16) = b).map Char.ofNat

/-- Read up to the closing quote. -/
def readChars : List Char → Option (List Char × List Char)
  | [] => none
  | c :: rest =>
    if c = '"' then some ([], rest)
    else if c = '\\' then
      match rest with
      | '"' :: rest => (readChars rest).map fun p => ('"' :: p.1, p.2)
      | '\\' :: rest => (readChars rest).map fun p => ('\\' :: p.1, p.2)
      | 'b' :: rest => (readChars rest).map fun p => (Char.ofNat 8 :: p.1, p.2)
      | 't' :: rest => (readChars rest).map fun p => ('\t' :: p.1, p.2)
      | 'n' :: rest => (readChars rest).map fun p => ('\n' :: p.1, p.2)
      | 'f' :: rest => (readChars rest).map fun p => (Char.ofNat 12 :: p.1, p.2)
      | 'r' :: rest => (readChars rest).map fun p => ('\r' :: p.1, p.2)
      | 'u' :: '0' :: '0' :: a :: b :: rest =>
        match controlChar a b with
        | none => none
        | some d => (readChars rest).map fun p => (d :: p.1, p.2)
      | _ => none
    else if c.toNat < 0x20 then none
    else (readChars rest).map fun p => (c :: p.1, p.2)

theorem readChars_escapeChar (c : Char) (rest : List Char) :
    readChars (escapeChar c ++ rest) = (readChars rest).map fun p => (c :: p.1, p.2) := by
  rw [escapeChar]
  by_cases h₁ : c = '"'
  · subst h₁
    rfl
  by_cases h₂ : c = '\\'
  · subst h₂
    rfl
  rw [if_neg h₁, if_neg h₂]
  by_cases h₃ : c.toNat < 0x20
  · -- the 32 control characters, one by one
    obtain ⟨n, hn, rfl⟩ : ∃ n, n < 32 ∧ c = Char.ofNat n := ⟨c.toNat, h₃, (Char.ofNat_toNat c).symm⟩
    clear h₁ h₂ h₃
    interval_cases n <;> rfl
  · rw [if_neg h₃, List.singleton_append, readChars.eq_def]
    dsimp only
    rw [if_neg h₁, if_neg h₂, if_neg h₃]

theorem readChars_flatMap (s rest : List Char) :
    readChars (s.flatMap escapeChar ++ '"' :: rest) = some (s, rest) := by
  induction s with
  | nil =>
    rw [List.flatMap_nil, List.nil_append, readChars.eq_def]
    rfl
  | cons c s ih =>
    rw [List.flatMap_cons, List.append_assoc, readChars_escapeChar, ih]
    rfl

/-- No control characters. -/
def noControl (s : List Char) : Bool := s.all fun c => decide (0x20 ≤ c.toNat)

theorem noControl_ge {s : List Char} (h : noControl s = true) : ∀ c ∈ s, 0x20 ≤ c.toNat :=
  fun c hc => of_decide_eq_true (List.all_eq_true.mp h c hc)

/-- The characters written inside a string are all above the control characters. -/
theorem escapeChar_ge {c d : Char} (h : d ∈ escapeChar c) : 0x20 ≤ d.toNat := by
  rw [escapeChar] at h
  by_cases h₁ : c = '"'
  · rw [if_pos h₁] at h
    simp only [List.mem_cons, List.not_mem_nil, or_false] at h
    rcases h with rfl | rfl <;> decide
  by_cases h₂ : c = '\\'
  · rw [if_neg h₁, if_pos h₂] at h
    simp only [List.mem_cons, List.not_mem_nil, or_false] at h
    rcases h with rfl | rfl <;> decide
  rw [if_neg h₁, if_neg h₂] at h
  by_cases h₃ : c.toNat < 0x20
  · rw [if_pos h₃] at h
    generalize c.toNat = n at h h₃
    clear h₁ h₂
    interval_cases n <;> exact noControl_ge rfl d h
  · rw [if_neg h₃, List.mem_singleton] at h
    rw [h]
    omega

/-! ### Entries -/

/-- The text between an entry's values. -/
def tsKey : List Char := "\x7b\"ts\":".toList
def cnKey : List Char := ",\"cn\":".toList
def operationKey : List Char := ",\"operation\":".toList
def keyLabelKey : List Char := ",\"key_label\":".toList
def outcomeKey : List Char := ",\"outcome\":".toList
def detailKey : List Char := ",\"detail\":".toList
def prevHashKey : List Char := ",\"prev_hash_b64\":".toList
def hashKey : List Char := ",\"hash_b64\":".toList
def closing : List Char := "\x7d".toList

def detailField (detail : String) : List Char :=
  if detail = "" then [] else detailKey ++ jsonString detail.toList

def writeEntry (e : Entry) : List Char :=
  tsKey ++ (jsonString e.ts.toList ++ (cnKey ++ (jsonString e.cn.toList ++
    (operationKey ++ (jsonString e.operation.toList ++ (keyLabelKey ++
      (jsonString e.keyLabel.toList ++ (outcomeKey ++ (e.outcome.json.toList ++
        (detailField e.detail ++ (prevHashKey ++ (jsonString e.prevHashB64.toList ++
          (hashKey ++ (jsonString e.hashB64.toList ++ closing))))))))))))))

/-- Drop a fixed text. -/
def expect (key s : List Char) : Option (List Char) :=
  if key <+: s then some (s.drop key.length) else none

def readString (key s : List Char) : Option (String × List Char) :=
  match expect (key ++ ['"']) s with
  | none => none
  | some s => (readChars s).map fun p => (String.ofList p.1, p.2)

def outcomeName : Outcome → String
  | .intent => "intent"
  | .authorized => "authorized"
  | .denied => "denied"
  | .error => "error"
  | .certExpiringSoon => "cert_expiring_soon"

def readOutcome (s : List Char) : Option (Outcome × List Char) :=
  match readString outcomeKey s with
  | none => none
  | some (name, s) =>
    ([Outcome.intent, .authorized, .denied, .error, .certExpiringSoon].find? fun o =>
      outcomeName o = name).map fun o => (o, s)

def readDetail (s : List Char) : Option (String × List Char) :=
  if detailKey <+: s then readString detailKey s else some ("", s)

def readEntry (s : List Char) : Option Entry := do
  let (ts, s) ← readString tsKey s
  let (cn, s) ← readString cnKey s
  let (operation, s) ← readString operationKey s
  let (keyLabel, s) ← readString keyLabelKey s
  let (outcome, s) ← readOutcome s
  let (detail, s) ← readDetail s
  let (prevHash, s) ← readString prevHashKey s
  let (hash, s) ← readString hashKey s
  if s = closing then some ⟨ts, cn, operation, keyLabel, outcome, detail, prevHash, hash⟩
  else none

def entryJson : Json Entry where
  toString e := .ok (String.ofList (writeEntry e))
  fromStr s :=
    match readEntry s.toList with
    | none => .error "expected an audit entry"
    | some e => .ok e

theorem expect_append (key rest : List Char) : expect key (key ++ rest) = some rest := by
  rw [expect, if_pos (List.prefix_append key rest), List.drop_left]

theorem readString_append (key : List Char) (s : String) (rest : List Char) :
    readString key (key ++ (jsonString s.toList ++ rest)) = some (s, rest) := by
  have h : key ++ (jsonString s.toList ++ rest) =
      (key ++ ['"']) ++ (s.toList.flatMap escapeChar ++ '"' :: rest) := by simp [jsonString]
  rw [readString, h, expect_append]
  dsimp only
  rw [readChars_flatMap, Option.map_some, String.ofList_toList]

theorem readOutcome_append (o : Outcome) (rest : List Char) :
    readOutcome (outcomeKey ++ (o.json.toList ++ rest)) = some (o, rest) := by
  have hname : o.json.toList = jsonString (outcomeName o).toList := by cases o <;> decide
  rw [readOutcome, hname, readString_append]
  cases o <;> rfl

theorem readDetail_append (detail : String) (rest : List Char) :
    readDetail (detailField detail ++ (prevHashKey ++ rest)) =
      some (detail, prevHashKey ++ rest) := by
  rw [detailField, readDetail]
  by_cases h : detail = ""
  · have hno : ¬ detailKey <+: [] ++ (prevHashKey ++ rest) := by
      rintro ⟨t, ht⟩
      have hd : (detailKey ++ t)[2]? = some 'd' := rfl
      have hp : ([] ++ (prevHashKey ++ rest))[2]? = some 'p' := rfl
      rw [ht, hp] at hd
      exact absurd hd (by decide)
    rw [if_pos h, if_neg hno, h]
    rfl
  · rw [if_neg h, List.append_assoc, if_pos (List.prefix_append _ _), readString_append]

theorem readEntry_writeEntry (e : Entry) : readEntry (writeEntry e) = some e := by
  simp only [readEntry, writeEntry, readString_append, Option.bind_eq_bind, Option.bind_some,
    readOutcome_append, readDetail_append, if_true]

/-! ### The laws -/

/-- The bytes of a character are no lower than the character, up to `0x80`. -/
theorem utf8EncodeChar_ge {c : Char} {b : UInt8} (h : b ∈ String.utf8EncodeChar c)
    (hc : 0x20 ≤ c.toNat) : 0x20 ≤ b.toNat := by
  have hc' : 0x20 ≤ c.val.toNat := hc
  simp only [String.utf8EncodeChar] at h
  split at h
  · simp only [List.mem_cons, List.not_mem_nil, or_false] at h
    subst h
    rw [UInt8.toNat_ofNat']
    omega
  · split at h
    · simp only [List.mem_cons, List.not_mem_nil, or_false] at h
      rcases h with rfl | rfl <;> rw [UInt8.toNat_ofNat'] <;> omega
    · split at h
      · simp only [List.mem_cons, List.not_mem_nil, or_false] at h
        rcases h with rfl | rfl | rfl <;> rw [UInt8.toNat_ofNat'] <;> omega
      · simp only [List.mem_cons, List.not_mem_nil, or_false] at h
        rcases h with rfl | rfl | rfl | rfl <;> rw [UInt8.toNat_ofNat'] <;> omega

theorem utf8_ge {cs : List Char} (hcs : ∀ c ∈ cs, 0x20 ≤ c.toNat) {b : UInt8}
    (h : b ∈ utf8 (String.ofList cs)) : 0x20 ≤ b.toNat := by
  rw [utf8, String.toByteArray_ofList, List.utf8Encode] at h
  have h' : b ∈ cs.flatMap String.utf8EncodeChar := by simpa using h
  obtain ⟨c, hc, hb⟩ := List.mem_flatMap.mp h'
  exact utf8EncodeChar_ge hb (hcs c hc)

theorem jsonString_ge {s : List Char} {c : Char} (h : c ∈ jsonString s) : 0x20 ≤ c.toNat := by
  simp only [jsonString, List.mem_cons, List.mem_append, List.mem_flatMap, List.not_mem_nil,
    or_false] at h
  rcases h with rfl | ⟨d, _, hd⟩ | rfl
  · decide
  · exact escapeChar_ge hd
  · decide

theorem detailField_ge {s : String} {c : Char} (h : c ∈ detailField s) : 0x20 ≤ c.toNat := by
  rw [detailField] at h
  split at h
  · exact absurd h (by simp)
  · rcases List.mem_append.mp h with h | h
    · exact noControl_ge rfl c h
    · exact jsonString_ge h

theorem writeEntry_ge {e : Entry} {c : Char} (h : c ∈ writeEntry e) : 0x20 ≤ c.toNat := by
  have hout : ∀ o : Outcome, ∀ c ∈ o.json.toList, 0x20 ≤ c.toNat := by
    intro o
    cases o <;> exact noControl_ge rfl
  simp only [writeEntry, List.mem_append] at h
  rcases h with h | h | h | h | h | h | h | h | h | h | h | h | h | h | h | h
  · exact noControl_ge rfl c h
  · exact jsonString_ge h
  · exact noControl_ge rfl c h
  · exact jsonString_ge h
  · exact noControl_ge rfl c h
  · exact jsonString_ge h
  · exact noControl_ge rfl c h
  · exact jsonString_ge h
  · exact noControl_ge rfl c h
  · exact hout _ c h
  · exact detailField_ge h
  · exact noControl_ge rfl c h
  · exact jsonString_ge h
  · exact noControl_ge rfl c h
  · exact jsonString_ge h
  · exact noControl_ge rfl c h

/-- A text that trims to nothing does not start with a brace. -/
theorem readEntry_blank {s : String} (h : trim s = "") : readEntry s.toList = none := by
  have hno : ¬ (tsKey ++ ['"']) <+: s.toList := by
    intro hp
    have := trim_eq_empty_iff.mp h '\x7b' (hp.subset (by decide))
    exact absurd this (by decide)
  rw [readEntry, readString, expect, if_neg hno]
  rfl

theorem entryJson_lawful : entryJson.Lawful where
  fromStr_toString e := by
    refine ⟨_, rfl, ?_⟩
    simp only [entryJson, String.toList_ofList, readEntry_writeEntry]
  noBreak e s h := by
    simp only [entryJson, Except.ok.injEq] at h
    subst h
    constructor <;> intro hb
    · exact absurd (utf8_ge (fun c hc => writeEntry_ge hc) hb) (by decide)
    · exact absurd (utf8_ge (fun c hc => writeEntry_ge hc) hb) (by decide)
  blank s h := by
    refine ⟨"expected an audit entry", ?_⟩
    simp only [entryJson, readEntry_blank h]

/-! ### Entries with whitespace around them -/

/-- Read an entry and return what stands behind it. -/
def readPrefix (s : List Char) : Option (Entry × List Char) := do
  let (ts, s) ← readString tsKey s
  let (cn, s) ← readString cnKey s
  let (operation, s) ← readString operationKey s
  let (keyLabel, s) ← readString keyLabelKey s
  let (outcome, s) ← readOutcome s
  let (detail, s) ← readDetail s
  let (prevHash, s) ← readString prevHashKey s
  let (hash, s) ← readString hashKey s
  let s ← expect closing s
  some (⟨ts, cn, operation, keyLabel, outcome, detail, prevHash, hash⟩, s)

/-- Entries as they are written, with any JSON whitespace before and behind. -/
def spacedJson : Json Entry where
  toString e := .ok (String.ofList (writeEntry e))
  fromStr s :=
    match readPrefix (s.toList.dropWhile jsonWhitespace) with
    | none => .error "expected an audit entry"
    | some (e, rest) =>
      if writeEntry e ++ rest = s.toList.dropWhile jsonWhitespace ∧ rest.all jsonWhitespace then
        .ok e
      else .error "trailing characters"

theorem readPrefix_writeEntry (e : Entry) (rest : List Char) :
    readPrefix (writeEntry e ++ rest) = some (e, rest) := by
  simp only [readPrefix, writeEntry, List.append_assoc, readString_append, Option.bind_eq_bind,
    Option.bind_some, readOutcome_append, readDetail_append, expect_append]

/-- An entry's text starts with a brace. -/
theorem writeEntry_cons (e : Entry) : ∃ rest, writeEntry e = '\x7b' :: rest := ⟨_, rfl⟩

theorem dropWhile_writeEntry (e : Entry) (rest : List Char) :
    (writeEntry e ++ rest).dropWhile jsonWhitespace = writeEntry e ++ rest := by
  obtain ⟨cs, hcs⟩ := writeEntry_cons e
  rw [hcs, List.cons_append, List.dropWhile_cons_of_neg (by decide)]

theorem dropWhile_spaced {w : List Char} (hw : w.all jsonWhitespace = true) (s : List Char) :
    (w ++ s).dropWhile jsonWhitespace = s.dropWhile jsonWhitespace :=
  List.dropWhile_append_of_pos fun c hc => List.all_eq_true.mp hw c hc

/-- The accepted texts. -/
theorem spacedJson_ok {s : String} {e : Entry} :
    spacedJson.fromStr s = .ok e ↔
      ∃ w rest, s.toList = w ++ (writeEntry e ++ rest) ∧ w.all jsonWhitespace = true ∧
        rest.all jsonWhitespace = true := by
  simp only [spacedJson]
  constructor
  · intro h
    rcases hr : readPrefix (s.toList.dropWhile jsonWhitespace) with _ | ⟨e', rest⟩
    · rw [hr] at h
      exact absurd h (by simp)
    · rw [hr] at h
      dsimp only at h
      split at h
      · rename_i hc
        rw [Except.ok.injEq] at h
        subst h
        refine ⟨s.toList.takeWhile jsonWhitespace, rest, ?_, ?_, hc.2⟩
        · rw [hc.1, List.takeWhile_append_dropWhile]
        · exact List.all_takeWhile
      · exact absurd h (by simp)
  · rintro ⟨w, rest, heq, hw, hrest⟩
    rw [heq, dropWhile_spaced hw, dropWhile_writeEntry, readPrefix_writeEntry]
    dsimp only
    rw [if_pos ⟨rfl, hrest⟩]

theorem spacedJson_lawful : spacedJson.Lawful where
  fromStr_toString e := by
    refine ⟨_, rfl, spacedJson_ok.mpr ⟨[], [], ?_, rfl, rfl⟩⟩
    simp
  noBreak e s h := entryJson_lawful.noBreak e s h
  blank s h := by
    rcases hs : spacedJson.fromStr s with err | e
    · exact ⟨err, rfl⟩
    · -- the brace is no whitespace
      obtain ⟨w, rest, heq, -, -⟩ := spacedJson_ok.mp hs
      obtain ⟨cs, hcs⟩ := writeEntry_cons e
      have := trim_eq_empty_iff.mp h '\x7b' (by rw [heq, hcs]; simp)
      exact absurd this (by decide)

/-- Documents with whitespace before them start in the same place. -/
theorem writeEntry_append_inj {e e' : Entry} {r r' : List Char}
    (h : writeEntry e ++ r = writeEntry e' ++ r') : e = e' ∧ r = r' := by
  have := congrArg readPrefix h
  rw [readPrefix_writeEntry, readPrefix_writeEntry] at this
  simpa using this

theorem spacedJson_delimited : spacedJson.Delimited where
  leading w s e hw hs := by
    obtain ⟨w', rest, heq, hw', hrest⟩ := spacedJson_ok.mp hs
    refine spacedJson_ok.mpr ⟨w.toList ++ w', rest, ?_, ?_, hrest⟩
    · rw [String.toList_append, heq, List.append_assoc]
    · rw [List.all_append, hw, hw', Bool.and_true]
  noLeading w c s hw hc hnc := by
    rcases hs : spacedJson.fromStr (w ++ (String.singleton c ++ s)) with err | e
    · exact ⟨err, rfl⟩
    · obtain ⟨w', rest, heq, hw', -⟩ := spacedJson_ok.mp hs
      have hdrop := congrArg (List.dropWhile jsonWhitespace) heq
      rw [dropWhile_spaced hw', dropWhile_writeEntry, String.toList_append, dropWhile_spaced hw,
        String.toList_append, String.toList_singleton, List.singleton_append,
        List.dropWhile_cons_of_neg (by simp [hnc])] at hdrop
      obtain ⟨cs, hcs⟩ := writeEntry_cons e
      rw [hcs, List.cons_append, List.cons.injEq] at hdrop
      rw [hdrop.1] at hc
      exact absurd hc (by decide)
  trailing s t e e' hs hst := by
    obtain ⟨w, rest, heq, hw, -⟩ := spacedJson_ok.mp hs
    obtain ⟨w', rest', heq', hw', hrest'⟩ := spacedJson_ok.mp hst
    rw [String.toList_append, heq] at heq'
    have hdrop := congrArg (List.dropWhile jsonWhitespace) heq'
    rw [dropWhile_spaced hw', dropWhile_writeEntry, List.append_assoc, dropWhile_spaced hw,
      List.append_assoc, dropWhile_writeEntry] at hdrop
    obtain ⟨-, hrest⟩ := writeEntry_append_inj hdrop
    rw [← hrest, List.all_append, Bool.and_eq_true] at hrest'
    exact hrest'.2

end PicoHsm.Ref
