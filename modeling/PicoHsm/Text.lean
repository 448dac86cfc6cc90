/-
Text as bytes, and bytes as lines.

Strings are sequences of Unicode scalar values; on disk and on the wire they are
their UTF-8 bytes.  `lines` cuts a byte string the way a buffered line reader does:
at line feeds, with one carriage return in front of a line feed dropped as well, and
with a last line that has no line feed kept as it is.  `trim` removes the characters
with the Unicode `White_Space` property at both ends.

* `fromUtf8_utf8` — decoding undoes encoding;
* `lines_append` — behind a byte string that is empty or ends in a line feed, lines
  are read as if from the start;
* `lines_line` — one terminated line without a break in it reads back as itself.
-/
import Mathlib.Data.List.Basic
import Mathlib.Data.List.DropRight

namespace Text

/-! ### UTF-8 -/

/-- The UTF-8 bytes of a string. -/
def utf8 (s : String) : List UInt8 := s.toByteArray.data.toList

/-- The string with these UTF-8 bytes, if they are valid UTF-8. -/
def fromUtf8 (bs : List UInt8) : Option String := String.fromUTF8? ⟨⟨bs⟩⟩

@[simp] theorem fromUtf8_utf8 (s : String) : fromUtf8 (utf8 s) = some s := by
  simp [fromUtf8, utf8, String.fromUTF8?, s.isValidUTF8, String.fromUTF8]

/-- Only the bytes of a string decode to it. -/
theorem utf8_of_fromUtf8 {bs : List UInt8} {s : String} (h : fromUtf8 bs = some s) :
    bs = utf8 s := by
  rw [fromUtf8, String.fromUTF8?] at h
  split at h
  · rw [Option.some_inj] at h
    subst h
    rfl
  · exact absurd h (by simp)

@[simp] theorem utf8_append (s t : String) : utf8 (s ++ t) = utf8 s ++ utf8 t := by
  simp [utf8]

theorem utf8_inj {s t : String} (h : utf8 s = utf8 t) : s = t := by
  have := congrArg fromUtf8 h
  simpa using this

/-! ### Trimming -/

/-- The Unicode `White_Space` property. -/
def isWhitespace (c : Char) : Bool :=
  let n := c.toNat
  (9 ≤ n && n ≤ 13) || n == 0x20 || n == 0x85 || n == 0xA0 || n == 0x1680 ||
    (0x2000 ≤ n && n ≤ 0x200A) || n == 0x2028 || n == 0x2029 || n == 0x202F ||
    n == 0x205F || n == 0x3000

/-- The string without the whitespace at its ends. -/
def trim (s : String) : String :=
  String.ofList ((s.toList.dropWhile isWhitespace).rdropWhile isWhitespace)

/-- Trimming twice is trimming once. -/
theorem trim_trim (s : String) : trim (trim s) = trim s := by
  rw [trim, trim, String.toList_ofList]
  set m := s.toList.dropWhile isWhitespace with hm
  have hdrop : (m.rdropWhile isWhitespace).dropWhile isWhitespace = m.rdropWhile isWhitespace := by
    rw [List.dropWhile_eq_self_iff]
    intro hl
    -- the first character kept is the first one of `m`, which is no whitespace
    have hpre := List.rdropWhile_prefix isWhitespace (l := m)
    have hne : m ≠ [] := fun h => by simp [h] at hl
    rw [hpre.getElem hl, ← List.head_eq_getElem hne, Bool.not_eq_true]
    exact List.head_dropWhile_not isWhitespace hne
  rw [hdrop, List.rdropWhile_idempotent]

/-- Nothing is left exactly of what is all whitespace. -/
theorem trim_eq_empty_iff {s : String} : trim s = "" ↔ ∀ c ∈ s.toList, isWhitespace c = true := by
  rw [trim, String.ofList_eq_empty_iff, List.rdropWhile_eq_nil_iff]
  constructor
  · intro h c hc
    rw [← List.takeWhile_append_dropWhile (p := isWhitespace) (l := s.toList)] at hc
    rcases List.mem_append.mp hc with hc | hc
    · exact List.mem_takeWhile_imp hc
    · exact h c hc
  · intro h c hc
    exact h c ((List.dropWhile_suffix isWhitespace).subset hc)

/-! ### Lines -/

/-- Line feed and carriage return. -/
def lf : UInt8 := 10

def cr : UInt8 := 13

/-- The lines that end in a line feed (without it), and what follows the last one. -/
def splitLf : List UInt8 → List (List UInt8) × List UInt8
  | [] => ([], [])
  | b :: bs =>
    if b = lf then ([] :: (splitLf bs).1, (splitLf bs).2)
    else match (splitLf bs).1 with
      | [] => ([], b :: (splitLf bs).2)
      | l :: ls => ((b :: l) :: ls, (splitLf bs).2)

/-- A terminated line loses one carriage return at its end. -/
def stripCr (l : List UInt8) : List UInt8 :=
  if l.getLast? = some cr then l.dropLast else l

/-- The lines of a byte string, as a buffered reader yields them. -/
def lines (bs : List UInt8) : List (List UInt8) :=
  (splitLf bs).1.map stripCr ++ if (splitLf bs).2 = [] then [] else [(splitLf bs).2]

/-- Nothing stands behind the last line feed. -/
def Terminated (bs : List UInt8) : Prop := (splitLf bs).2 = []

instance (bs : List UInt8) : Decidable (Terminated bs) :=
  inferInstanceAs (Decidable ((splitLf bs).2 = []))

theorem splitLf_append {a : List UInt8} (h : Terminated a) (b : List UInt8) :
    splitLf (a ++ b) = ((splitLf a).1 ++ (splitLf b).1, (splitLf b).2) := by
  induction a with
  | nil => rfl
  | cons x a ih =>
    simp only [Terminated, splitLf] at h
    by_cases hx : x = lf
    · rw [if_pos hx] at h
      rw [List.cons_append, splitLf, if_pos hx, ih h, splitLf, if_pos hx, List.cons_append]
    · rw [if_neg hx] at h
      -- `x` joins the first line of `a`, which is there since `x :: a` is terminated
      rcases hl : (splitLf a).1 with _ | ⟨l, ls⟩
      · rw [hl] at h
        exact absurd h (by simp)
      · rw [hl] at h
        rw [List.cons_append, splitLf, if_neg hx, ih h, splitLf, if_neg hx, hl]
        rfl

theorem splitLf_of_notMem {l : List UInt8} (h : lf ∉ l) : splitLf l = ([], l) := by
  induction l with
  | nil => rfl
  | cons x l ih =>
    rw [List.mem_cons, not_or] at h
    rw [splitLf, if_neg (Ne.symm h.1), ih h.2]

theorem splitLf_line {l : List UInt8} (h : lf ∉ l) : splitLf (l ++ [lf]) = ([l], []) := by
  induction l with
  | nil => rfl
  | cons x l ih =>
    rw [List.mem_cons, not_or] at h
    rw [List.cons_append, splitLf, if_neg (Ne.symm h.1), ih h.2]

/-- Text with its line feed ends the line that was begun before it. -/
theorem splitLf_append_line (a : List UInt8) {l : List UInt8} (h : lf ∉ l) :
    splitLf (a ++ (l ++ [lf])) = ((splitLf a).1 ++ [(splitLf a).2 ++ l], []) := by
  induction a with
  | nil => exact splitLf_line h
  | cons x a ih =>
    rw [List.cons_append, splitLf, ih, splitLf]
    by_cases hx : x = lf
    · rw [if_pos hx, if_pos hx]
      rfl
    · rw [if_neg hx, if_neg hx]
      rcases (splitLf a).1 with _ | ⟨l', ls⟩ <;> rfl

theorem lines_append_line (a : List UInt8) {l : List UInt8} (h : lf ∉ l) :
    lines (a ++ (l ++ [lf])) =
      (splitLf a).1.map stripCr ++ [stripCr ((splitLf a).2 ++ l)] := by
  rw [lines, splitLf_append_line a h]
  simp

theorem terminated_append_line (a : List UInt8) {l : List UInt8} (h : lf ∉ l) :
    Terminated (a ++ (l ++ [lf])) := by
  rw [Terminated, splitLf_append_line a h]

theorem terminated_nil : Terminated [] := rfl

theorem terminated_line {l : List UInt8} (h : lf ∉ l) : Terminated (l ++ [lf]) := by
  rw [Terminated, splitLf_line h]

theorem Terminated.append {a b : List UInt8} (ha : Terminated a) (hb : Terminated b) :
    Terminated (a ++ b) := by
  rw [Terminated, splitLf_append ha]
  exact hb

/-- Reading goes on afresh behind a terminated byte string. -/
theorem lines_append {a : List UInt8} (h : Terminated a) (b : List UInt8) :
    lines (a ++ b) = lines a ++ lines b := by
  have ha : (splitLf a).2 = [] := h
  rw [lines, lines, lines, splitLf_append h]
  simp [ha]

/-- A line without a break in it, and with its line feed, reads back as itself. -/
theorem lines_line {l : List UInt8} (h : lf ∉ l) (h' : cr ∉ l) : lines (l ++ [lf]) = [l] := by
  have hcr : l.getLast? ≠ some cr := fun hl => h' (List.mem_of_getLast? hl)
  rw [lines, splitLf_line h]
  simp [stripCr, hcr]

/-- A last line without its line feed is read as it is. -/
theorem lines_unterminated {l : List UInt8} (h : lf ∉ l) (h' : l ≠ []) : lines l = [l] := by
  rw [lines, splitLf_of_notMem h]
  simp [h']

end Text
