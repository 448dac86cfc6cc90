/-
What the gateway takes from its dependencies.

The encoding, hashing and serialization crates are not part of the repository, so
the functions the gateway calls in them are parameters of the model, and what the
gateway relies on is stated as laws about them (`Base64.Lawful`, `Json.Lawful`).
`debugStr` is the standard library's `{:?}` of a string; only the Unicode table of
the characters it escapes is a parameter.
-/
import Mathlib.Data.List.Basic
import PicoHsm.Text

namespace PicoHsm

open Text

/-- The `STANDARD` engine of the base64 crate (padding required, canonical only). -/
structure Base64 where
  encode : List UInt8 → String
  decode : String → Option (List UInt8)

/-- Decoding accepts exactly the encodings, and undoes them. -/
structure Base64.Lawful (B : Base64) : Prop where
  decode_encode : ∀ bs, B.decode (B.encode bs) = some bs
  encode_decode : ∀ s bs, B.decode s = some bs → B.encode bs = s
  encode_nil : B.encode [] = ""

theorem Base64.Lawful.encode_inj {B : Base64} (hB : B.Lawful) {bs bs' : List UInt8}
    (h : B.encode bs = B.encode bs') : bs = bs' := by
  have := hB.decode_encode bs
  rw [h, hB.decode_encode bs', Option.some_inj] at this
  exact this.symm

/-- Only the empty string decodes to no bytes. -/
theorem Base64.Lawful.decode_ne_nil {B : Base64} (hB : B.Lawful) {s : String}
    {bs : List UInt8} (h : B.decode s = some bs) (hs : s ≠ "") : bs ≠ [] := by
  rintro rfl
  exact hs ((hB.encode_decode s [] h).symm.trans hB.encode_nil)

/-- The dependencies used by more than one module. -/
structure Crates where
  /-- `base64::engine::general_purpose::STANDARD` -/
  b64 : Base64
  /-- `sha2::Sha256::digest` -/
  sha256 : List UInt8 → List UInt8
  /-- The characters `char::escape_debug` writes as `\u` escapes. -/
  escaped : Char → Bool

/-- `serde_json` at one type. -/
structure Json (α : Type) where
  toString : α → Except String String
  fromStr : String → Except String α

/-- Serialization succeeds on one line, `from_str` undoes it, and blank text is no
JSON document. -/
structure Json.Lawful {α : Type} (J : Json α) : Prop where
  fromStr_toString : ∀ a, ∃ s, J.toString a = .ok s ∧ J.fromStr s = .ok a
  noBreak : ∀ a s, J.toString a = .ok s → lf ∉ utf8 s ∧ cr ∉ utf8 s
  blank : ∀ s, trim s = "" → ∃ e, J.fromStr s = .error e

/-- The whitespace of JSON. -/
def jsonWhitespace (c : Char) : Bool := c == ' ' || c == '\t' || c == '\n' || c == '\r'

theorem isWhitespace_of_jsonWhitespace {c : Char} (h : jsonWhitespace c = true) :
    isWhitespace c = true := by
  simp only [jsonWhitespace, Bool.or_eq_true, beq_iff_eq] at h
  rcases h with ((rfl | rfl) | rfl) | rfl <;> decide

/-- `from_str` at a type that is read from objects: JSON whitespace in front of a
document is skipped, any other whitespace there is refused, and behind a document
nothing but JSON whitespace may stand. -/
structure Json.Delimited {α : Type} (J : Json α) : Prop where
  leading : ∀ w s a, w.toList.all jsonWhitespace → J.fromStr s = .ok a →
    J.fromStr (w ++ s) = .ok a
  noLeading : ∀ w c s, w.toList.all jsonWhitespace → isWhitespace c = true →
    jsonWhitespace c = false → ∃ e, J.fromStr (w ++ (String.singleton c ++ s)) = .error e
  trailing : ∀ s t a b, J.fromStr s = .ok a → J.fromStr (s ++ t) = .ok b →
    t.toList.all jsonWhitespace

/-! ### Formatting -/

/-- One character inside a `{:?}` of a string. -/
def debugChar (escaped : Char → Bool) (c : Char) : String :=
  if c = '\x00' then "\\0"
  else if c = '\t' then "\\t"
  else if c = '\r' then "\\r"
  else if c = '\n' then "\\n"
  else if c = '"' then "\\\""
  else if c = '\\' then "\\\\"
  else if escaped c then "\\u\x7b" ++ String.ofList (Nat.toDigits 16 c.toNat) ++ "\x7d"
  else c.toString

/-- `format!("{s:?}")` -/
def debugStr (escaped : Char → Bool) (s : String) : String :=
  "\"" ++ String.join (s.toList.map (debugChar escaped)) ++ "\""

/-- `format!("{b:02x}")` of one byte. -/
def hexByte (b : UInt8) : String :=
  String.ofList [Nat.digitChar (b.toNat / 16), Nat.digitChar (b.toNat % 16)]

/-- An `anyhow` error with one more context, as `{e:#}` prints it. -/
def withContext (ctx e : String) : String := ctx ++ ": " ++ e

end PicoHsm
