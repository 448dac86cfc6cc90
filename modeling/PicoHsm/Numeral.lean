/-
Decimal numerals read with checked arithmetic.

`parse lo hi s` reads an optional sign and decimal digits, one digit after the other, and
gives up as soon as an intermediate result is not between `lo` and `hi`.  That is the way
integers are read into a fixed-width type.

* `parse_ok_iff` — it reads exactly the numerals whose value is between `lo` and `hi`: an
  intermediate result that is not is one of a numeral that is not.
-/
import Mathlib.Data.List.Basic
import Mathlib.Tactic.Linarith
import Mathlib.Tactic.Ring

namespace Numeral

/-- Why a text is no numeral of the type. -/
inductive ErrorKind where
  | empty
  | invalidDigit
  | posOverflow
  | negOverflow
  deriving DecidableEq, Repr

/-- The value of a decimal digit. -/
def toDigit (c : Char) : Option Nat :=
  if '0' ≤ c ∧ c ≤ '9' then some (c.toNat - '0'.toNat) else none

variable (lo hi : Int)

/-- A result of checked arithmetic. -/
def checked (n : Int) : Option Int := if lo ≤ n ∧ n ≤ hi then some n else none

/-- The digits, from `result` on; `sign` is 1 where they are added and -1 where they are
subtracted. -/
def readDigits (sign : Int) (overflow : ErrorKind) : List Char → Int → Except ErrorKind Int
  | [], result => .ok result
  | c :: rest, result =>
    match toDigit c with
    | none => .error .invalidDigit
    | some x =>
      match checked lo hi (result * 10) with
      | none => .error overflow
      | some shifted =>
        match checked lo hi (shifted + sign * x) with
        | none => .error overflow
        | some result => readDigits sign overflow rest result

/-- A sign alone is no numeral. -/
def parse (s : String) : Except ErrorKind Int :=
  match s.toList with
  | [] => .error .empty
  | ['+'] => .error .invalidDigit
  | ['-'] => .error .invalidDigit
  | '+' :: digits => readDigits lo hi 1 .posOverflow digits 0
  | '-' :: digits => readDigits lo hi (-1) .negOverflow digits 0
  | digits => readDigits lo hi 1 .posOverflow digits 0

/-! ### Values -/

/-- The value of the digits behind `acc`. -/
def value : List Char → Nat → Option Nat
  | [], acc => some acc
  | c :: rest, acc => (toDigit c).bind fun x => value rest (acc * 10 + x)

/-- The text is a numeral of value `n`. -/
def Denotes (s : String) (n : Int) : Prop :=
  ∃ digits m, digits ≠ [] ∧ value digits 0 = some m ∧
    ((s.toList = digits ∧ n = m) ∨ (s.toList = '+' :: digits ∧ n = m) ∨
      (s.toList = '-' :: digits ∧ n = -m))

theorem le_of_value {digits : List Char} {acc m : Nat} (h : value digits acc = some m) :
    acc ≤ m := by
  induction digits generalizing acc with
  | nil =>
    rw [value, Option.some_inj] at h
    omega
  | cons c rest ih =>
    obtain ⟨x, -, hv⟩ := Option.bind_eq_some_iff.mp h
    have := ih hv
    omega

variable {lo hi}

theorem checked_eq_some {n m : Int} : checked lo hi n = some m ↔ lo ≤ n ∧ n ≤ hi ∧ n = m := by
  rw [checked]
  split
  · rename_i h
    rw [Option.some_inj]
    exact ⟨fun he => ⟨h.1, h.2, he⟩, fun he => he.2.2⟩
  · rename_i h
    constructor
    · intro he
      cases he
    · intro he
      exact absurd ⟨he.1, he.2.1⟩ h

/-- **The loop.**  It returns exactly the value, when that is in range: no intermediate
result is farther from zero. -/
theorem readDigits_ok_iff {sign : Int} (hs : sign = 1 ∨ sign = -1) (overflow : ErrorKind)
    {digits : List Char} {acc : Nat} {n : Int} (hacc : lo ≤ sign * acc ∧ sign * acc ≤ hi) :
    readDigits lo hi sign overflow digits (sign * acc) = .ok n ↔
      ∃ m, value digits acc = some m ∧ n = sign * m ∧ lo ≤ n ∧ n ≤ hi := by
  induction digits generalizing acc with
  | nil =>
    rw [readDigits, value, Except.ok.injEq]
    constructor
    · rintro rfl
      exact ⟨acc, rfl, rfl, hacc.1, hacc.2⟩
    · rintro ⟨m, hm, rfl, -⟩
      rw [Option.some_inj.mp hm]
  | cons c rest ih =>
    rw [readDigits, value]
    rcases toDigit c with _ | x
    · constructor
      · intro h
        cases h
      · rintro ⟨m, hm, -⟩
        cases hm
    dsimp only [Option.bind_some]
    have hstep : sign * (acc : Int) * 10 + sign * x = sign * ((acc * 10 + x : Nat) : Int) := by
      push_cast
      ring
    -- either both checks pass, or the value itself is out of range
    rcases hmul : checked lo hi (sign * acc * 10) with _ | shifted
    · constructor
      · intro h
        cases h
      · rintro ⟨m, hm, rfl, hl, hh⟩
        have hle := le_of_value hm
        have hmul' : checked lo hi (sign * acc * 10) = some (sign * acc * 10) := by
          rw [checked_eq_some]
          rcases hs with rfl | rfl <;> omega
        cases hmul.symm.trans hmul'
    obtain ⟨-, -, rfl⟩ := checked_eq_some.mp hmul
    dsimp only
    rw [hstep]
    rcases hadd : checked lo hi (sign * ((acc * 10 + x : Nat) : Int)) with _ | result
    · constructor
      · intro h
        cases h
      · rintro ⟨m, hm, rfl, hl, hh⟩
        have hle := le_of_value hm
        have hadd' : checked lo hi (sign * ((acc * 10 + x : Nat) : Int)) =
            some (sign * ((acc * 10 + x : Nat) : Int)) := by
          rw [checked_eq_some]
          rcases hs with rfl | rfl <;> omega
        cases hadd.symm.trans hadd'
    obtain ⟨hl, hh, rfl⟩ := checked_eq_some.mp hadd
    exact ih ⟨hl, hh⟩

/-- A digit is no sign. -/
theorem ne_sign_of_value {c : Char} {rest : List Char} {m : Nat}
    (h : value (c :: rest) 0 = some m) : c ≠ '+' ∧ c ≠ '-' := by
  obtain ⟨x, hx, -⟩ := Option.bind_eq_some_iff.mp h
  constructor
  · rintro rfl
    cases (show toDigit '+' = none by decide).symm.trans hx
  · rintro rfl
    cases (show toDigit '-' = none by decide).symm.trans hx

/-- **What is read** is exactly the numerals in range. -/
theorem parse_ok_iff (hlo : lo ≤ 0) (hhi : 0 ≤ hi) {s : String} {n : Int} :
    parse lo hi s = .ok n ↔ Denotes s n ∧ lo ≤ n ∧ n ≤ hi := by
  have hzero : ∀ sign : Int, lo ≤ sign * (0 : Nat) ∧ sign * (0 : Nat) ≤ hi := by
    intro sign
    simpa using ⟨hlo, hhi⟩
  have hplus : ∀ digits, readDigits lo hi 1 .posOverflow digits 0 = .ok n ↔
      ∃ m, value digits 0 = some m ∧ n = m ∧ lo ≤ n ∧ n ≤ hi := by
    intro digits
    simpa using readDigits_ok_iff (Or.inl rfl) .posOverflow (hzero 1)
  have hminus : ∀ digits, readDigits lo hi (-1) .negOverflow digits 0 = .ok n ↔
      ∃ m, value digits 0 = some m ∧ n = -m ∧ lo ≤ n ∧ n ≤ hi := by
    intro digits
    simpa using readDigits_ok_iff (Or.inr rfl) .negOverflow (hzero (-1))
  rw [parse, Denotes]
  generalize s.toList = cs
  split
  · simp
  · constructor
    · intro h
      cases h
    · rintro ⟨⟨digits, m, hne, hv, ⟨rfl, -⟩ | ⟨hd, -⟩ | ⟨hd, -⟩⟩, -⟩
      · exact absurd rfl (ne_sign_of_value hv).1
      · cases hd
        exact absurd rfl hne
      · cases hd
  · constructor
    · intro h
      cases h
    · rintro ⟨⟨digits, m, hne, hv, ⟨rfl, -⟩ | ⟨hd, -⟩ | ⟨hd, -⟩⟩, -⟩
      · exact absurd rfl (ne_sign_of_value hv).2
      · cases hd
      · cases hd
        exact absurd rfl hne
  · rename_i digits hne
    rw [hplus]
    constructor
    · rintro ⟨m, hv, hn, hr⟩
      exact ⟨⟨digits, m, fun h => hne (by rw [h]), hv, Or.inr (Or.inl ⟨rfl, hn⟩)⟩, hr⟩
    · rintro ⟨⟨digits', m, -, hv, ⟨rfl, -⟩ | ⟨hd, hn⟩ | ⟨hd, -⟩⟩, hr⟩
      · exact absurd rfl (ne_sign_of_value hv).1
      · cases hd
        exact ⟨m, hv, hn, hr⟩
      · cases hd
  · rename_i digits hne
    rw [hminus]
    constructor
    · rintro ⟨m, hv, hn, hr⟩
      exact ⟨⟨digits, m, fun h => hne (by rw [h]), hv, Or.inr (Or.inr ⟨rfl, hn⟩)⟩, hr⟩
    · rintro ⟨⟨digits', m, -, hv, ⟨rfl, -⟩ | ⟨hd, -⟩ | ⟨hd, hn⟩⟩, hr⟩
      · exact absurd rfl (ne_sign_of_value hv).2
      · cases hd
      · cases hd
        exact ⟨m, hv, hn, hr⟩
  · rename_i hnil _ _ hp hm
    rw [hplus]
    constructor
    · rintro ⟨m, hv, hn, hr⟩
      exact ⟨⟨cs, m, hnil, hv, Or.inl ⟨rfl, hn⟩⟩, hr⟩
    · rintro ⟨⟨digits, m, -, hv, ⟨rfl, hn⟩ | ⟨hd, -⟩ | ⟨hd, -⟩⟩, hr⟩
      · exact ⟨m, hv, hn, hr⟩
      · exact absurd hd (hp digits)
      · exact absurd hd (hm digits)

end Numeral
