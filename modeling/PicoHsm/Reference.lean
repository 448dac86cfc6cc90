/-
Reference implementations of the dependencies (part 1: base64 and SHA-256).

The model takes the crates as parameters with laws; here are functions that compute
what the crates document (RFC 4648 with canonical padding, FIPS 180-4), so that the
laws are known to be satisfiable and the statements can be run on real inputs.

* `Ref.base64_lawful` — the base64 laws hold of the reference engine;
* `Ref.encode_digest_length` — an encoded digest is 44 characters long.
-/
import Mathlib.Tactic.IntervalCases
import PicoHsm.Crates

namespace PicoHsm.Ref

/-! ### Base64 -/

def alphabet : List Char :=
  ['A', 'B', 'C', 'D', 'E', 'F', 'G', 'H', 'I', 'J', 'K', 'L', 'M', 'N', 'O', 'P', 'Q', 'R',
    'S', 'T', 'U', 'V', 'W', 'X', 'Y', 'Z', 'a', 'b', 'c', 'd', 'e', 'f', 'g', 'h', 'i', 'j',
    'k', 'l', 'm', 'n', 'o', 'p', 'q', 'r', 's', 't', 'u', 'v', 'w', 'x', 'y', 'z', '0', '1',
    '2', '3', '4', '5', '6', '7', '8', '9', '+', '/']

/-- The character of a six-bit value, and back. -/
def sextet (n : ℕ) : Char := alphabet.getD n '='

def value (c : Char) : Option ℕ := alphabet.idxOf? c

theorem value_sextet {n : ℕ} (h : n < 64) : value (sextet n) = some n := by
  have H : ∀ m : Fin 64, value (sextet m) = some m.val := by decide
  exact H ⟨n, h⟩

theorem sextet_ne_pad {n : ℕ} (h : n < 64) : sextet n ≠ '=' := by
  have H : ∀ m : Fin 64, sextet m ≠ '=' := by decide
  exact H ⟨n, h⟩

theorem value_eq_some {c : Char} {n : ℕ} (h : value c = some n) : n < 64 ∧ sextet n = c := by
  rw [value, List.idxOf?_eq_some_iff] at h
  obtain ⟨hn, hc, -⟩ := h
  refine ⟨hn, ?_⟩
  rw [sextet, List.getD_eq_getElem?_getD, List.getElem?_eq_getElem hn]
  exact hc

def encodeChars : List UInt8 → List Char
  | [] => []
  | [a] => [sextet (a.toNat / 4), sextet (a.toNat % 4 * 16), '=', '=']
  | [a, b] =>
    [sextet (a.toNat / 4), sextet (a.toNat % 4 * 16 + b.toNat / 16), sextet (b.toNat % 16 * 4),
      '=']
  | a :: b :: c :: rest =>
    sextet (a.toNat / 4) :: sextet (a.toNat % 4 * 16 + b.toNat / 16) ::
      sextet (b.toNat % 16 * 4 + c.toNat / 64) :: sextet (c.toNat % 64) :: encodeChars rest

def decodeChars : List Char → Option (List UInt8)
  | [] => some []
  | a :: b :: c :: d :: rest =>
    if d = '=' then
      -- padding: the last group, with the unused bits zero
      if rest ≠ [] then none
      else if c = '=' then
        match value a, value b with
        | some x, some y => if y % 16 = 0 then some [UInt8.ofNat (x * 4 + y / 16)] else none
        | _, _ => none
      else
        match value a, value b, value c with
        | some x, some y, some z =>
          if z % 4 = 0 then
            some [UInt8.ofNat (x * 4 + y / 16), UInt8.ofNat (y % 16 * 16 + z / 4)]
          else none
        | _, _, _ => none
    else
      match value a, value b, value c, value d, decodeChars rest with
      | some x, some y, some z, some w, some bs =>
        some (UInt8.ofNat (x * 4 + y / 16) :: UInt8.ofNat (y % 16 * 16 + z / 4) ::
          UInt8.ofNat (z % 4 * 64 + w) :: bs)
      | _, _, _, _, _ => none
  | _ => none

def base64 : Base64 where
  encode bs := String.ofList (encodeChars bs)
  decode s := decodeChars s.toList

private theorem ofNat_eq {n : ℕ} {b : UInt8} (h : n = b.toNat) : UInt8.ofNat n = b := by
  rw [h, UInt8.ofNat_toNat]

theorem decodeChars_encodeChars (bs : List UInt8) : decodeChars (encodeChars bs) = some bs := by
  induction bs using encodeChars.induct with
  | case1 => rfl
  | case2 a =>
    have ha := a.toNat_lt
    rw [encodeChars, decodeChars, value_sextet (by omega), value_sextet (by omega)]
    simp only [ne_eq, not_true_eq_false, if_true, if_false]
    rw [if_pos (by omega), ofNat_eq (b := a) (by omega)]
  | case3 a b =>
    have ha := a.toNat_lt
    have hb := b.toNat_lt
    rw [encodeChars, decodeChars, value_sextet (by omega), value_sextet (by omega),
      value_sextet (by omega), if_neg (sextet_ne_pad (by omega))]
    simp only [ne_eq, not_true_eq_false, if_true, if_false]
    rw [if_pos (by omega), ofNat_eq (b := a) (by omega), ofNat_eq (b := b) (by omega)]
  | case4 a b c rest ih =>
    have ha := a.toNat_lt
    have hb := b.toNat_lt
    have hc := c.toNat_lt
    rw [encodeChars, decodeChars, if_neg (sextet_ne_pad (by omega)), value_sextet (by omega),
      value_sextet (by omega), value_sextet (by omega), value_sextet (by omega), ih]
    dsimp only
    rw [ofNat_eq (b := a) (by omega), ofNat_eq (b := b) (by omega), ofNat_eq (b := c) (by omega)]

private theorem toNat_ofNat {n : ℕ} (h : n < 256) : (UInt8.ofNat n).toNat = n := by
  rw [UInt8.toNat_ofNat']
  exact Nat.mod_eq_of_lt h

theorem encodeChars_decodeChars {cs : List Char} {bs : List UInt8}
    (h : decodeChars cs = some bs) : encodeChars bs = cs := by
  fun_induction decodeChars cs generalizing bs with
  | case1 =>
    cases h
    rfl
  | case3 a b rest hrest x y hy hx hpad =>
    obtain ⟨hx, rfl⟩ := value_eq_some hx
    obtain ⟨hy, rfl⟩ := value_eq_some hy
    obtain rfl := not_not.mp hrest
    cases h
    rw [encodeChars, toNat_ofNat (by omega)]
    have h₁ : (x * 4 + y / 16) / 4 = x := by omega
    have h₂ : (x * 4 + y / 16) % 4 * 16 = y := by omega
    rw [h₁, h₂]
  | case6 a b c rest hrest hc x y z hz hy hx hpad =>
    obtain ⟨hx, rfl⟩ := value_eq_some hx
    obtain ⟨hy, rfl⟩ := value_eq_some hy
    obtain ⟨hz, rfl⟩ := value_eq_some hz
    obtain rfl := not_not.mp hrest
    cases h
    rw [encodeChars, toNat_ofNat (by omega), toNat_ofNat (by omega)]
    have h₁ : (x * 4 + y / 16) / 4 = x := by omega
    have h₂ : (x * 4 + y / 16) % 4 * 16 + (y % 16 * 16 + z / 4) / 16 = y := by omega
    have h₃ : (y % 16 * 16 + z / 4) % 16 * 4 = z := by omega
    rw [h₁, h₂, h₃]
  | case9 a b c d rest hd x y z w bs' hbs hw hz hy hx ih =>
    obtain ⟨hx, rfl⟩ := value_eq_some hx
    obtain ⟨hy, rfl⟩ := value_eq_some hy
    obtain ⟨hz, rfl⟩ := value_eq_some hz
    obtain ⟨hw, rfl⟩ := value_eq_some hw
    cases h
    rw [encodeChars, toNat_ofNat (by omega), toNat_ofNat (by omega), toNat_ofNat (by omega),
      ih hbs]
    have h₁ : (x * 4 + y / 16) / 4 = x := by omega
    have h₂ : (x * 4 + y / 16) % 4 * 16 + (y % 16 * 16 + z / 4) / 16 = y := by omega
    have h₃ : (y % 16 * 16 + z / 4) % 16 * 4 + (z % 4 * 64 + w) / 64 = z := by omega
    have h₄ : (z % 4 * 64 + w) % 64 = w := by omega
    rw [h₁, h₂, h₃, h₄]
  -- in the other cases nothing is decoded
  | case2 => simp at h
  | case4 => simp at h
  | case5 => simp at h
  | case7 => simp at h
  | case8 => simp at h
  | case10 => simp at h
  | case11 => simp at h

theorem base64_lawful : base64.Lawful where
  decode_encode bs := by
    simp only [base64, String.toList_ofList]
    exact decodeChars_encodeChars bs
  encode_decode s bs h := by
    simp only [base64] at h ⊢
    rw [encodeChars_decodeChars h, String.ofList_toList]
  encode_nil := rfl

theorem encodeChars_length (bs : List UInt8) :
    (encodeChars bs).length = (bs.length + 2) / 3 * 4 := by
  induction bs using encodeChars.induct with
  | case1 => rfl
  | case2 a => simp [encodeChars]
  | case3 a b => simp [encodeChars]
  | case4 a b c rest ih =>
    rw [encodeChars]
    simp only [List.length_cons, ih]
    omega

/-! ### SHA-256 -/

/-- Rotation of a 32-bit word. -/
def rotr (x n : ℕ) : ℕ := (x >>> n) ||| ((x <<< (32 - n)) % 2 ^ 32)

/-- The eight working variables. -/
structure Words where
  a : ℕ
  b : ℕ
  c : ℕ
  d : ℕ
  e : ℕ
  f : ℕ
  g : ℕ
  h : ℕ

def initialHash : Words :=
  ⟨0x6a09e667, 0xbb67ae85, 0x3c6ef372, 0xa54ff53a, 0x510e527f, 0x9b05688c, 0x1f83d9ab,
    0x5be0cd19⟩

def roundConstants : List ℕ :=
  [0x428a2f98, 0x71374491, 0xb5c0fbcf, 0xe9b5dba5, 0x3956c25b, 0x59f111f1, 0x923f82a4,
    0xab1c5ed5, 0xd807aa98, 0x12835b01, 0x243185be, 0x550c7dc3, 0x72be5d74, 0x80deb1fe,
    0x9bdc06a7, 0xc19bf174, 0xe49b69c1, 0xefbe4786, 0x0fc19dc6, 0x240ca1cc, 0x2de92c6f,
    0x4a7484aa, 0x5cb0a9dc, 0x76f988da, 0x983e5152, 0xa831c66d, 0xb00327c8, 0xbf597fc7,
    0xc6e00bf3, 0xd5a79147, 0x06ca6351, 0x14292967, 0x27b70a85, 0x2e1b2138, 0x4d2c6dfc,
    0x53380d13, 0x650a7354, 0x766a0abb, 0x81c2c92e, 0x92722c85, 0xa2bfe8a1, 0xa81a664b,
    0xc24b8b70, 0xc76c51a3, 0xd192e819, 0xd6990624, 0xf40e3585, 0x106aa070, 0x19a4c116,
    0x1e376c08, 0x2748774c, 0x34b0bcb5, 0x391c0cb3, 0x4ed8aa4a, 0x5b9cca4f, 0x682e6ff3,
    0x748f82ee, 0x78a5636f, 0x84c87814, 0x8cc70208, 0x90befffa, 0xa4506ceb, 0xbef9a3f7,
    0xc67178f2]

def round (k w : ℕ) (s : Words) : Words :=
  let t₁ := s.h + (rotr s.e 6 ^^^ rotr s.e 11 ^^^ rotr s.e 25) +
    ((s.e &&& s.f) ^^^ ((2 ^ 32 - 1 - s.e) &&& s.g)) + k + w
  let t₂ := (rotr s.a 2 ^^^ rotr s.a 13 ^^^ rotr s.a 22) +
    ((s.a &&& s.b) ^^^ (s.a &&& s.c) ^^^ (s.b &&& s.c))
  ⟨(t₁ + t₂) % 2 ^ 32, s.a, s.b, s.c, (s.d + t₁) % 2 ^ 32, s.e, s.f, s.g⟩

/-- The message schedule, as a window of the next sixteen words. -/
def nextWord (win : List ℕ) : ℕ :=
  let x := win.getD 1 0
  let y := win.getD 14 0
  (win.getD 0 0 + (rotr x 7 ^^^ rotr x 18 ^^^ (x >>> 3)) + win.getD 9 0 +
    (rotr y 17 ^^^ rotr y 19 ^^^ (y >>> 10))) % 2 ^ 32

def rounds : List ℕ → List ℕ → Words → Words
  | [], _, s => s
  | k :: ks, win, s => rounds ks (win.tail ++ [nextWord win]) (round k (win.headD 0) s)

def addWords (s t : Words) : Words :=
  ⟨(s.a + t.a) % 2 ^ 32, (s.b + t.b) % 2 ^ 32, (s.c + t.c) % 2 ^ 32, (s.d + t.d) % 2 ^ 32,
    (s.e + t.e) % 2 ^ 32, (s.f + t.f) % 2 ^ 32, (s.g + t.g) % 2 ^ 32, (s.h + t.h) % 2 ^ 32⟩

def blocks : ℕ → List ℕ → Words → Words
  | 0, _, s => s
  | n + 1, ws, s => blocks n (ws.drop 16) (addWords s (rounds roundConstants (ws.take 16) s))

/-- Big-endian words of a byte string, and back. -/
def toWords : List UInt8 → List ℕ
  | a :: b :: c :: d :: rest =>
    (((a.toNat * 256 + b.toNat) * 256 + c.toNat) * 256 + d.toNat) :: toWords rest
  | _ => []

def wordBytes (n : ℕ) : List UInt8 :=
  [UInt8.ofNat (n / 2 ^ 24), UInt8.ofNat (n / 2 ^ 16), UInt8.ofNat (n / 2 ^ 8), UInt8.ofNat n]

def padding (len : ℕ) : List UInt8 :=
  128 :: List.replicate ((119 - len % 64) % 64) 0 ++
    (List.range 8).map fun i => UInt8.ofNat (len * 8 / 256 ^ (7 - i))

def sha256 (m : List UInt8) : List UInt8 :=
  let p := m ++ padding m.length
  let s := blocks (p.length / 64) (toWords p) initialHash
  wordBytes s.a ++ wordBytes s.b ++ wordBytes s.c ++ wordBytes s.d ++ wordBytes s.e ++
    wordBytes s.f ++ wordBytes s.g ++ wordBytes s.h

theorem sha256_length (m : List UInt8) : (sha256 m).length = 32 := rfl

/-- The first word of the digest of `abc`, as the standard gives it. -/
example : (sha256 [97, 98, 99]).take 4 = [0xba, 0x78, 0x16, 0xbf] := by decide +kernel

/-! ### The dependencies of the gateway -/

def crates : Crates where
  b64 := base64
  sha256 := sha256
  escaped c := c.toNat < 0x20 || c.toNat == 0x7f

theorem encode_digest_length (m : List UInt8) :
    (crates.b64.encode (crates.sha256 m)).length = 44 := by
  show (String.ofList (encodeChars (sha256 m))).length = 44
  rw [String.length_ofList, encodeChars_length, sha256_length]

end PicoHsm.Ref
