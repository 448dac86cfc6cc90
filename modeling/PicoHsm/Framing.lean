/-
Length-prefixed framing of byte strings.

`frames ps` writes each part of `ps` behind its length, as eight big-endian bytes.
The length is reduced modulo `2 ^ 64`, as the conversion to a 64-bit word does, so
the statements ask that the parts be shorter than that.

* `frames_append_inj` — a framed list of parts can be split off the front of any
  byte string in only one way: equal outputs come from equal parts, and no output
  is a proper prefix of another, whatever bytes the parts hold.
-/
import Mathlib.Data.List.Basic
import Mathlib.Tactic.NormNum

namespace Framing

/-- The eight big-endian bytes of `n`, taken modulo `2 ^ 64`. -/
def be64 (n : ℕ) : List UInt8 :=
  [UInt8.ofNat (n / 2 ^ 56), UInt8.ofNat (n / 2 ^ 48), UInt8.ofNat (n / 2 ^ 40),
    UInt8.ofNat (n / 2 ^ 32), UInt8.ofNat (n / 2 ^ 24), UInt8.ofNat (n / 2 ^ 16),
    UInt8.ofNat (n / 2 ^ 8), UInt8.ofNat n]

@[simp] theorem be64_length (n : ℕ) : (be64 n).length = 8 := rfl

private theorem ofNat_inj {a b : ℕ} (h : UInt8.ofNat a = UInt8.ofNat b) : a % 256 = b % 256 := by
  simpa using congrArg UInt8.toNat h

theorem be64_inj {m n : ℕ} (hm : m < 2 ^ 64) (hn : n < 2 ^ 64) (h : be64 m = be64 n) :
    m = n := by
  simp only [be64, List.cons.injEq, and_true] at h
  obtain ⟨h₇, h₆, h₅, h₄, h₃, h₂, h₁, h₀⟩ := h
  have e₇ := ofNat_inj h₇
  have e₆ := ofNat_inj h₆
  have e₅ := ofNat_inj h₅
  have e₄ := ofNat_inj h₄
  have e₃ := ofNat_inj h₃
  have e₂ := ofNat_inj h₂
  have e₁ := ofNat_inj h₁
  have e₀ := ofNat_inj h₀
  norm_num at hm hn e₀ e₁ e₂ e₃ e₄ e₅ e₆ e₇
  omega

/-- One part behind its length. -/
def frame (p : List UInt8) : List UInt8 := be64 p.length ++ p

/-- The parts one after another, each behind its length. -/
def frames : List (List UInt8) → List UInt8
  | [] => []
  | p :: ps => frame p ++ frames ps

/-- Every part is shorter than `2 ^ 64` bytes, as anything held in memory is. -/
def Short (ps : List (List UInt8)) : Prop := ∀ p ∈ ps, p.length < 2 ^ 64

theorem short_nil : Short [] := fun _ hp => absurd hp (by simp)

theorem Short.cons {p : List UInt8} {ps : List (List UInt8)} (h : Short ps)
    (hp : p.length < 2 ^ 64) : Short (p :: ps) := List.forall_mem_cons.mpr ⟨hp, h⟩

theorem frame_append_inj {p q x y : List UInt8} (hp : p.length < 2 ^ 64)
    (hq : q.length < 2 ^ 64) (h : frame p ++ x = frame q ++ y) : p = q ∧ x = y := by
  rw [frame, frame, List.append_assoc, List.append_assoc] at h
  obtain ⟨hlen, h⟩ := List.append_inj h (by simp)
  exact List.append_inj h (be64_inj hp hq hlen)

/-- Unique readability of framed parts, with anything behind them. -/
theorem frames_append_inj {ps qs : List (List UInt8)} {x y : List UInt8}
    (hlen : ps.length = qs.length) (hp : Short ps) (hq : Short qs)
    (h : frames ps ++ x = frames qs ++ y) : ps = qs ∧ x = y := by
  induction ps generalizing qs with
  | nil =>
    rw [List.length_nil, eq_comm, List.length_eq_zero_iff] at hlen
    subst hlen
    exact ⟨rfl, h⟩
  | cons p ps ih =>
    rcases qs with _ | ⟨q, qs⟩
    · simp at hlen
    -- split off the first frame; the rest is shorter
    · rw [frames, frames, List.append_assoc, List.append_assoc] at h
      obtain ⟨rfl, hrest⟩ := frame_append_inj (hp p (by simp)) (hq q (by simp)) h
      obtain ⟨rfl, hxy⟩ := ih (by simpa using hlen)
        (fun p' hp' => hp p' (by simp [hp'])) (fun q' hq' => hq q' (by simp [hq'])) hrest
      exact ⟨rfl, hxy⟩

theorem frames_inj {ps qs : List (List UInt8)} (hlen : ps.length = qs.length)
    (hp : Short ps) (hq : Short qs) (h : frames ps = frames qs) : ps = qs :=
  (frames_append_inj (x := []) (y := []) hlen hp hq (by simpa using h)).1

end Framing
