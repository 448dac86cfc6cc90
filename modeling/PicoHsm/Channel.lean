/-
A byte stream that carries lines.

One side writes whole lines; the transport cuts the bytes wherever it likes; the other
side collects what has arrived and takes a line off as soon as it is complete.

* `takeLine` — the first complete line of what has arrived;
* `Channel.Holds` — the lines on their way, and what stands of a line that was cut off;
* `Holds.send`, `Holds.deliver`, `Holds.take` — lines come out as they went in;
* `Holds.drained` — once everything has arrived and no line is complete, none is missing.
-/
import PicoHsm.Text

namespace Text

/-- The first complete line, without its line feed, and what is behind it. -/
def takeLine : List UInt8 → Option (List UInt8 × List UInt8)
  | [] => none
  | b :: bs =>
    if b = lf then some ([], bs)
    else (takeLine bs).map fun p => (b :: p.1, p.2)

theorem takeLine_eq_some {bs l rest : List UInt8} :
    takeLine bs = some (l, rest) ↔ bs = l ++ lf :: rest ∧ lf ∉ l := by
  induction bs generalizing l with
  | nil => simp [takeLine]
  | cons b bs ih =>
    rw [takeLine]
    by_cases hb : b = lf
    · subst hb
      rw [if_pos rfl]
      constructor
      · intro h
        cases h
        exact ⟨rfl, List.not_mem_nil⟩
      · rintro ⟨h, hl⟩
        rcases l with _ | ⟨x, l⟩
        · cases h
          rfl
        · cases h
          exact absurd List.mem_cons_self hl
    · rw [if_neg hb, Option.map_eq_some_iff]
      constructor
      · rintro ⟨⟨l', rest'⟩, hp, h⟩
        cases h
        obtain ⟨rfl, hl⟩ := ih.mp hp
        refine ⟨rfl, fun hm => ?_⟩
        rcases List.mem_cons.mp hm with hm | hm
        · exact hb hm.symm
        · exact hl hm
      · rintro ⟨h, hl⟩
        rcases l with _ | ⟨x, l⟩
        · cases h
          exact absurd rfl hb
        · cases h
          exact ⟨(l, rest), ih.mpr ⟨rfl, fun hm => hl (List.mem_cons_of_mem _ hm)⟩, rfl⟩

theorem takeLine_eq_none {bs : List UInt8} : takeLine bs = none ↔ lf ∉ bs := by
  induction bs with
  | nil => simp [takeLine]
  | cons b bs ih =>
    rw [takeLine, List.mem_cons, not_or]
    by_cases hb : b = lf
    · simp [hb]
    · rw [if_neg hb, Option.map_eq_none_iff, ih]
      exact ⟨fun h => ⟨fun he => hb he.symm, h⟩, And.right⟩

/-- The bytes of lines, each with its line feed. -/
def joinLines (ls : List (List UInt8)) : List UInt8 := ls.flatMap fun l => l ++ [lf]

@[simp] theorem joinLines_nil : joinLines [] = [] := rfl

@[simp] theorem joinLines_cons (l : List UInt8) (ls : List (List UInt8)) :
    joinLines (l :: ls) = l ++ lf :: joinLines ls := by
  simp [joinLines]

@[simp] theorem joinLines_append (ls ls' : List (List UInt8)) :
    joinLines (ls ++ ls') = joinLines ls ++ joinLines ls' := by
  simp [joinLines]

/-- What is on its way, and what has arrived and is not used up. -/
structure Channel where
  flight : List UInt8
  buf : List UInt8

namespace Channel

def empty : Channel := ⟨[], []⟩

def send (ch : Channel) (bytes : List UInt8) : Channel := { ch with flight := ch.flight ++ bytes }

/-- The next `n` bytes arrive. -/
def deliver (ch : Channel) (n : ℕ) : Channel := ⟨ch.flight.drop n, ch.buf ++ ch.flight.take n⟩

/-- Take a line off, if one is complete. -/
def take (ch : Channel) : Option (List UInt8 × Channel) :=
  (takeLine ch.buf).map fun p => (p.1, { ch with buf := p.2 })

/-- The channel holds these lines, and behind them the beginning of one that will never be
complete. -/
structure Holds (ch : Channel) (ls : List (List UInt8)) (tail : List UInt8) : Prop where
  bytes : ch.buf ++ ch.flight = joinLines ls ++ tail
  line : ∀ l ∈ ls, lf ∉ l
  tail : lf ∉ tail

theorem holds_empty : empty.Holds [] [] := ⟨rfl, by simp, by simp⟩

variable {ch : Channel} {ls : List (List UInt8)} {tail : List UInt8}

theorem Holds.send (h : ch.Holds ls []) {l : List UInt8} (hl : lf ∉ l) :
    (ch.send (l ++ [lf])).Holds (ls ++ [l]) [] where
  bytes := by
    rw [Channel.send, ← List.append_assoc, h.bytes]
    simp
  line := by
    intro l' hl'
    rcases List.mem_append.mp hl' with hl' | hl'
    · exact h.line l' hl'
    · rw [List.mem_singleton.mp hl']
      exact hl
  tail := h.tail

/-- A line that is cut off. -/
theorem Holds.sendTail (h : ch.Holds ls []) {bytes : List UInt8} (hb : lf ∉ bytes) :
    (ch.send bytes).Holds ls bytes where
  bytes := by
    rw [Channel.send, ← List.append_assoc, h.bytes, List.append_nil]
  line := h.line
  tail := hb

theorem Holds.deliver (h : ch.Holds ls tail) (n : ℕ) : (ch.deliver n).Holds ls tail where
  bytes := by
    rw [Channel.deliver, List.append_assoc, List.take_append_drop, h.bytes]
  line := h.line
  tail := h.tail

/-- Two ways to see the first line. -/
theorem line_inj {l l' rest rest' : List UInt8} (hl : lf ∉ l) (hl' : lf ∉ l')
    (h : l ++ lf :: rest = l' ++ lf :: rest') : l = l' ∧ rest = rest' := by
  have h₁ := takeLine_eq_some.mpr ⟨h, hl'⟩
  rw [takeLine_eq_some.mpr ⟨rfl, hl⟩, Option.some_inj, Prod.mk.injEq] at h₁
  exact h₁

theorem Holds.take (h : ch.Holds ls tail) {l : List UInt8} {ch' : Channel}
    (ht : ch.take = some (l, ch')) : ∃ ls', ls = l :: ls' ∧ ch'.Holds ls' tail := by
  obtain ⟨⟨l₀, rest⟩, hp, he⟩ := Option.map_eq_some_iff.mp ht
  cases he
  obtain ⟨hbuf, hl⟩ := takeLine_eq_some.mp hp
  have hb := h.bytes
  rw [hbuf, List.append_assoc, List.cons_append] at hb
  rcases ls with _ | ⟨l', ls⟩
  · -- what was cut off has no line feed
    rw [joinLines_nil, List.nil_append] at hb
    refine absurd ?_ h.tail
    rw [← hb]
    simp
  · rw [joinLines_cons, List.append_assoc, List.cons_append] at hb
    obtain ⟨rfl, hrest⟩ := line_inj hl (h.line _ List.mem_cons_self) hb
    exact ⟨ls, rfl, hrest, fun l' hl' => h.line l' (List.mem_cons_of_mem _ hl'), h.tail⟩

theorem Holds.drained (h : ch.Holds ls tail) (hf : ch.flight = []) (ht : ch.take = none) :
    ls = [] := by
  rw [Channel.take, Option.map_eq_none_iff, takeLine_eq_none] at ht
  rcases ls with _ | ⟨l, ls⟩
  · rfl
  refine absurd ?_ ht
  have hb := h.bytes
  rw [hf, List.append_nil] at hb
  rw [hb, joinLines_cons]
  simp

end Channel

end Text
