/-
A program against a specification that is a function (effectful code, part 5).

The specification of code is a function of an abstract state that gives the result and the
next state.  `Implements pre post p d` says of every run of `p` to its end, from a state that
`pre` relates to an abstract one and answered as `act` allows: its result and final state are
related by `post` to those of `d`.  As for `Related`, the rules follow the structure of the
code.

* `Returns` — runs to the end against a relation; a handler is one (`HandledBy`);
* `Implements.ret`, `Implements.call`, `Implements.bind`, `Implements.andThen` — the rules;
* `Implements.interp` — if every operation a program may issue is implemented by its
  refinement, so is the program.
-/
import PicoHsm.Relational

namespace Effects

namespace Prog

variable {S T : Sig} {α β γ δ ε σ τ : Type}

/-! ### Runs to the end -/

/-- Answered as `act` allows, `p` returns `a`, and the state `s` is now `s'`. -/
inductive Returns (act : σ → Ev S → σ → Prop) : Prog S α → σ → α → σ → Prop where
  | ret (a : α) (s : σ) : Returns act (.ret a) s a s
  | call {e : S.Op} {k : S.Ret e → Prog S α} {r : S.Ret e} {s s' s'' : σ} {a : α} :
      act s ⟨e, r⟩ s' → Returns act (k r) s' a s'' → Returns act (.call e k) s a s''

/-- A handler as a relation. -/
def HandledBy (hd : σ → (e : S.Op) → S.Ret e × σ) (s : σ) (ev : Ev S) (s' : σ) : Prop :=
  hd s ev.op = (ev.ret, s')

theorem returns_run (hd : σ → (e : S.Op) → S.Ret e × σ) (p : Prog S α) (s : σ) :
    Returns (HandledBy hd) p s (p.run hd s).1 (p.run hd s).2 := by
  induction p generalizing s with
  | ret a => exact .ret a s
  | call e k ih =>
    have ha : HandledBy hd s ⟨e, (hd s e).1⟩ (hd s e).2 := rfl
    exact .call ha (ih _ _)

theorem Returns.bind_inv {act : σ → Ev S → σ → Prop} {p : Prog S α} {f : α → Prog S β} {s s'' : σ}
    {b : β} (h : Returns act (p >>= f) s b s'') :
    ∃ a s', Returns act p s a s' ∧ Returns act (f a) s' b s'' := by
  induction p generalizing s with
  | ret a => exact ⟨a, s, .ret a s, h⟩
  | call e k ih =>
    rw [call_bind] at h
    cases h with
    | call ha h =>
      obtain ⟨a, s', h₁, h₂⟩ := ih _ h
      exact ⟨a, s', .call ha h₁, h₂⟩

/-- A trace is a run against what takes its events one by one. -/
theorem Steps.returns {act : ℕ → Ev S → ℕ → Prop} {p : Prog S α} {a : α} {h t u : List (Ev S)}
    (hu : Steps p u (.ret a)) (hact : ∀ n ev, t[n]? = some ev → act n ev (n + 1))
    (ht : t = h ++ u) : Returns act p h.length a t.length := by
  generalize hr : Prog.ret a = q at hu
  induction hu generalizing h with
  | refl p =>
    subst hr
    rw [ht, List.append_nil]
    exact .ret a _
  | @call e k r u p' _ ih =>
    have hev : t[h.length]? = some ⟨e, r⟩ := by simp [ht]
    have hnext := ih (h := h ++ [⟨e, r⟩]) (by rw [ht, List.append_assoc]; rfl) hr
    rw [List.length_append] at hnext
    exact .call (hact _ _ hev) hnext

/-- `p` does what `d` says. -/
def Implements (act : σ → Ev S → σ → Prop) (pre : σ → τ → Prop) (post : α → σ → β → τ → Prop)
    (p : Prog S α) (d : τ → β × τ) : Prop :=
  ∀ s t a s', pre s t → Returns act p s a s' → post a s' (d t).1 (d t).2

/-- One thing after the other. -/
def sequence (d : τ → α × τ) (f : α → τ → β × τ) : τ → β × τ := fun t => f (d t).1 (d t).2

/-- The same, of things that can fail; the first error ends them. -/
def followedBy (d : τ → Except ε α × τ) (f : α → τ → Except ε β × τ) : τ → Except ε β × τ :=
  sequence d fun r t =>
    match r with
    | .error e => (.error e, t)
    | .ok a => f a t

/-- One operation is answered as `d` says. -/
def Answers (act : σ → Ev S → σ → Prop) (pre : σ → τ → Prop) (e : S.Op)
    (mid : S.Ret e → σ → γ → τ → Prop) (d : τ → γ × τ) : Prop :=
  ∀ s t r s', pre s t → act s ⟨e, r⟩ s' → mid r s' (d t).1 (d t).2

section Rules

variable {act : σ → Ev S → σ → Prop} {pre inv : σ → τ → Prop}

theorem answers_of_handler {hd : σ → (e : S.Op) → S.Ret e × σ} {e : S.Op}
    {mid : S.Ret e → σ → γ → τ → Prop} {d : τ → γ × τ}
    (h : ∀ s t, pre s t → mid (hd s e).1 (hd s e).2 (d t).1 (d t).2) :
    Answers (HandledBy hd) pre e mid d := by
  intro s t r s' hst ha
  have := h s t hst
  rw [show hd s e = (r, s') from ha] at this
  exact this

theorem Implements.ret {post : α → σ → β → τ → Prop} {a : α} {d : τ → β × τ}
    (h : ∀ s t, pre s t → post a s (d t).1 (d t).2) :
    Implements act pre post (.ret a : Prog S α) d := by
  intro s t a' s' hst hr
  cases hr
  exact h s t hst

/-- One operation, specified by `d`, and going on. -/
theorem Implements.call {post : α → σ → β → τ → Prop} {e : S.Op} {k : S.Ret e → Prog S α}
    {d : τ → γ × τ} {f : γ → τ → β × τ} {mid : S.Ret e → σ → γ → τ → Prop}
    (hop : Answers act pre e mid d)
    (hk : ∀ r r', Implements act (fun s t => mid r s r' t) post (k r) (f r')) :
    Implements act pre post (.call e k) (sequence d f) := by
  intro s t a s' hst hr
  cases hr with
  | call ha hr => exact hk _ _ _ _ _ _ (hop _ _ _ _ hst ha) hr

theorem Implements.bind {mid : α → σ → γ → τ → Prop} {post : β → σ → δ → τ → Prop} {p : Prog S α}
    {f : α → Prog S β} {d : τ → γ × τ} {f' : γ → τ → δ × τ} (hp : Implements act pre mid p d)
    (hf : ∀ a a', Implements act (fun s t => mid a s a' t) post (f a) (f' a')) :
    Implements act pre post (p >>= f) (sequence d f') := by
  intro s t b s'' hst hr
  obtain ⟨a, s', h₁, h₂⟩ := hr.bind_inv
  exact hf _ _ _ _ _ _ (hp _ _ _ _ hst h₁) h₂

theorem Implements.mono {pre' : σ → τ → Prop} {post post' : α → σ → β → τ → Prop} {p : Prog S α}
    {d : τ → β × τ} (h : Implements act pre post p d) (hpre : ∀ s t, pre' s t → pre s t)
    (hpost : ∀ a s b t, post a s b t → post' a s b t) : Implements act pre' post' p d :=
  fun s t a s' hst hr => hpost _ _ _ _ (h s t a s' (hpre s t hst) hr)

/-- Going on with the result of code that can fail. -/
theorem Implements.cases {R : α → σ → β → τ → Prop} {post : γ → σ → δ → τ → Prop}
    {k : Except ε α → Prog S γ} {f : Except ε β → τ → δ × τ}
    (herr : ∀ e, Implements act inv post (k (.error e)) (f (.error e)))
    (hok : ∀ a b, Implements act (fun s t => R a s b t) post (k (.ok a)) (f (.ok b)))
    (r : Except ε α) (r' : Except ε β) :
    Implements act (fun s t => Agree inv R r s r' t) post (k r) (f r') := by
  intro s t c s' h hr
  cases h with
  | error e hi => exact herr e s t c s' hi hr
  | ok h => exact hok _ _ s t c s' h hr

/-- Going on with a result that both have. -/
theorem Implements.same {post : γ → σ → δ → τ → Prop} {k : α → Prog S γ} {f : α → τ → δ × τ}
    (h : ∀ r, Implements act inv post (k r) (f r)) (r r' : α) :
    Implements act (fun s t => Same inv r s r' t) post (k r) (f r') := by
  rintro s t c s' ⟨rfl, hst⟩ hr
  exact h r s t c s' hst hr

/-- Sequencing of code that can fail. -/
theorem Implements.andThen {R : α → σ → β → τ → Prop} {R' : γ → σ → δ → τ → Prop}
    {p : Prog S (Except ε α)} {f : α → Prog S (Except ε γ)} {d : τ → Except ε β × τ}
    {f' : β → τ → Except ε δ × τ} (hp : Implements act pre (Agree inv R) p d)
    (hf : ∀ a b, Implements act (fun s t => R a s b t) (Agree inv R') (f a) (f' b)) :
    Implements act pre (Agree inv R') (p.andThen f) (followedBy d f') := by
  refine Implements.bind hp (Implements.cases (fun e => ?_) fun a b => hf a b)
  exact Implements.ret fun s t hi => .error e hi

end Rules

/-- **One program, its operations refined and specified.**  If the refinement of every
operation it may issue has the result the specification gives, and keeps the states related,
the program over the refinements does what it does over the specification. -/
theorem Implements.interp {act : σ → Ev T → σ → Prop} {inv : σ → τ → Prop}
    {f : (e : S.Op) → Prog T (S.Ret e)} {spec : τ → (e : S.Op) → S.Ret e × τ}
    {guar : List (Ev S) → S.Op → Prop} {post : List (Ev S) → α → Prop}
    (hf : ∀ h e, guar h e → Implements act inv (Same inv) (f e) fun t => spec t e) {p : Prog S α}
    {h : List (Ev S)} (hs : Safe (fun _ _ => True) guar post h p) :
    Implements act inv (Same inv) (p.interp f) (p.run spec) := by
  induction p generalizing h with
  | ret a => exact Implements.ret fun s t hst => ⟨rfl, hst⟩
  | call e k ih =>
    intro s t b s'' hst hr
    obtain ⟨a, s', h₁, h₂⟩ := hr.bind_inv
    obtain ⟨rfl, hst'⟩ := hf h e hs.1 s t a s' hst h₁
    exact ih _ (hs.2 _ trivial) _ _ _ _ hst' h₂

end Prog

end Effects
