/-
Two runs of programs, side by side (effectful code, part 3).

`Related pre post p q` compares a run of `p` against one handler with a run of `q`
against another: from states related by `pre`, results and final states are related by
`post`.  The rules follow the structure of the programs, as those of `Safe` do.

* `Related.bind`, `Related.andThen` — sequencing;
* `Related.interp` — one program over two refinements of its operations: if the
  refinements of each operation it may issue are related, so are the whole runs.
-/
import PicoHsm.Prog

namespace Effects

namespace Prog

variable {S T : Sig} {α β γ δ ε σ τ : Type}

theorem run_bind (hd : σ → (e : S.Op) → S.Ret e × σ) (p : Prog S α) (f : α → Prog S β) (s : σ) :
    (p >>= f).run hd s = (f (p.run hd s).1).run hd (p.run hd s).2 := by
  induction p generalizing s with
  | ret a => rfl
  | call e k ih => exact ih _ _

/-- From states related by `pre`, the runs of `p` and `q` end in related results and states. -/
def Related (hd₁ : σ → (e : S.Op) → S.Ret e × σ) (hd₂ : τ → (e : S.Op) → S.Ret e × τ)
    (pre : σ → τ → Prop) (post : α → σ → β → τ → Prop) (p : Prog S α) (q : Prog S β) : Prop :=
  ∀ s t, pre s t → post (p.run hd₁ s).1 (p.run hd₁ s).2 (q.run hd₂ t).1 (q.run hd₂ t).2

/-- Two results of code that can fail: the same error, or related values. -/
inductive Agree (inv : σ → τ → Prop) (R : α → σ → β → τ → Prop) :
    Except ε α → σ → Except ε β → τ → Prop where
  | error (e : ε) {s : σ} {t : τ} : inv s t → Agree inv R (.error e) s (.error e) t
  | ok {a : α} {s : σ} {b : β} {t : τ} : R a s b t → Agree inv R (.ok a) s (.ok b) t

theorem Agree.mono {inv inv' : σ → τ → Prop} {R R' : α → σ → β → τ → Prop} {r : Except ε α} {s : σ}
    {r' : Except ε β} {t : τ} (h : Agree inv R r s r' t) (hinv : inv s t → inv' s t)
    (hR : ∀ a b, R a s b t → R' a s b t) : Agree inv' R' r s r' t := by
  cases h with
  | error e hi => exact .error e (hinv hi)
  | ok hr => exact .ok (hR _ _ hr)

/-- The same result, in states that are still related. -/
def Same (inv : σ → τ → Prop) (a : α) (s : σ) (b : α) (t : τ) : Prop := a = b ∧ inv s t

/-- Of code that can fail: the same result is the same error, or the same value. -/
theorem agree_same {inv : σ → τ → Prop} {r r' : Except ε α} {s : σ} {t : τ} :
    Agree inv (Same inv) r s r' t ↔ Same inv r s r' t := by
  constructor
  · intro h
    cases h with
    | error e hi => exact ⟨rfl, hi⟩
    | ok hr => exact ⟨congrArg Except.ok hr.1, hr.2⟩
  · rintro ⟨rfl, hi⟩
    cases r with
    | error e => exact .error e hi
    | ok a => exact .ok ⟨rfl, hi⟩

section Rules

variable {hd₁ : σ → (e : S.Op) → S.Ret e × σ} {hd₂ : τ → (e : S.Op) → S.Ret e × τ}
  {pre : σ → τ → Prop} {inv : σ → τ → Prop}

theorem Related.ret {post : α → σ → β → τ → Prop} {a : α} {b : β}
    (h : ∀ s t, pre s t → post a s b t) : Related hd₁ hd₂ pre post (.ret a : Prog S α) (.ret b) := h

/-- One operation on either side, and going on. -/
theorem Related.call {post : α → σ → β → τ → Prop} {e e' : S.Op} {k : S.Ret e → Prog S α}
    {k' : S.Ret e' → Prog S β} (mid : S.Ret e → σ → S.Ret e' → τ → Prop)
    (hop : Related hd₁ hd₂ pre mid (one e) (one e'))
    (hk : ∀ r r', Related hd₁ hd₂ (fun s t => mid r s r' t) post (k r) (k' r')) :
    Related hd₁ hd₂ pre post (.call e k) (.call e' k') :=
  fun s t hst => hk _ _ _ _ (hop s t hst)

/-- An operation that both sides issue, and that has the same answer. -/
theorem Related.sameCall {post : α → σ → β → τ → Prop} {e : S.Op} {k : S.Ret e → Prog S α}
    {k' : S.Ret e → Prog S β} (mid : σ → τ → Prop)
    (hop : Related hd₁ hd₂ pre (Same mid) (one e) (one e))
    (hk : ∀ r, Related hd₁ hd₂ mid post (k r) (k' r)) :
    Related hd₁ hd₂ pre post (.call e k) (.call e k') := by
  refine Related.call (Same mid) hop fun r r' s t h => ?_
  obtain ⟨rfl, hst⟩ := h
  exact hk r s t hst

theorem Related.bind {mid : α → σ → β → τ → Prop} {post : γ → σ → δ → τ → Prop} {p : Prog S α}
    {q : Prog S β} {f : α → Prog S γ} {f' : β → Prog S δ} (hp : Related hd₁ hd₂ pre mid p q)
    (hf : ∀ a b, Related hd₁ hd₂ (fun s t => mid a s b t) post (f a) (f' b)) :
    Related hd₁ hd₂ pre post (p >>= f) (q >>= f') := by
  intro s t hst
  rw [run_bind, run_bind]
  exact hf _ _ _ _ (hp s t hst)

/-- Sequencing of code that can fail. -/
theorem Related.andThen {R : α → σ → β → τ → Prop} {R' : γ → σ → δ → τ → Prop}
    {p : Prog S (Except ε α)} {q : Prog S (Except ε β)} {f : α → Prog S (Except ε γ)}
    {f' : β → Prog S (Except ε δ)} (hp : Related hd₁ hd₂ pre (Agree inv R) p q)
    (hf : ∀ a b, Related hd₁ hd₂ (fun s t => R a s b t) (Agree inv R') (f a) (f' b)) :
    Related hd₁ hd₂ pre (Agree inv R') (p.andThen f) (q.andThen f') := by
  refine Related.bind hp fun r r' s t hrt => ?_
  cases hrt with
  | error e hi => exact .error e hi
  | ok hr => exact hf _ _ s t hr

/-- The rule of consequence. -/
theorem Related.mono {pre' : σ → τ → Prop} {post post' : α → σ → β → τ → Prop} {p : Prog S α}
    {q : Prog S β} (h : Related hd₁ hd₂ pre post p q) (hpre : ∀ s t, pre' s t → pre s t)
    (hpost : ∀ a s b t, post a s b t → post' a s b t) : Related hd₁ hd₂ pre' post' p q :=
  fun s t hst => hpost _ _ _ _ (h s t (hpre s t hst))

end Rules

/-- **One program over two handlers.**  If each operation it may issue has, refined by
`f`, the same result from states related by `inv`, and keeps them related, so has the
whole program. -/
theorem Related.interp {hd₁ : σ → (e : T.Op) → T.Ret e × σ} {hd₂ : τ → (e : T.Op) → T.Ret e × τ}
    {inv : σ → τ → Prop} {f : (e : S.Op) → Prog T (S.Ret e)} {guar : List (Ev S) → S.Op → Prop}
    {post : List (Ev S) → α → Prop}
    (hf : ∀ h e, guar h e → Related hd₁ hd₂ inv (Same inv) (f e) (f e)) {p : Prog S α}
    {h : List (Ev S)} (hs : Safe (fun _ _ => True) guar post h p) :
    Related hd₁ hd₂ inv (Same inv) (p.interp f) (p.interp f) := by
  induction p generalizing h with
  | ret a => exact fun s t hst => ⟨rfl, hst⟩
  | call e k ih =>
    refine Related.bind (hf h e hs.1) fun r r' s t hrt => ?_
    obtain ⟨rfl, hst⟩ := hrt
    exact ih r (hs.2 r trivial) s t hst

end Prog

end Effects
