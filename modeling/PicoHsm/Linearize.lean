/-
Atomic operations and the programs that implement them (effectful code, part 4).

Threads written over a signature `S` whose operations are atomic are run with each
operation replaced by a program over `T` (`Prog.interp`), whose steps interleave
with those of the other threads.  An operation takes effect at one of its steps; up
to there it has not happened, from there on its answer is fixed.

* `Stage` — where a thread stands in the operation it is performing;
* `Linearizes` — what has to be shown about the implementation, one obligation for
  each kind of step, over an invariant that sees the history, both shared states and
  every thread's stage;
* `Linearizes.refines` — every interleaved run of the implementation is a run of the
  atomic operations, with the same observations in the same order;
* `Linearizes.ret` — a thread that has returned has returned the same there.
-/
import PicoHsm.Pool

namespace Effects

open Prog

variable {S T : Sig} {α σ τ ι O : Type}

/-- Where a thread stands: between two operations; in one that has not taken effect
yet; or in one that has, with the answer it is going to give. -/
inductive Stage (S T : Sig) where
  | idle
  | before (e : S.Op) (q : Prog T (S.Ret e))
  | after (e : S.Op) (r : S.Ret e) (q : Prog T (S.Ret e))

/-- A thread of the implementation and its counterpart. -/
inductive Stands (f : (e : S.Op) → Prog T (S.Ret e)) :
    Stage S T → Prog T α → Prog S α → Prop where
  | idle (p : Prog S α) : Stands f .idle (p.interp f) p
  | before (e : S.Op) (q : Prog T (S.Ret e)) (k : S.Ret e → Prog S α) :
      Stands f (.before e q) (q >>= fun r => (k r).interp f) (.call e k)
  | after (e : S.Op) (r : S.Ret e) (q : Prog T (S.Ret e)) (k : S.Ret e → Prog S α) :
      Stands f (.after e r q) (q >>= fun r => (k r).interp f) (k r)

/-- What can be observed of a history, with the thread it happened in. -/
def observed (obs : Ev S → Option O) (g : List (ι × Ev S)) : List (ι × O) :=
  g.filterMap fun x => (obs x.2).map (Prod.mk x.1)

@[simp] theorem observed_nil (obs : Ev S → Option O) :
    observed obs ([] : List (ι × Ev S)) = [] := rfl

theorem observed_concat (obs : Ev S → Option O) (g : List (ι × Ev S)) (i : ι) (ev : Ev S) :
    observed obs (g ++ [(i, ev)]) = observed obs g ++ ((obs ev).map (Prod.mk i)).toList := by
  rw [observed, List.filterMap_append]
  rcases hev : obs ev with _ | o <;> simp [observed, hev]

theorem mem_observed {obs : Ev S → Option O} {g : List (ι × Ev S)} {i : ι} {o : O} :
    (i, o) ∈ observed obs g ↔ ∃ ev, (i, ev) ∈ g ∧ obs ev = some o := by
  simp only [observed, List.mem_filterMap, Option.map_eq_some_iff, Prod.mk.injEq]
  constructor
  · rintro ⟨⟨j, ev⟩, hmem, o', ho, rfl, rfl⟩
    exact ⟨ev, hmem, ho⟩
  · rintro ⟨ev, hmem, ho⟩
    exact ⟨(i, ev), hmem, o, ho, rfl, rfl⟩

variable [DecidableEq ι]

/-- The programs `f` implement the atomic operations `act'` on the steps `act`: `I` holds
between the history, the two shared states and the stages of the threads, an operation
takes effect at one of its own steps, and then returns what it returned there. -/
structure Linearizes (f : (e : S.Op) → Prog T (S.Ret e)) (act : σ → Ev T → σ → Prop)
    (act' : τ → Ev S → τ → Prop) (obs : Ev T → Option O) (obs' : Ev S → Option O)
    (I : List (ι × Ev T) → σ → τ → (ι → Stage S T) → Prop) : Prop where
  ready : ∀ e, ∃ o k, f e = .call o k
  start : ∀ {g s t st i} (e : S.Op), I g s t st → st i = .idle →
    I g s t (Function.update st i (.before e (f e)))
  open_before : ∀ {g s t st i e r}, I g s t st → st i ≠ .before e (.ret r)
  finish : ∀ {g s t st i e r r'}, I g s t st → st i = .after e r (.ret r') →
    r' = r ∧ I g s t (Function.update st i .idle)
  before : ∀ {g s t st i e o k x s'}, I g s t st → st i = .before e (.call o k) →
    act s ⟨o, x⟩ s' →
      (obs ⟨o, x⟩ = none ∧
        I (g ++ [(i, ⟨o, x⟩)]) s' t (Function.update st i (.before e (k x)))) ∨
      ∃ r t', act' t ⟨e, r⟩ t' ∧ obs ⟨o, x⟩ = obs' ⟨e, r⟩ ∧
        I (g ++ [(i, ⟨o, x⟩)]) s' t' (Function.update st i (.after e r (k x)))
  after : ∀ {g s t st i e r o k x s'}, I g s t st → st i = .after e r (.call o k) →
    act s ⟨o, x⟩ s' → obs ⟨o, x⟩ = none ∧
      I (g ++ [(i, ⟨o, x⟩)]) s' t (Function.update st i (.after e r (k x)))

/-- A run of the implementation beside one of the atomic operations. -/
structure Beside (f : (e : S.Op) → Prog T (S.Ret e)) (obs : Ev T → Option O)
    (obs' : Ev S → Option O) (I : List (ι × Ev T) → σ → τ → (ι → Stage S T) → Prop)
    (c : Conf T σ ι α) (d : Conf S τ ι α) (st : ι → Stage S T) : Prop where
  stands : ∀ i, Stands f (st i) (c.prog i) (d.prog i)
  inv : I c.hist c.shared d.shared st
  observed : observed obs c.hist = observed obs' d.hist

section Refines

variable {f : (e : S.Op) → Prog T (S.Ret e)} {act : σ → Ev T → σ → Prop}
  {act' : τ → Ev S → τ → Prop} {obs : Ev T → Option O} {obs' : Ev S → Option O}
  {I : List (ι × Ev T) → σ → τ → (ι → Stage S T) → Prop} {c : Conf T σ ι α}
  {d : Conf S τ ι α} {st : ι → Stage S T}

/-- An operation that is over is closed, without a step. -/
theorem Beside.closed (L : Linearizes f act act' obs obs' I) (h : Beside f obs obs' I c d st)
    {i : ι} {e : S.Op} {r r' : S.Ret e} (hi : st i = .after e r (.ret r')) :
    Beside f obs obs' I c d (Function.update st i .idle) := by
  obtain ⟨rfl, hI⟩ := L.finish h.inv hi
  refine ⟨fun j => ?_, hI, h.observed⟩
  rcases eq_or_ne j i with rfl | hj
  · rw [Function.update_self]
    have hs := h.stands j
    rw [hi] at hs
    generalize c.prog j = cp at hs
    generalize d.prog j = ap at hs
    cases hs with
    | after e r q k => exact .idle _
  · rw [Function.update_of_ne hj]
    exact h.stands j

/-- A thread that is to issue its next step is in the middle of an operation, or
becomes so without a step. -/
theorem Beside.opened (L : Linearizes f act act' obs obs' I) (h : Beside f obs obs' I c d st)
    {i : ι} {o : T.Op} {k : T.Ret o → Prog T α} (hp : c.prog i = .call o k)
    (hi : st i = .idle) :
    ∃ e, Beside f obs obs' I c d (Function.update st i (.before e (f e))) := by
  have hs := h.stands i
  rw [hi] at hs
  generalize hcp : c.prog i = cp at hs
  generalize hap : d.prog i = ap at hs
  cases hs with
  | idle p =>
    rcases ap with a | ⟨e, k'⟩
    · rw [hcp] at hp
      cases hp
    · refine ⟨e, fun j => ?_, L.start e h.inv hi, h.observed⟩
      rcases eq_or_ne j i with rfl | hj
      · rw [Function.update_self, hcp, hap]
        exact .before e (f e) k'
      · rw [Function.update_of_ne hj]
        exact h.stands j

/-- Only the thread that moved stands elsewhere. -/
theorem Stands.advance (h : ∀ i, Stands f (st i) (c.prog i) (d.prog i)) {i : ι} {ev : Ev T}
    {s' : σ} {p : Prog T α} {x : Stage S T} {d' : Conf S τ ι α} (hx : Stands f x p (d'.prog i))
    (hd : ∀ j, j ≠ i → d'.prog j = d.prog j) (j : ι) :
    Stands f (Function.update st i x j) ((c.advance i ev s' p).prog j) (d'.prog j) := by
  rcases eq_or_ne j i with rfl | hj
  · rw [Function.update_self, Conf.advance_prog_self]
    exact hx
  · rw [Function.update_of_ne hj, Conf.advance_prog_ne c hj, hd j hj]
    exact h j

/-- A step inside an operation. -/
theorem Beside.within (L : Linearizes f act act' obs obs' I) (h : Beside f obs obs' I c d st)
    {i : ι} {o : T.Op} {k : T.Ret o → Prog T α} {x : T.Ret o} {s' : σ}
    (hp : c.prog i = .call o k) (ha : act c.shared ⟨o, x⟩ s') {e : S.Op}
    {q : Prog T (S.Ret e)} (hq : ∀ r, q ≠ .ret r)
    (hi : st i = .before e q ∨ ∃ r, st i = .after e r q) :
    ∃ d' st', Reach act' anySchedule d d' ∧
      Beside f obs obs' I (c.advance i ⟨o, x⟩ s' (k x)) d' st' := by
  rcases q with r | ⟨o', kq⟩
  · exact absurd rfl (hq r)
  have hs := h.stands i
  rw [hp] at hs
  rcases hi with hi | ⟨r, hi⟩
  · rw [hi] at hs
    generalize hap : d.prog i = ap at hs
    obtain ⟨k', rfl, hk'⟩ : ∃ k', ap = .call e k' ∧
        Prog.call o k = (.call o' kq >>= fun r => (k' r).interp f) := by
      generalize Prog.call o k = cp at hs ⊢
      cases hs with
      | before e q k' => exact ⟨k', rfl, rfl⟩
    cases hk'
    rcases L.before h.inv hi ha with ⟨hobs, hI⟩ | ⟨r, t', ha', hobs, hI⟩
    -- the operation has not taken effect yet
    · refine ⟨d, _, .init, Stands.advance h.stands ?_ (fun _ _ => rfl), hI, ?_⟩
      · rw [hap]
        exact .before e (kq x) k'
      · rw [Conf.advance_hist, observed_concat, hobs, h.observed]
        exact List.append_nil _
    -- it takes effect at this step
    · refine ⟨d.advance i ⟨e, r⟩ t' (k' r), _, Reach.init.step hap ha' trivial,
        Stands.advance h.stands ?_ (fun j hj => Conf.advance_prog_ne d hj _ _ _), hI, ?_⟩
      · rw [Conf.advance_prog_self]
        exact .after e r (kq x) k'
      · rw [Conf.advance_hist, Conf.advance_hist, observed_concat, observed_concat, hobs,
          h.observed]
  · rw [hi] at hs
    generalize hap : d.prog i = ap at hs
    obtain ⟨k', rfl, hk'⟩ : ∃ k' : S.Ret e → Prog S α, ap = k' r ∧
        Prog.call o k = (.call o' kq >>= fun r => (k' r).interp f) := by
      generalize Prog.call o k = cp at hs ⊢
      cases hs with
      | after e r q k' => exact ⟨k', rfl, rfl⟩
    cases hk'
    obtain ⟨hobs, hI⟩ := L.after h.inv hi ha
    refine ⟨d, _, .init, Stands.advance h.stands ?_ (fun _ _ => rfl), hI, ?_⟩
    · rw [hap]
      exact .after e r (kq x) k'
    · rw [Conf.advance_hist, observed_concat, hobs, h.observed]
      exact List.append_nil _

/-- A step of the implementation. -/
theorem Beside.step (L : Linearizes f act act' obs obs' I) (h : Beside f obs obs' I c d st)
    {i : ι} {o : T.Op} {k : T.Ret o → Prog T α} {x : T.Ret o} {s' : σ}
    (hp : c.prog i = .call o k) (ha : act c.shared ⟨o, x⟩ s') :
    ∃ d' st', Reach act' anySchedule d d' ∧
      Beside f obs obs' I (c.advance i ⟨o, x⟩ s' (k x)) d' st' := by
  -- an idle thread begins its next operation and makes the first step of it
  have hidle : ∀ {st : ι → Stage S T}, Beside f obs obs' I c d st → st i = .idle →
      ∃ d' st', Reach act' anySchedule d d' ∧
        Beside f obs obs' I (c.advance i ⟨o, x⟩ s' (k x)) d' st' := by
    intro st h hi
    obtain ⟨e, h'⟩ := h.opened L hp hi
    obtain ⟨o', k', he⟩ := L.ready e
    exact h'.within L hp ha (by rw [he]; simp) (Or.inl (Function.update_self i _ st))
  rcases hi : st i with _ | ⟨e, q⟩ | ⟨e, r, q⟩
  · exact hidle h hi
  · refine h.within L hp ha ?_ (Or.inl hi)
    rintro r rfl
    exact L.open_before h.inv hi
  · rcases q with r' | ⟨o', kq⟩
    · exact hidle (h.closed L hi) (Function.update_self i _ st)
    · exact h.within L hp ha (by simp) (Or.inr ⟨r, hi⟩)

/-- **Every run of the implementation is a run of the atomic operations**, with the same
observations in the same order. -/
theorem Linearizes.refines (L : Linearizes f act act' obs obs' I) {p : ι → Prog S α} {s₀ : σ}
    {t₀ : τ} (h₀ : I [] s₀ t₀ fun _ => .idle)
    (hc : Reach act anySchedule ⟨s₀, fun i => (p i).interp f, []⟩ c) :
    ∃ d st, Reach act' anySchedule ⟨t₀, p, []⟩ d ∧ Beside f obs obs' I c d st := by
  refine Reach.inv (fun c => ∃ d st, Reach act' anySchedule ⟨t₀, p, []⟩ d ∧
    Beside f obs obs' I c d st) ?_ ?_ hc
  · exact ⟨_, _, .init, fun i => .idle (p i), h₀, rfl⟩
  · rintro c i e k r s' - ⟨d, st, hd, h⟩ hp ha -
    obtain ⟨d', st', hd', h'⟩ := h.step L hp ha
    exact ⟨d', st', hd.trans hd', h'⟩

/-- A thread that has returned has returned the same beside. -/
theorem Linearizes.ret (L : Linearizes f act act' obs obs' I) (h : Beside f obs obs' I c d st)
    {i : ι} {a : α} (hp : c.prog i = .ret a) : d.prog i = .ret a := by
  -- a program whose implementation takes no step takes none
  have hret : ∀ {p : Prog S α}, p.interp f = .ret a → p = .ret a := by
    rintro (b | ⟨e, k⟩) hq
    · cases hq
      rfl
    · obtain ⟨o, k', he⟩ := L.ready e
      rw [interp_call, he] at hq
      cases hq
  have hs := h.stands i
  rw [hp] at hs
  generalize hcp : Prog.ret a = cp at hs
  generalize hst : st i = x at hs
  generalize d.prog i = ap at hs ⊢
  cases hs with
  | idle p => exact hret hcp.symm
  | before e q k =>
    rcases q with r | ⟨o, kq⟩
    · exact absurd hst (L.open_before h.inv)
    · cases hcp
  | after e r q k =>
    rcases q with r' | ⟨o, kq⟩
    · obtain ⟨rfl, -⟩ := L.finish h.inv hst
      exact hret hcp.symm
    · cases hcp

end Refines

end Effects
