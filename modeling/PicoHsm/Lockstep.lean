/-
Two programs in lockstep (effectful code, part 6).

`Lockstep ops ans post p q`: answered each in its own way, `p` and `q` issue operations
related by `ops`, one for one, as long as the answers are related by `ans`, and return
results related by `post`.  What answers them is left open, so this compares every run of
the one with every run of the other.

* `Lockstep.bind`, `Lockstep.andThen` — sequencing;
* `Lockstep.interp` — related operations, refined by programs in lockstep;
* `Reach.lockstep` — two pools whose threads are in lockstep, under one schedule: their
  operations are related at every moment, whatever the shared states, as long as what the
  threads are told is;
* `lockstep_exec` — two handlers that answer alike.
-/
import PicoHsm.Pool

namespace Effects

namespace Prog

variable {S T : Sig} {α β γ δ ε : Type}

inductive Lockstep (ops : S.Op → S.Op → Prop) (ans : Ev S → Ev S → Prop) (post : α → β → Prop) :
    Prog S α → Prog S β → Prop where
  | ret {a : α} {b : β} : post a b → Lockstep ops ans post (.ret a) (.ret b)
  | call {e e' : S.Op} {k : S.Ret e → Prog S α} {k' : S.Ret e' → Prog S β} : ops e e' →
      (∀ r r', ans ⟨e, r⟩ ⟨e', r'⟩ → Lockstep ops ans post (k r) (k' r')) →
      Lockstep ops ans post (.call e k) (.call e' k')

/-- Of code that can fail: the same error, or related values. -/
inductive Concur (R : α → β → Prop) : Except ε α → Except ε β → Prop where
  | error (e : ε) : Concur R (.error e) (.error e)
  | ok {a : α} {b : β} : R a b → Concur R (.ok a) (.ok b)

theorem concur_of_map {f : α → γ} {f' : β → γ} {r : Except ε α} {r' : Except ε β}
    (h : r.map f = r'.map f') : Concur (fun a b => f a = f' b) r r' := by
  rcases r with e | a
  · rcases r' with e' | b
    · cases h
      exact .error e
    · cases h
  · rcases r' with e' | b
    · cases h
    · exact .ok (Except.ok.inj h)

theorem Concur.mono {R R' : α → β → Prop} {r : Except ε α} {r' : Except ε β} (h : Concur R r r')
    (hR : ∀ a b, R a b → R' a b) : Concur R' r r' := by
  cases h with
  | error e => exact .error e
  | ok hab => exact .ok (hR _ _ hab)

section Rules

variable {ops : S.Op → S.Op → Prop} {ans : Ev S → Ev S → Prop}

theorem Lockstep.mono {post post' : α → β → Prop} {p : Prog S α} {q : Prog S β}
    (h : Lockstep ops ans post p q) (hpost : ∀ a b, post a b → post' a b) :
    Lockstep ops ans post' p q := by
  induction h with
  | ret h => exact .ret (hpost _ _ h)
  | call he _ ih => exact .call he ih

theorem Lockstep.bind {mid : α → β → Prop} {post : γ → δ → Prop} {p : Prog S α} {q : Prog S β}
    {f : α → Prog S γ} {f' : β → Prog S δ} (h : Lockstep ops ans mid p q)
    (hf : ∀ a b, mid a b → Lockstep ops ans post (f a) (f' b)) :
    Lockstep ops ans post (p >>= f) (q >>= f') := by
  induction h with
  | ret h => exact hf _ _ h
  | call he _ ih => exact .call he ih

theorem Lockstep.andThen {R : α → β → Prop} {R' : γ → δ → Prop} {p : Prog S (Except ε α)}
    {q : Prog S (Except ε β)} {f : α → Prog S (Except ε γ)} {f' : β → Prog S (Except ε δ)}
    (h : Lockstep ops ans (Concur R) p q)
    (hf : ∀ a b, R a b → Lockstep ops ans (Concur R') (f a) (f' b)) :
    Lockstep ops ans (Concur R') (p.andThen f) (q.andThen f') := by
  refine h.bind fun r r' hr => ?_
  cases hr with
  | error e => exact .ret (.error e)
  | ok h => exact hf _ _ h

/-- The same operation on both sides, and an answer that both get. -/
theorem Lockstep.same {post : α → β → Prop} {e : S.Op} {k : S.Ret e → Prog S α}
    {k' : S.Ret e → Prog S β} (he : ops e e) (hans : ∀ r r', ans ⟨e, r⟩ ⟨e, r'⟩ → r = r')
    (hk : ∀ r, Lockstep ops ans post (k r) (k' r)) :
    Lockstep ops ans post (.call e k) (.call e k') := by
  refine .call he fun r r' h => ?_
  obtain rfl := hans r r' h
  exact hk r

/-- A program that gets the same answers does the same. -/
theorem lockstep_self (hops : ∀ e, ops e e) (hans : ∀ e r r', ans ⟨e, r⟩ ⟨e, r'⟩ → r = r')
    (p : Prog S α) : Lockstep ops ans Eq p p := by
  induction p with
  | ret a => exact .ret rfl
  | call e k ih => exact .same (hops e) (hans e) ih

/-- **Refinement.**  Related operations are refined by programs in lockstep. -/
theorem Lockstep.interp {ops' : T.Op → T.Op → Prop} {ans' : Ev T → Ev T → Prop}
    {post : α → β → Prop} {f f' : (e : S.Op) → Prog T (S.Ret e)} {p : Prog S α} {q : Prog S β}
    (h : Lockstep ops ans post p q)
    (hf : ∀ e e', ops e e' →
      Lockstep ops' ans' (fun r r' => ans ⟨e, r⟩ ⟨e', r'⟩) (f e) (f' e')) :
    Lockstep ops' ans' post (p.interp f) (q.interp f') := by
  induction h with
  | ret h => exact .ret h
  | call he _ ih => exact (hf _ _ he).bind ih

end Rules

end Prog

open Prog

/-! ### Two pools under one schedule -/

section Pools

variable {S : Sig} {α β σ τ ι : Type} [DecidableEq ι] {ops : S.Op → S.Op → Prop}
  {ans given : Ev S → Ev S → Prop} {post : α → β → Prop} {Q : σ → τ → Prop}

/-- The histories move the same threads, and what happens is related by `R`. -/
def Paired (R : Ev S → Ev S → Prop) (g g' : List (ι × Ev S)) : Prop :=
  List.Forall₂ (fun x y => x.1 = y.1 ∧ R x.2 y.2) g g'

omit [DecidableEq ι] in
theorem paired_concat {R : Ev S → Ev S → Prop} {g g' : List (ι × Ev S)} {x y : ι × Ev S} :
    Paired R (g ++ [x]) (g' ++ [y]) ↔ Paired R g g' ∧ x.1 = y.1 ∧ R x.2 y.2 := by
  rw [Paired, ← List.forall₂_reverse_iff, List.reverse_concat, List.reverse_concat,
    List.forall₂_cons, List.forall₂_reverse_iff]
  exact and_comm

/-- What is kept as both pools move: the shared states and the threads are related. -/
structure Abreast (ops : S.Op → S.Op → Prop) (ans : Ev S → Ev S → Prop) (post : α → β → Prop)
    (Q : σ → τ → Prop) (c : Conf S σ ι α) (d : Conf S τ ι β) : Prop where
  hist : Paired (fun ev ev' => ops ev.op ev'.op) c.hist d.hist
  shared : Q c.shared d.shared
  prog : ∀ i, Lockstep ops ans post (c.prog i) (d.prog i)

/-- One thread has moved on both sides. -/
theorem Abreast.advance {c : Conf S σ ι α} {d : Conf S τ ι β} (h : Abreast ops ans post Q c d)
    {i : ι} {ev ev' : Ev S} {s : σ} {t : τ} {p : Prog S α} {q : Prog S β}
    (hops : ops ev.op ev'.op) (hQ : Q s t) (hp : Lockstep ops ans post p q) :
    Abreast ops ans post Q (c.advance i ev s p) (d.advance i ev' t q) := by
  refine ⟨paired_concat.mpr ⟨h.hist, rfl, hops⟩, hQ, fun j => ?_⟩
  rcases eq_or_ne j i with rfl | hj
  · rw [Conf.advance_prog_self, Conf.advance_prog_self]
    exact hp
  · rw [Conf.advance_prog_ne c hj, Conf.advance_prog_ne d hj]
    exact h.prog j

variable {act : σ → Ev S → σ → Prop} {act' : τ → Ev S → τ → Prop}
  {allow : Conf S σ ι α → ι → Ev S → Prop} {allow' : Conf S τ ι β → ι → Ev S → Prop}
  {c₀ c : Conf S σ ι α} {d₀ d : Conf S τ ι β}

/-- **Two pools under one schedule.**  If related operations with answers that are `given` to
be alike are answered so that the threads stay in lockstep and the shared states related, then
so they are at every moment at which the two runs have done equally much. -/
theorem Reach.lockstep
    (hact : ∀ s t ev ev' s' t', Q s t → ops ev.op ev'.op → act s ev s' → act' t ev' t' →
      given ev ev' → ans ev ev' ∧ Q s' t')
    (h₀ : Abreast ops ans post Q c₀ d₀) (hc₀ : c₀.hist = []) (hd₀ : d₀.hist = [])
    (hc : Reach act allow c₀ c) (hd : Reach act' allow' d₀ d)
    (hgiven : Paired given c.hist d.hist) : Abreast ops ans post Q c d := by
  induction hc generalizing d with
  | init =>
    cases hd with
    | init => exact h₀
    | step =>
      rw [hc₀, Conf.advance_hist] at hgiven
      exact absurd (List.forall₂_nil_left_iff.mp hgiven) (by simp)
  | @step c i e k r s' _ hp ha _ ih =>
    cases hd with
    | init =>
      rw [hd₀, Conf.advance_hist] at hgiven
      exact absurd (List.forall₂_nil_right_iff.mp hgiven) (by simp)
    | @step d j e' k' r' t' hd hq ha' _ =>
      obtain ⟨hpast, hij, hlast⟩ := paired_concat.mp hgiven
      obtain rfl : i = j := hij
      have hih := ih hd hpast
      -- both sides move the thread, which is in lockstep so far
      have hprog := hih.prog i
      rw [hp, hq] at hprog
      cases hprog with
      | call he hk =>
        obtain ⟨hans, hQ⟩ := hact _ _ _ _ _ _ hih.shared he ha ha' hlast
        exact hih.advance he hQ (hk _ _ hans)

/-- Two handlers that answer alike, on any schedule. -/
theorem lockstep_exec {hd : σ → (e : S.Op) → S.Ret e × σ} {hd' : τ → (e : S.Op) → S.Ret e × τ}
    (hhd : ∀ s t e e', Q s t → ops e e' → given ⟨e, (hd s e).1⟩ ⟨e', (hd' t e').1⟩ ∧
      ans ⟨e, (hd s e).1⟩ ⟨e', (hd' t e').1⟩ ∧ Q (hd s e).2 (hd' t e').2)
    (h : Abreast ops ans post Q c d) (hg : Paired given c.hist d.hist) (sched : List ι) :
    Paired given (c.exec hd sched).hist (d.exec hd' sched).hist := by
  induction sched generalizing c d with
  | nil => exact hg
  | cons i sched ih =>
    rw [Conf.exec, Conf.exec, List.foldl_cons, List.foldl_cons]
    have hprog := h.prog i
    rcases hp : c.prog i with a | ⟨e, k⟩
    · rw [hp] at hprog
      rcases hq : d.prog i with b | ⟨e', k'⟩
      · have hc : c.turn hd i = c := by rw [Conf.turn, hp]
        have hd : d.turn hd' i = d := by rw [Conf.turn, hq]
        rw [hc, hd]
        exact ih h hg
      · rw [hq] at hprog
        cases hprog
    · rw [hp] at hprog
      rcases hq : d.prog i with b | ⟨e', k'⟩
      · rw [hq] at hprog
        cases hprog
      · rw [hq] at hprog
        cases hprog with
        | call he hk =>
          obtain ⟨hgiven, hans, hQ⟩ := hhd _ _ _ _ h.shared he
          have hc : c.turn hd i = c.advance i ⟨e, (hd c.shared e).1⟩ (hd c.shared e).2
              (k (hd c.shared e).1) := by rw [Conf.turn, hp]
          have hd : d.turn hd' i = d.advance i ⟨e', (hd' d.shared e').1⟩ (hd' d.shared e').2
              (k' (hd' d.shared e').1) := by rw [Conf.turn, hq]
          rw [hc, hd]
          exact ih (h.advance he hQ (hk _ _ hans)) (paired_concat.mpr ⟨hg, rfl, hgiven⟩)

end Pools

end Effects
