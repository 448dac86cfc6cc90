/-
Interleaved runs of programs over a shared state (effectful code, part 2).

A configuration holds the shared state, what is left of each thread's program
and, as a ghost, the global history: every operation issued so far with its
answer, tagged by the thread that issued it.  One step performs one operation of
one thread; which answers the shared state allows, and how they change it, is the
relation `act`.  The threads are indexed by an arbitrary type, and a thread may
start at any time, so a statement about every reachable configuration is one
about any number of threads under every schedule (running them one after another
is a schedule too).

* `Reach.inv` — the invariant rule;
* `Reach.own_steps` — a thread's part of the history is a run of its program, so
  what `Safe` says about each program carries over to the pool (`Reach.guar`);
* `countP_eq_sum` — counting in the history is counting thread by thread;
* `Reach.interleave` — runs of the threads, interleaved in any order;
* `Conf.exec` — the run of a given schedule against a handler.
-/
import Mathlib.Algebra.BigOperators.Group.Finset.Basic
import Mathlib.Data.Finset.Basic
import Mathlib.Logic.Function.Basic
import PicoHsm.Prog

namespace Effects

open Prog

variable {S : Sig} {α σ ι : Type} [DecidableEq ι]

/-! ### Tagged histories -/

/-- The part of a history that belongs to thread `i`. -/
def proj (i : ι) (g : List (ι × Ev S)) : List (Ev S) :=
  g.filterMap fun x => if x.1 = i then some x.2 else none

@[simp] theorem proj_nil (i : ι) : proj i ([] : List (ι × Ev S)) = [] := rfl

@[simp] theorem proj_append (i : ι) (g g' : List (ι × Ev S)) :
    proj i (g ++ g') = proj i g ++ proj i g' := List.filterMap_append

@[simp] theorem proj_cons_self (i : ι) (ev : Ev S) (g : List (ι × Ev S)) :
    proj i ((i, ev) :: g) = ev :: proj i g := by simp [proj]

theorem proj_cons_ne {i j : ι} (h : j ≠ i) (ev : Ev S) (g : List (ι × Ev S)) :
    proj i ((j, ev) :: g) = proj i g := by simp [proj, h]

theorem mem_proj {i : ι} {g : List (ι × Ev S)} {ev : Ev S} :
    ev ∈ proj i g ↔ (i, ev) ∈ g := by
  simp only [proj, List.mem_filterMap, Option.ite_none_right_eq_some, Option.some.injEq]
  constructor
  · rintro ⟨⟨j, ev'⟩, hx, rfl, rfl⟩
    exact hx
  · intro h
    exact ⟨(i, ev), h, rfl, rfl⟩

/-- The threads that occur in a history. -/
def ids (g : List (ι × Ev S)) : Finset ι := (g.map Prod.fst).toFinset

/-- Counting the events of a history is counting them thread by thread. -/
theorem countP_eq_sum (q : Ev S → Bool) (g : List (ι × Ev S)) :
    g.countP (fun x => q x.2) = ∑ i ∈ ids g, (proj i g).countP q := by
  suffices H : ∀ s : Finset ι, ids g ⊆ s →
      g.countP (fun x => q x.2) = ∑ i ∈ s, (proj i g).countP q from H _ (Finset.Subset.refl _)
  induction g with
  | nil =>
    intro s _
    simp
  | cons x g ih =>
    intro s hs
    obtain ⟨j, ev⟩ := x
    have hj : j ∈ s := hs (by simp [ids])
    have hg : ids g ⊆ s := fun i hi => hs (by
      simp only [ids, List.map_cons, List.toFinset_cons, Finset.mem_insert] at hi ⊢
      exact Or.inr hi)
    -- only thread `j` counts the new event
    have hi : ∀ i ∈ s.erase j, (proj i ((j, ev) :: g)).countP q = (proj i g).countP q := by
      intro i hi
      rw [proj_cons_ne (Finset.ne_of_mem_erase hi).symm]
    rw [List.countP_cons, ih s hg, ← Finset.add_sum_erase s _ hj, ← Finset.add_sum_erase s _ hj,
      Finset.sum_congr rfl hi, proj_cons_self, List.countP_cons]
    dsimp only
    omega

/-! ### Configurations and steps -/

/-- A pool of programs over the shared state `σ`; `hist` is a ghost. -/
structure Conf (S : Sig) (σ ι α : Type) where
  shared : σ
  prog : ι → Prog S α
  hist : List (ι × Ev S)

namespace Conf

/-- What thread `i` has done so far. -/
def own (c : Conf S σ ι α) (i : ι) : List (Ev S) := proj i c.hist

/-- Thread `i` has returned. -/
def Done (c : Conf S σ ι α) (i : ι) : Prop := ∃ a, c.prog i = .ret a

/-- Thread `i` has issued an operation and has not returned yet. -/
def InFlight (c : Conf S σ ι α) (i : ι) : Prop := c.own i ≠ [] ∧ ¬ c.Done i

/-- The configuration after thread `i` issued `ev` and goes on with `p`. -/
def advance (c : Conf S σ ι α) (i : ι) (ev : Ev S) (s : σ) (p : Prog S α) : Conf S σ ι α :=
  ⟨s, Function.update c.prog i p, c.hist ++ [(i, ev)]⟩

@[simp] theorem advance_shared (c : Conf S σ ι α) (i : ι) (ev : Ev S) (s : σ) (p : Prog S α) :
    (c.advance i ev s p).shared = s := rfl

@[simp] theorem advance_hist (c : Conf S σ ι α) (i : ι) (ev : Ev S) (s : σ) (p : Prog S α) :
    (c.advance i ev s p).hist = c.hist ++ [(i, ev)] := rfl

@[simp] theorem advance_prog_self (c : Conf S σ ι α) (i : ι) (ev : Ev S) (s : σ)
    (p : Prog S α) : (c.advance i ev s p).prog i = p := by simp [advance]

theorem advance_prog_ne (c : Conf S σ ι α) {i j : ι} (h : j ≠ i) (ev : Ev S) (s : σ)
    (p : Prog S α) : (c.advance i ev s p).prog j = c.prog j := by simp [advance, h]

@[simp] theorem advance_own_self (c : Conf S σ ι α) (i : ι) (ev : Ev S) (s : σ)
    (p : Prog S α) : (c.advance i ev s p).own i = c.own i ++ [ev] := by simp [own]

theorem advance_own_ne (c : Conf S σ ι α) {i j : ι} (h : j ≠ i) (ev : Ev S) (s : σ)
    (p : Prog S α) : (c.advance i ev s p).own j = c.own j := by
  simp [own, proj_cons_ne h.symm]

/-- What one thread has done on its own. -/
theorem own_of_hist {c c' : Conf S σ ι α} {i : ι} {t : List (Ev S)}
    (h : c'.hist = c.hist ++ t.map (Prod.mk i)) : c'.own i = c.own i ++ t := by
  have hproj : ∀ t : List (Ev S), proj i (t.map (Prod.mk i)) = t := by
    intro t
    induction t with
    | nil => rfl
    | cons ev t ih => rw [List.map_cons, proj_cons_self, ih]
  rw [own, h, proj_append, own, hproj]

/-- What is read off each thread's events changes for the thread that moved. -/
theorem map_own_advance {β : Type} (f : List (Ev S) → β) (c : Conf S σ ι α) (i : ι) (ev : Ev S)
    (s : σ) (p : Prog S α) : (fun j => f ((c.advance i ev s p).own j)) =
      Function.update (fun j => f (c.own j)) i (f (c.own i ++ [ev])) := by
  funext j
  rcases eq_or_ne j i with rfl | hj
  · rw [Function.update_self, advance_own_self]
  · rw [Function.update_of_ne hj, advance_own_ne c hj]

end Conf

/-- The configurations reachable from `c₀`.  `act s ev s'` says that the shared
state `s` can answer `ev.op` by `ev.ret` and is then `s'`; `allow c i ev` restricts
the schedules considered. -/
inductive Reach (act : σ → Ev S → σ → Prop) (allow : Conf S σ ι α → ι → Ev S → Prop)
    (c₀ : Conf S σ ι α) : Conf S σ ι α → Prop where
  | init : Reach act allow c₀ c₀
  | step {c : Conf S σ ι α} {i : ι} {e : S.Op} {k : S.Ret e → Prog S α} {r : S.Ret e} {s' : σ} :
      Reach act allow c₀ c → c.prog i = .call e k → act c.shared ⟨e, r⟩ s' →
      allow c i ⟨e, r⟩ → Reach act allow c₀ (c.advance i ⟨e, r⟩ s' (k r))

/-- No restriction on the schedule. -/
def anySchedule : Conf S σ ι α → ι → Ev S → Prop := fun _ _ _ => True

/-- Nothing is known of what the threads share: every operation may be answered in any way. -/
def anyAnswer (_ : Unit) (_ : Ev S) (_ : Unit) : Prop := True

variable {act : σ → Ev S → σ → Prop} {allow : Conf S σ ι α → ι → Ev S → Prop}
  {c₀ c : Conf S σ ι α}

/-- The invariant rule: what holds at the start and is kept by every allowed step
of every thread holds in every reachable configuration. -/
theorem Reach.inv (I : Conf S σ ι α → Prop) (h₀ : I c₀)
    (hstep : ∀ (c : Conf S σ ι α) (i : ι) (e : S.Op) (k : S.Ret e → Prog S α) (r : S.Ret e)
      (s' : σ), Reach act allow c₀ c → I c → c.prog i = .call e k → act c.shared ⟨e, r⟩ s' →
      allow c i ⟨e, r⟩ → I (c.advance i ⟨e, r⟩ s' (k r)))
    (h : Reach act allow c₀ c) : I c := by
  induction h with
  | init => exact h₀
  | step h hp ha hal ih => exact hstep _ _ _ _ _ _ h ih hp ha hal

/-- A thread's own events are a run of its program. -/
theorem Reach.own_steps (h : Reach act allow c₀ c) (hh : c₀.hist = []) (i : ι) :
    Steps (c₀.prog i) (c.own i) (c.prog i) := by
  induction h with
  | init =>
    rw [Conf.own, hh]
    exact .refl _
  | @step c j e k r s' _ hp _ _ ih =>
    -- only the thread that moved has done more
    by_cases hij : i = j
    · subst hij
      rw [Conf.advance_own_self, Conf.advance_prog_self]
      rw [hp] at ih
      exact ih.snoc r
    · rw [Conf.advance_own_ne c hij, Conf.advance_prog_ne c hij]
      exact ih

/-- Every event of the history was allowed when it happened, by a configuration whose
history is what came before. -/
theorem Reach.allowed (h : Reach act allow c₀ c) (hh : c₀.hist = []) {g₁ g₂ : List (ι × Ev S)}
    {i : ι} {ev : Ev S} (heq : c.hist = g₁ ++ (i, ev) :: g₂) :
    ∃ c', Reach act allow c₀ c' ∧ c'.hist = g₁ ∧ allow c' i ev := by
  induction h generalizing g₂ with
  | init =>
    rw [hh] at heq
    exact absurd heq (by simp)
  | @step c j e k r s' h hp ha hal ih =>
    rw [Conf.advance_hist] at heq
    -- the event is the last one, or one of those before
    rcases List.eq_nil_or_concat' g₂ with rfl | ⟨g₂', x, rfl⟩
    · obtain ⟨rfl, hx⟩ := List.append_inj' heq rfl
      cases hx
      exact ⟨c, h, rfl, hal⟩
    · rw [← List.cons_append, ← List.append_assoc] at heq
      exact ih (List.append_inj' heq rfl).1

/-- What `Safe` says of a thread's program, read off the global history. -/
theorem Reach.guar {guar : List (Ev S) → S.Op → Prop} {post : List (Ev S) → α → Prop}
    (h : Reach act allow c₀ c) (hh : c₀.hist = []) {i : ι}
    (hs : Safe (fun _ _ => True) guar post [] (c₀.prog i))
    {g₁ g₂ : List (ι × Ev S)} {ev : Ev S} (heq : c.hist = g₁ ++ (i, ev) :: g₂) :
    guar (proj i g₁) ev.op := by
  have hown : c.own i = proj i g₁ ++ ev :: proj i g₂ := by
    rw [Conf.own, heq, proj_append, proj_cons_self]
  have := hs.guar_of_steps (h.own_steps hh i) (fun _ _ _ _ => trivial) hown
  simpa using this

/-- What `Safe` says of a thread's program, about the operation it is to issue next. -/
theorem Reach.guar_next {guar : List (Ev S) → S.Op → Prop} {post : List (Ev S) → α → Prop}
    (h : Reach act allow c₀ c) (hh : c₀.hist = []) {i : ι}
    (hs : Safe (fun _ _ => True) guar post [] (c₀.prog i)) {e : S.Op} {k : S.Ret e → Prog S α}
    (hp : c.prog i = .call e k) : guar (c.own i) e := by
  have hnow := hs.steps (h.own_steps hh i) (fun _ _ _ _ => trivial)
  rw [List.nil_append, hp] at hnow
  exact hnow.1

theorem Reach.trans {c' : Conf S σ ι α} (h : Reach act allow c₀ c) (h' : Reach act allow c c') :
    Reach act allow c₀ c' := by
  induction h' with
  | init => exact h
  | step _ hp ha hal ih => exact ih.step hp ha hal

theorem Reach.mono {allow' : Conf S σ ι α → ι → Ev S → Prop} (h : Reach act allow c₀ c)
    (hal : ∀ c i ev, allow c i ev → allow' c i ev) : Reach act allow' c₀ c := by
  induction h with
  | init => exact .init
  | step _ hp ha hal' ih => exact ih.step hp ha (hal _ _ _ hal')

/-- If every operation can be answered, and a thread is allowed every step while `P` holds,
which its own steps keep, then it can be run to its end. -/
theorem Reach.finish (P : Conf S σ ι α → Prop) (i : ι) (hact : ∀ s e, ∃ r s', act s ⟨e, r⟩ s')
    (hal : ∀ c, P c → ∀ ev, allow c i ev)
    (hP : ∀ c ev s p, P c → P (c.advance i ev s p)) (h : P c) :
    ∃ c' a, Reach act allow c c' ∧ P c' ∧ c'.prog i = .ret a := by
  generalize hp : c.prog i = p
  induction p generalizing c with
  | ret a => exact ⟨c, a, .init, h, hp⟩
  | call e k ih =>
    obtain ⟨r, s', ha⟩ := hact c.shared e
    obtain ⟨c', a, hc', h', hret⟩ := ih r (hP c ⟨e, r⟩ s' (k r) h)
      (Conf.advance_prog_self _ _ _ _ _)
    exact ⟨c', a, (Reach.init.step hp ha (hal c h _)).trans hc', h', hret⟩

/-- One thread runs on, with nothing in between. -/
theorem Reach.thread (h : Reach act allow c₀ c) {i : ι} {t : List (Ev S)} {p : Prog S α}
    (hact : ∀ s, ∀ ev ∈ t, ∃ s', act s ev s') (ht : Steps (c.prog i) t p)
    (hal : ∀ t₁ ev t₂, t = t₁ ++ ev :: t₂ → ∀ c' : Conf S σ ι α,
      c'.hist = c.hist ++ t₁.map (Prod.mk i) → allow c' i ev) :
    ∃ c', Reach act allow c₀ c' ∧ c'.hist = c.hist ++ t.map (Prod.mk i) ∧
      (∀ j, j ≠ i → c'.prog j = c.prog j) ∧ c'.prog i = p := by
  generalize hq : c.prog i = q at ht
  induction ht generalizing c with
  | refl => exact ⟨c, h, by simp, fun _ _ => rfl, hq⟩
  | @call e k r t p _ ih =>
    obtain ⟨s', hs'⟩ := hact c.shared ⟨e, r⟩ List.mem_cons_self
    have hal₀ : allow c i ⟨e, r⟩ := hal [] _ t rfl c (by simp)
    obtain ⟨c', hc', hhist, hne, hp⟩ := ih (h.step hq hs' hal₀)
      (fun s ev hev => hact s ev (List.mem_cons_of_mem _ hev)) (by
      intro t₁ ev t₂ heq c' hc'
      refine hal (⟨e, r⟩ :: t₁) ev t₂ (by rw [heq, List.cons_append]) c' ?_
      rw [hc', Conf.advance_hist, List.append_assoc]
      rfl) (Conf.advance_prog_self _ _ _ _ _)
    refine ⟨c', hc', ?_, fun j hj => (hne j hj).trans (Conf.advance_prog_ne c hj _ _ _), hp⟩
    rw [hhist, Conf.advance_hist, List.append_assoc]
    rfl

/-- Runs of the threads can be interleaved in any order. -/
theorem Reach.interleave (hh : c₀.hist = []) (hact : ∀ s ev, ∃ s', act s ev s')
    {g : List (ι × Ev S)} (hg : ∀ i, ∃ p, Steps (c₀.prog i) (proj i g) p) :
    ∃ c, Reach act anySchedule c₀ c ∧ c.hist = g := by
  induction g using List.reverseRecOn with
  | nil => exact ⟨c₀, .init, hh⟩
  | append_singleton g x ih =>
    obtain ⟨i, ev⟩ := x
    have hi : proj i (g ++ [(i, ev)]) = proj i g ++ [ev] := by
      rw [proj_append, proj_cons_self, proj_nil]
    obtain ⟨p, hp⟩ := hg i
    rw [hi] at hp
    obtain ⟨k, hk, -⟩ := hp.of_concat
    obtain ⟨c, hc, hhist⟩ := ih fun j => by
      rcases eq_or_ne j i with rfl | hj
      · exact ⟨_, hk⟩
      · obtain ⟨q, hq⟩ := hg j
        rw [proj_append, proj_cons_ne hj.symm, proj_nil, List.append_nil] at hq
        exact ⟨q, hq⟩
    -- what thread `i` has done so far leaves it where it issues this operation
    have hown : Steps (c₀.prog i) (proj i g) (c.prog i) := by
      rw [← hhist]
      exact hc.own_steps hh i
    obtain ⟨s', hs'⟩ := hact c.shared ev
    refine ⟨_, hc.step (hown.unique hk) hs' trivial, ?_⟩
    rw [Conf.advance_hist, hhist]

/-! ### Executing a schedule -/

/-- Thread `i` performs its next operation, answered by `hd`. -/
def Conf.turn (hd : σ → (e : S.Op) → S.Ret e × σ) (c : Conf S σ ι α) (i : ι) : Conf S σ ι α :=
  match c.prog i with
  | .ret _ => c
  | .call e k => c.advance i ⟨e, (hd c.shared e).1⟩ (hd c.shared e).2 (k (hd c.shared e).1)

def Conf.exec (hd : σ → (e : S.Op) → S.Ret e × σ) (c : Conf S σ ι α) (sched : List ι) :
    Conf S σ ι α :=
  sched.foldl (Conf.turn hd) c

section Exec

variable {hd : σ → (e : S.Op) → S.Ret e × σ}

theorem Reach.turn (hhd : ∀ s e, act s ⟨e, (hd s e).1⟩ (hd s e).2) (h : Reach act allow c₀ c)
    {i : ι} (hal : ∀ e k, c.prog i = .call e k → allow c i ⟨e, (hd c.shared e).1⟩) :
    Reach act allow c₀ (c.turn hd i) := by
  rw [Conf.turn]
  rcases hp : c.prog i with a | ⟨e, k⟩
  · exact h
  · exact h.step hp (hhd c.shared e) (hal e k hp)

/-- Every schedule gives a reachable configuration. -/
theorem Reach.exec (hhd : ∀ s e, act s ⟨e, (hd s e).1⟩ (hd s e).2)
    (h : Reach act anySchedule c₀ c) (sched : List ι) :
    Reach act anySchedule c₀ (c.exec hd sched) := by
  induction sched generalizing c with
  | nil => exact h
  | cons i sched ih => exact ih (h.turn hhd fun _ _ _ => trivial)

end Exec

end Effects
