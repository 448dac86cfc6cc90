/-
Programs over an operation signature (effectful code, part 1).

A `Prog S α` is code that issues operations of the signature `S`, reads their
answers and finally returns an `α`.  The answers are not fixed: they come from
whatever the code runs against (a disk, a token, another party), so a statement
about a program is a statement about every way of answering it.

* `Steps p t p'` — `p`, answered as the event list `t` says, has become `p'`;
* `Safe rely guar post h p` — whatever the answers (within `rely`), every
  operation issued meets `guar` and every result meets `post`; both may look at
  the history;
* `Safe.guar_of_steps`, `Safe.post_of_steps` — what `Safe` gives on a run;
* `run` — execution against a handler, for programs that are to be evaluated;
* `Safe.run_inv` — what `Safe` gives there, with an invariant of the handler's state.

Design notes: `Safe` is a recursion on the program, so that a proof about code
follows the code; the history is a plain list of events, oldest first, and the
sequencing rule is an equation (`safe_bind`).
-/
import Mathlib.Data.List.Forall2
import Mathlib.Data.List.Infix

namespace Effects

/-- An operation signature: the operations, and the type of each one's answer. -/
structure Sig where
  Op : Type
  Ret : Op → Type

/-- Code over the signature `S` with result type `α`. -/
inductive Prog (S : Sig) (α : Type) : Type where
  | ret (a : α) : Prog S α
  | call (e : S.Op) (k : S.Ret e → Prog S α) : Prog S α

/-- One operation together with the answer it got. -/
structure Ev (S : Sig) where
  op : S.Op
  ret : S.Ret op

namespace Prog

variable {S T : Sig} {α β σ : Type}

/-- Sequencing. -/
def bind : Prog S α → (α → Prog S β) → Prog S β
  | .ret a, f => f a
  | .call e k, f => .call e fun r => (k r).bind f

instance : Monad (Prog S) where
  pure := .ret
  bind := Prog.bind

@[simp] theorem ret_bind (a : α) (f : α → Prog S β) : (Prog.ret a >>= f) = f a := rfl

@[simp] theorem call_bind (e : S.Op) (k : S.Ret e → Prog S α) (f : α → Prog S β) :
    (Prog.call e k >>= f) = .call e fun r => k r >>= f := rfl

theorem bind_bind {γ : Type} (p : Prog S α) (f : α → Prog S β) (h : β → Prog S γ) :
    (p >>= f) >>= h = p >>= fun a => f a >>= h := by
  induction p with
  | ret a => rfl
  | call e k ih => exact congrArg (Prog.call e) (funext fun r => ih r)

/-- Sequencing of code that can fail; the first error ends it. -/
def andThen {ε : Type} (p : Prog S (Except ε α)) (f : α → Prog S (Except ε β)) :
    Prog S (Except ε β) :=
  p >>= fun r =>
    match r with
    | .error e => .ret (.error e)
    | .ok a => f a

/-- A single operation. -/
def one (e : S.Op) : Prog S (S.Ret e) := .call e .ret

/-- The program has returned. -/
def returned : Prog S α → Bool
  | .ret _ => true
  | .call _ _ => false

/-! ### Runs of a program -/

/-- `Steps p t p'`: answered by the events `t`, the program `p` is now `p'`. -/
inductive Steps : Prog S α → List (Ev S) → Prog S α → Prop where
  | refl (p : Prog S α) : Steps p [] p
  | call {e : S.Op} {k : S.Ret e → Prog S α} {r : S.Ret e} {t : List (Ev S)}
      {p' : Prog S α} : Steps (k r) t p' → Steps (.call e k) (⟨e, r⟩ :: t) p'

theorem Steps.snoc {p : Prog S α} {t : List (Ev S)} {e : S.Op}
    {k : S.Ret e → Prog S α} (h : Steps p t (.call e k)) (r : S.Ret e) :
    Steps p (t ++ [⟨e, r⟩]) (k r) := by
  generalize hq : Prog.call e k = q at h
  induction h with
  | refl p =>
    subst hq
    exact .call (.refl (k r))
  | call _ ih => exact .call (ih hq)

theorem Steps.eq_of_nil {p p' : Prog S α} (h : Steps p [] p') : p = p' := by
  cases h
  rfl

/-- The last step of a run. -/
theorem Steps.of_concat {p p' : Prog S α} {t : List (Ev S)} {ev : Ev S}
    (h : Steps p (t ++ [ev]) p') : ∃ k, Steps p t (.call ev.op k) ∧ p' = k ev.ret := by
  induction t generalizing p with
  | nil =>
    cases h with
    | @call e k r _ _ h => exact ⟨k, .refl _, h.eq_of_nil.symm⟩
  | cons ev' t ih =>
    cases h with
    | call h =>
      obtain ⟨k, hk, rfl⟩ := ih h
      exact ⟨k, .call hk, rfl⟩

/-- Answered in the same way, the program has become the same. -/
theorem Steps.unique {p p₁ p₂ : Prog S α} {t : List (Ev S)} (h₁ : Steps p t p₁)
    (h₂ : Steps p t p₂) : p₁ = p₂ := by
  induction h₁ with
  | refl p => exact h₂.eq_of_nil
  | call _ ih =>
    cases h₂ with
    | call h₂ => exact ih h₂

theorem Steps.mem_of_one {e : S.Op} {r : S.Ret e} {t : List (Ev S)}
    (h : Steps (one e) t (.ret r)) : ⟨e, r⟩ ∈ t := by
  cases h with
  | call h =>
    cases h
    exact List.mem_singleton_self _

/-- A run of `p >>= f` is still in `p`, or has run `p` to its end and gone on with `f`. -/
theorem Steps.bind_cases {p : Prog S α} {f : α → Prog S β} {t : List (Ev S)} {q : Prog S β}
    (h : Steps (p >>= f) t q) :
    (∃ p', Steps p t p' ∧ q = p' >>= f) ∨
      ∃ t₁ t₂ a, t = t₁ ++ t₂ ∧ Steps p t₁ (.ret a) ∧ Steps (f a) t₂ q := by
  induction p generalizing t with
  | ret a => exact Or.inr ⟨[], t, a, rfl, .refl _, h⟩
  | call e k ih =>
    rw [call_bind] at h
    cases h with
    | refl => exact Or.inl ⟨.call e k, .refl _, rfl⟩
    | call h =>
      rcases ih _ h with ⟨p', hp, rfl⟩ | ⟨t₁, t₂, a, rfl, h₁, h₂⟩
      · exact Or.inl ⟨p', .call hp, rfl⟩
      · exact Or.inr ⟨_ :: t₁, t₂, a, rfl, .call h₁, h₂⟩

/-- A finished run of `p >>= f` is one of `p`, then one of `f`. -/
theorem Steps.bind_ret {p : Prog S α} {f : α → Prog S β} {t : List (Ev S)} {b : β}
    (h : Steps (p >>= f) t (.ret b)) :
    ∃ t₁ t₂ a, t = t₁ ++ t₂ ∧ Steps p t₁ (.ret a) ∧ Steps (f a) t₂ (.ret b) := by
  rcases h.bind_cases with ⟨p', hp, hq⟩ | h
  · rcases p' with a | ⟨e, k⟩
    · refine ⟨t, [], a, (List.append_nil t).symm, hp, ?_⟩
      rw [ret_bind] at hq
      rw [← hq]
      exact .refl _
    · cases hq
  · exact h

/-- Post-processing the result takes no step. -/
theorem Steps.of_map {p : Prog S α} {f : α → β} {t : List (Ev S)} {q : Prog S β}
    (h : Steps (p >>= fun a => .ret (f a)) t q) :
    ∃ p', Steps p t p' ∧ q = p' >>= fun a => .ret (f a) := by
  rcases h.bind_cases with h | ⟨t₁, t₂, a, rfl, h₁, h₂⟩
  · exact h
  · cases h₂
    exact ⟨.ret a, by rwa [List.append_nil], rfl⟩

theorem Steps.bind {p : Prog S α} {f : α → Prog S β} {t₁ t₂ : List (Ev S)} {a : α}
    {q : Prog S β} (h : Steps p t₁ (.ret a)) (h' : Steps (f a) t₂ q) :
    Steps (p >>= f) (t₁ ++ t₂) q := by
  generalize hr : Prog.ret a = r at h
  induction h with
  | refl p =>
    subst hr
    exact h'
  | call _ ih => exact .call (ih hr)

/-! ### Reasoning about every way of answering -/

/-- Along every run answered within `rely`, each operation issued meets `guar`
and each result meets `post`, where all three see the history so far. -/
def Safe (rely : List (Ev S) → Ev S → Prop) (guar : List (Ev S) → S.Op → Prop)
    (post : List (Ev S) → α → Prop) : List (Ev S) → Prog S α → Prop
  | h, .ret a => post h a
  | h, .call e k => guar h e ∧ ∀ r, rely h ⟨e, r⟩ → Safe rely guar post (h ++ [⟨e, r⟩]) (k r)

section Safe

variable {rely : List (Ev S) → Ev S → Prop} {guar : List (Ev S) → S.Op → Prop}
  {post : List (Ev S) → α → Prop}

@[simp] theorem safe_ret {h : List (Ev S)} {a : α} :
    Safe rely guar post h (.ret a) ↔ post h a := Iff.rfl

@[simp] theorem safe_call {h : List (Ev S)} {e : S.Op} {k : S.Ret e → Prog S α} :
    Safe rely guar post h (.call e k) ↔
      guar h e ∧ ∀ r, rely h ⟨e, r⟩ → Safe rely guar post (h ++ [⟨e, r⟩]) (k r) := Iff.rfl

/-- The sequencing rule. -/
theorem safe_bind {post : List (Ev S) → β → Prop} {h : List (Ev S)} {p : Prog S α}
    {f : α → Prog S β} :
    Safe rely guar post h (p >>= f) ↔
      Safe rely guar (fun h a => Safe rely guar post h (f a)) h p := by
  induction p generalizing h with
  | ret a => exact Iff.rfl
  | call e k ih =>
    rw [call_bind, safe_call, safe_call]
    exact and_congr Iff.rfl (forall_congr' fun r => imp_congr Iff.rfl (ih r))

/-- Sequencing of code that can fail. -/
theorem safe_andThen {ε : Type} {post : List (Ev S) → Except ε β → Prop} {h : List (Ev S)}
    {p : Prog S (Except ε α)} {f : α → Prog S (Except ε β)} :
    Safe rely guar post h (p.andThen f) ↔
      Safe rely guar (fun h r =>
        match r with
        | .error e => post h (.error e)
        | .ok a => Safe rely guar post h (f a)) h p := by
  rw [andThen, safe_bind]
  refine iff_of_eq (congrArg (fun q => Safe rely guar q h p) ?_)
  funext h r
  rcases r with e | a <;> rfl

/-- The rule of consequence. -/
theorem Safe.mono {rely' : List (Ev S) → Ev S → Prop} {guar' : List (Ev S) → S.Op → Prop}
    {post' : List (Ev S) → α → Prop} {h : List (Ev S)} {p : Prog S α}
    (hs : Safe rely guar post h p) (hr : ∀ h ev, rely' h ev → rely h ev)
    (hg : ∀ h e, guar h e → guar' h e) (hp : ∀ h a, post h a → post' h a) :
    Safe rely' guar' post' h p := by
  induction p generalizing h with
  | ret a => exact hp h a hs
  | call e k ih => exact ⟨hg h e hs.1, fun r hr' => ih r (hs.2 r (hr h _ hr'))⟩

/-- What holds of the history, and is kept by every event the program brings about, holds
all along. -/
theorem Safe.invariant {inv : List (Ev S) → Prop} {h : List (Ev S)} {p : Prog S α} (hi : inv h)
    (hs : Safe rely guar post h p)
    (hstep : ∀ h ev, inv h → guar h ev.op → rely h ev → inv (h ++ [ev])) :
    Safe rely (fun h e => inv h ∧ guar h e) (fun h a => inv h ∧ post h a) h p := by
  induction p generalizing h with
  | ret a => exact ⟨hi, hs⟩
  | call e k ih =>
    exact ⟨⟨hi, hs.1⟩, fun r hr => ih r (hstep h _ hi hs.1 hr) (hs.2 r hr)⟩

/-- What has happened stays in the history. -/
theorem safe_keep {ev : Ev S} {h : List (Ev S)} {p : Prog S α} (hev : ev ∈ h)
    (hs : Safe rely guar post h p) :
    Safe rely (fun h e => ev ∈ h ∧ guar h e) (fun h a => ev ∈ h ∧ post h a) h p :=
  Safe.invariant hev hs fun _ _ hev _ _ => List.mem_append_left _ hev

/-- Two things that hold of every run hold together. -/
theorem Safe.and {guar' : List (Ev S) → S.Op → Prop} {post' : List (Ev S) → α → Prop}
    {h : List (Ev S)} {p : Prog S α} (hs : Safe rely guar post h p)
    (hs' : Safe rely guar' post' h p) :
    Safe rely (fun h e => guar h e ∧ guar' h e) (fun h a => post h a ∧ post' h a) h p := by
  induction p generalizing h with
  | ret a => exact ⟨hs, hs'⟩
  | call e k ih => exact ⟨⟨hs.1, hs'.1⟩, fun r hr => ih r (hs.2 r hr) (hs'.2 r hr)⟩

/-- Every event of `t` is answered within `rely`, given that `h` came before. -/
def Along (rely : List (Ev S) → Ev S → Prop) (h t : List (Ev S)) : Prop :=
  ∀ t₁ ev t₂, t = t₁ ++ ev :: t₂ → rely (h ++ t₁) ev

theorem Along.tail {h t : List (Ev S)} {ev : Ev S} (ha : Along rely h (ev :: t)) :
    rely h ev ∧ Along rely (h ++ [ev]) t := by
  constructor
  · simpa using ha [] ev t rfl
  · intro t₁ ev' t₂ ht
    have := ha (ev :: t₁) ev' t₂ (by rw [ht, List.cons_append])
    simpa using this

/-- `Safe` is kept by the steps of a run. -/
theorem Safe.steps {h t : List (Ev S)} {p p' : Prog S α} (hs : Safe rely guar post h p)
    (ht : Steps p t p') (ha : Along rely h t) : Safe rely guar post (h ++ t) p' := by
  induction ht generalizing h with
  | refl p => simpa using hs
  | @call e k r t p' _ ih =>
    obtain ⟨h₁, h₂⟩ := ha.tail
    have := ih (hs.2 r h₁) h₂
    simpa using this

/-- What `Safe` says about the operations of a run: each met `guar` when it was
issued. -/
theorem Safe.guar_of_steps {h t : List (Ev S)} {p p' : Prog S α}
    (hs : Safe rely guar post h p) (ht : Steps p t p') (ha : Along rely h t)
    {t₁ : List (Ev S)} {ev : Ev S} {t₂ : List (Ev S)} (heq : t = t₁ ++ ev :: t₂) :
    guar (h ++ t₁) ev.op := by
  induction ht generalizing h t₁ with
  | refl p => exact absurd heq (by simp)
  | @call e k r t p' _ ih =>
    obtain ⟨h₁, h₂⟩ := ha.tail
    -- the event is the first one of the run, or comes later
    rcases t₁ with _ | ⟨ev', t₁⟩
    · rw [List.nil_append, List.cons.injEq] at heq
      obtain ⟨rfl, rfl⟩ := heq
      simpa using hs.1
    · rw [List.cons_append, List.cons.injEq] at heq
      obtain ⟨rfl, heq⟩ := heq
      have := ih (hs.2 r h₁) h₂ heq
      simpa using this

/-- `Safe` from what is known of every run. -/
theorem safe_of_steps {h : List (Ev S)} {p : Prog S α}
    (hg : ∀ t e k, Steps p t (.call e k) → guar (h ++ t) e)
    (hp : ∀ t a, Steps p t (.ret a) → post (h ++ t) a) :
    Safe (fun _ _ => True) guar post h p := by
  induction p generalizing h with
  | ret a => simpa using hp [] a (.refl _)
  | call e k ih =>
    refine ⟨by simpa using hg [] e k (.refl _), fun r _ => ih r ?_ ?_⟩
    · intro t e' k' ht
      simpa using hg (⟨e, r⟩ :: t) e' k' (.call ht)
    · intro t a ht
      simpa using hp (⟨e, r⟩ :: t) a (.call ht)

/-- What `Safe` says about the result of a finished run. -/
theorem Safe.post_of_steps {h t : List (Ev S)} {p : Prog S α} {a : α}
    (hs : Safe rely guar post h p) (ht : Steps p t (.ret a)) (ha : Along rely h t) :
    post (h ++ t) a := hs.steps ht ha

end Safe

/-! ### Execution against a handler -/

/-- Execute `p` from the state `s`, each operation answered by `hd`. -/
def run (hd : σ → (e : S.Op) → S.Ret e × σ) : Prog S α → σ → α × σ
  | .ret a, s => (a, s)
  | .call e k, s => (k (hd s e).1).run hd (hd s e).2

/-- The operations of that run, each with the state it was issued in. -/
def moments (hd : σ → (e : S.Op) → S.Ret e × σ) : Prog S α → σ → List (σ × S.Op)
  | .ret _, _ => []
  | .call e k, s => (s, e) :: (k (hd s e).1).moments hd (hd s e).2

/-- An invariant that ties the state to the history: if the operations the program may
issue keep it, it holds whenever one is issued and at the end. -/
theorem Safe.run_inv {hd : σ → (e : S.Op) → S.Ret e × σ} {guar : List (Ev S) → S.Op → Prop}
    {post : List (Ev S) → α → Prop} {I : List (Ev S) → σ → Prop}
    (hstep : ∀ h s e, guar h e → I h s → I (h ++ [⟨e, (hd s e).1⟩]) (hd s e).2)
    {h : List (Ev S)} {s : σ} {p : Prog S α} (hs : Safe (fun _ _ => True) guar post h p)
    (hI : I h s) :
    (∀ x ∈ p.moments hd s, ∃ h', I h' x.1 ∧ guar h' x.2) ∧
      ∃ h', I h' (p.run hd s).2 ∧ post h' (p.run hd s).1 := by
  induction p generalizing h s with
  | ret a => exact ⟨by simp [moments], h, hI, hs⟩
  | call e k ih =>
    obtain ⟨hmom, hend⟩ := ih _ (hs.2 _ trivial) (hstep h s e hs.1 hI)
    refine ⟨fun x hx => ?_, hend⟩
    rcases List.mem_cons.mp hx with rfl | hx
    · exact ⟨h, hI, hs.1⟩
    · exact hmom x hx

/-- The run in which every operation is answered by `hd`: its events and its result. -/
def exec (hd : (e : S.Op) → S.Ret e) : Prog S α → List (Ev S) × α
  | .ret a => ([], a)
  | .call e k => (⟨e, hd e⟩ :: ((k (hd e)).exec hd).1, ((k (hd e)).exec hd).2)

theorem steps_exec (hd : (e : S.Op) → S.Ret e) (p : Prog S α) :
    Steps p (p.exec hd).1 (.ret (p.exec hd).2) := by
  induction p with
  | ret a => exact .refl _
  | call e k ih => exact .call (ih (hd e))

/-- Each operation of that run got its answer from `hd`. -/
theorem ret_of_mem_exec {hd : (e : S.Op) → S.Ret e} {p : Prog S α} {ev : Ev S}
    (h : ev ∈ (p.exec hd).1) : ev.ret = hd ev.op := by
  induction p with
  | ret a => exact absurd h (by simp [exec])
  | call e k ih =>
    rcases List.mem_cons.mp h with rfl | h
    · rfl
    · exact ih (hd e) h

theorem exec_bind (hd : (e : S.Op) → S.Ret e) (p : Prog S α) (f : α → Prog S β) :
    (p >>= f).exec hd =
      ((p.exec hd).1 ++ ((f (p.exec hd).2).exec hd).1, ((f (p.exec hd).2).exec hd).2) := by
  induction p with
  | ret a => rfl
  | call e k ih =>
    rw [call_bind, exec, ih (hd e)]
    rfl

/-! ### Refining the operations by programs -/

/-- Replace each operation by a program over another signature. -/
def interp (f : (e : S.Op) → Prog T (S.Ret e)) : Prog S α → Prog T α
  | .ret a => .ret a
  | .call e k => f e >>= fun r => (k r).interp f

@[simp] theorem interp_call (f : (e : S.Op) → Prog T (S.Ret e)) (e : S.Op)
    (k : S.Ret e → Prog S α) :
    interp f (.call e k) = f e >>= fun r => (k r).interp f := rfl

/-- A finished run of the refined program is one of the original, with a piece of its own for
each operation. -/
theorem steps_interp_iff {f : (e : S.Op) → Prog T (S.Ret e)} {p : Prog S α} {t : List (Ev T)}
    {a : α} : Steps (p.interp f) t (.ret a) ↔ ∃ u ts, Steps p u (.ret a) ∧
      List.Forall₂ (fun ev t' => Steps (f ev.op) t' (.ret ev.ret)) u ts ∧ ts.flatten = t := by
  constructor
  · intro h
    induction p generalizing t with
    | ret b =>
      cases h
      exact ⟨[], [], .refl _, .nil, rfl⟩
    | call e k ih =>
      -- the run of the first operation, then that of the rest
      obtain ⟨t₁, t₂, r, rfl, h₁, h₂⟩ := h.bind_ret
      obtain ⟨u, ts, hu, hts, rfl⟩ := ih r h₂
      exact ⟨⟨e, r⟩ :: u, t₁ :: ts, .call hu, .cons h₁ hts, rfl⟩
  · rintro ⟨u, ts, hu, hts, rfl⟩
    generalize hr : Prog.ret a = q at hu
    induction hu generalizing ts with
    | refl p =>
      subst hr
      cases hts
      exact .refl _
    | call _ ih =>
      cases hts with
      | cons h₁ hts => exact h₁.bind (ih _ hts hr)

theorem exists_piece {R : Ev S → List (Ev T) → Prop} {u : List (Ev S)} {ts : List (List (Ev T))}
    (hts : List.Forall₂ R u ts) {ev : Ev S} (hev : ev ∈ u) :
    ∃ t', R ev t' ∧ t' <:+: ts.flatten := by
  obtain ⟨n, hn, rfl⟩ := List.mem_iff_getElem.mp hev
  have hn' : n < ts.length := hts.length_eq ▸ hn
  exact ⟨ts[n], hts.get hn hn', List.infix_of_mem_flatten (List.getElem_mem hn')⟩

/-- Each operation of the original run was performed in one piece of the refined run. -/
theorem Steps.of_interp {f : (e : S.Op) → Prog T (S.Ret e)} {p : Prog S α} {t : List (Ev T)}
    {a : α} (h : Steps (p.interp f) t (.ret a)) :
    ∃ u, Steps p u (.ret a) ∧ ∀ ev ∈ u, ∃ t', Steps (f ev.op) t' (.ret ev.ret) ∧ t' <:+: t := by
  obtain ⟨u, ts, hu, hts, rfl⟩ := steps_interp_iff.mp h
  exact ⟨u, hu, fun ev hev => exists_piece hts hev⟩

/-- Runs of the single operations make up a run of the refined program. -/
theorem Steps.interp {f : (e : S.Op) → Prog T (S.Ret e)} {Q : Ev T → Prop} {p : Prog S α}
    {u : List (Ev S)} {a : α} (h : Steps p u (.ret a))
    (hf : ∀ ev ∈ u, ∃ t', Steps (f ev.op) t' (.ret ev.ret) ∧ ∀ ev' ∈ t', Q ev') :
    ∃ t, Steps (p.interp f) t (.ret a) ∧ ∀ ev ∈ t, Q ev := by
  obtain ⟨ts, hts, hQ⟩ : ∃ ts,
      List.Forall₂ (fun (ev : Ev S) t' => Steps (f ev.op) t' (.ret ev.ret)) u ts ∧
      ∀ t' ∈ ts, ∀ ev ∈ t', Q ev := by
    clear h
    induction u with
    | nil => exact ⟨[], .nil, by simp⟩
    | cons ev u ih =>
      obtain ⟨t', ht', hQ'⟩ := hf ev List.mem_cons_self
      obtain ⟨ts, hts, hQ⟩ := ih fun ev hev => hf ev (List.mem_cons_of_mem _ hev)
      exact ⟨t' :: ts, .cons ht' hts, List.forall_mem_cons.mpr ⟨hQ', hQ⟩⟩
  refine ⟨_, steps_interp_iff.mpr ⟨u, ts, h, hts, rfl⟩, fun ev hev => ?_⟩
  obtain ⟨t', ht', hev'⟩ := List.mem_flatten.mp hev
  exact hQ t' ht' ev hev'

/-- An invariant of the history that the refined operations keep, those that the program does
issue, is kept by the refined program. -/
theorem Safe.interp {rely : List (Ev T) → Ev T → Prop} {guar : List (Ev T) → T.Op → Prop}
    {inv : List (Ev T) → Prop} {f : (e : S.Op) → Prog T (S.Ret e)} {P : S.Op → Prop}
    {post : List (Ev S) → α → Prop} {u : List (Ev S)} {p : Prog S α}
    (hp : Safe (fun _ _ => True) (fun _ e => P e) post u p)
    (hf : ∀ e h, P e → inv h → Safe rely guar (fun h _ => inv h) h (f e)) {h : List (Ev T)}
    (hi : inv h) : Safe rely guar (fun h _ => inv h) h (p.interp f) := by
  induction p generalizing u h with
  | ret a => exact hi
  | call e k ih =>
    rw [interp_call, safe_bind]
    exact (hf e h hp.1 hi).mono (fun _ _ hr => hr) (fun _ _ hg => hg) fun h' r hi' =>
      ih r (hp.2 r trivial) hi'

end Prog

end Effects
