/-
Hash chains over arbitrary entries.

Each entry names the hash it follows (`prev`) and stores a hash of its own
(`stored`), which has to be the one recomputed from its contents (`digest`).
`check g es` walks the entries from the starting value `g` and gives the last hash,
or nothing if a link or a hash is wrong.

* `check_append` — checking goes on where it stopped;
* `check_inj` — two chains that end in the same hash are the same chain;
* `check_isSome_iff_prefix` — of the entries of a chain, in whatever order and
  number, only its prefixes form a chain again.

The last two need that hashing does not confuse the entries involved (`Faithful`)
and that the starting value is no entry's hash; nothing is asked of other entries.
-/
import Mathlib.Data.List.Basic
import Mathlib.Data.List.Infix

namespace HashChain

/-- How an entry of type `ε` takes part in a chain of hashes of type `η`. -/
structure Links (ε η : Type) where
  prev : ε → η
  stored : ε → η
  digest : ε → η

variable {ε η : Type} {C : Links ε η} {g h : η} {es fs : List ε}

/-- On the entries of `es` and `fs`, equal hashes come from equal entries. -/
def Faithful (C : Links ε η) (es fs : List ε) : Prop :=
  ∀ a ∈ es, ∀ b ∈ fs, C.digest a = C.digest b → C.stored a = C.stored b → a = b

/-- No entry of `es` hashes to `g`. -/
def Fresh (C : Links ε η) (g : η) (es : List ε) : Prop := ∀ a ∈ es, C.digest a ≠ g

theorem Faithful.mono {es' fs' : List ε} (hf : Faithful C es fs) (he : es' ⊆ es)
    (hf' : fs' ⊆ fs) : Faithful C es' fs' :=
  fun a ha b hb => hf a (he ha) b (hf' hb)

theorem Fresh.mono {es' : List ε} (hf : Fresh C g es) (he : es' ⊆ es) : Fresh C g es' :=
  fun a ha => hf a (he ha)

variable [DecidableEq η]

/-- Walk the chain from `g`; the hash it ends in, if every entry is in order. -/
def check (C : Links ε η) : η → List ε → Option η
  | g, [] => some g
  | g, e :: es => if C.prev e = g ∧ C.digest e = C.stored e then check C (C.stored e) es else none

@[simp] theorem check_nil : check C g [] = some g := rfl

theorem check_cons {e : ε} :
    check C g (e :: es) = some h ↔
      C.prev e = g ∧ C.digest e = C.stored e ∧ check C (C.stored e) es = some h := by
  rw [check]
  split <;> simp_all

theorem check_append : check C g (es ++ fs) = (check C g es).bind fun h => check C h fs := by
  induction es generalizing g with
  | nil => rfl
  | cons e es ih =>
    rw [List.cons_append, check, check]
    split
    · exact ih
    · rfl

/-- A chain with one more entry: the entry follows the hash reached before. -/
theorem check_concat {e : ε} :
    check C g (es ++ [e]) = some h ↔
      check C g es = some (C.prev e) ∧ C.digest e = C.stored e ∧ C.stored e = h := by
  rw [check_append, Option.bind_eq_some_iff]
  constructor
  · rintro ⟨g', hg', he⟩
    obtain ⟨rfl, hd, hn⟩ := check_cons.mp he
    exact ⟨hg', hd, by simpa using hn⟩
  · rintro ⟨hg', hd, rfl⟩
    exact ⟨_, hg', check_cons.mpr ⟨rfl, hd, rfl⟩⟩

theorem check_of_append (hc : check C g (es ++ fs) = some h) :
    ∃ g', check C g es = some g' ∧ check C g' fs = some h := by
  rw [check_append, Option.bind_eq_some_iff] at hc
  exact hc

/-- **A chain is determined by the hash it ends in.**  The induction runs from the
end of both chains, where the common hash is, towards their common start. -/
theorem check_inj (hf : Faithful C es fs) (he : Fresh C g es) (hfs : Fresh C g fs)
    (hc : check C g es = some h) (hd : check C g fs = some h) : es = fs := by
  induction es using List.reverseRecOn generalizing fs h with
  | nil =>
    rcases List.eq_nil_or_concat' fs with rfl | ⟨fs, b, rfl⟩
    · rfl
    · obtain ⟨_, hb, hst⟩ := check_concat.mp hd
      rw [check_nil, Option.some_inj] at hc
      -- the last entry would have the hash the chain starts from
      exact absurd (hb.trans (hst.trans hc.symm)) (hfs b (by simp))
  | append_singleton es a ih =>
    obtain ⟨hpre, ha, hst⟩ := check_concat.mp hc
    rcases List.eq_nil_or_concat' fs with rfl | ⟨fs, b, rfl⟩
    · rw [check_nil, Option.some_inj] at hd
      exact absurd (ha.trans (hst.trans hd.symm)) (he a (by simp))
    · obtain ⟨hpre', hb, hst'⟩ := check_concat.mp hd
      -- the last entries have the same hash, so they are the same and follow the same hash
      have hab : a = b := hf a (by simp) b (by simp)
        (ha.trans (hst.trans (hst'.symm.trans hb.symm))) (hst.trans hst'.symm)
      subst hab
      rw [ih (hf.mono (by simp) (by simp)) (he.mono (by simp)) (hfs.mono (by simp)) hpre hpre']

/-- **Only prefixes.**  A list of entries of an accepted chain is accepted exactly
when it is a prefix of that chain. -/
theorem check_isSome_iff_prefix (hf : Faithful C es es) (he : Fresh C g es)
    (hc : check C g es = some h) (hfs : fs ⊆ es) :
    (check C g fs).isSome ↔ fs <+: es := by
  constructor
  · intro hs
    induction fs using List.reverseRecOn with
    | nil => exact List.nil_prefix
    | append_singleton fs b ih =>
      obtain ⟨h', hs'⟩ := Option.isSome_iff_exists.mp hs
      obtain ⟨hpre, _, _⟩ := check_concat.mp hs'
      -- `b` stands somewhere in `es`, and what precedes it there ends in the same hash
      obtain ⟨e₁, e₂, rfl⟩ := List.append_of_mem (hfs (show b ∈ fs ++ [b] by simp))
      obtain ⟨g', hg', hrest⟩ := check_of_append hc
      obtain ⟨rfl, _, _⟩ := check_cons.mp hrest
      have hsub : fs ⊆ e₁ ++ b :: e₂ := fun x hx => hfs (by simp [hx])
      have : fs = e₁ := check_inj (hf.mono hsub (by simp)) (he.mono hsub) (he.mono (by simp))
        hpre hg'
      subst this
      exact ⟨e₂, by simp⟩
  · rintro ⟨rest, rfl⟩
    obtain ⟨g', hg', _⟩ := check_of_append hc
    rw [hg']
    rfl

end HashChain
