/-
What the config loader accepts and what it grants.

`addPermission_ok` says once what a successful `add_permission` has checked and
how it changes the table; every statement about loading goes through it, by
induction over the permissions of a client and the clients of a config.

* `PermissionEntry.Valid` — the checks, as one condition on the entry;
* `AuthzTable.Inv` — the representation invariant: the integrity label is never
  granted, allowlists stand exactly at the derive grants, and everything stored is
  non-empty, trimmed and, for peer keys, decodable;
* `fromConfig_inv` — it holds of every table the loader returns.
-/
import Mathlib.Data.Finset.Lattice.Lemmas
import Mathlib.Data.List.Nodup
import PicoHsm.Config

namespace PicoHsm

open Text

namespace AuthzTable

variable {K : Crates}

/-! ### The loops -/

/-- The label loop succeeds exactly when the trimmed labels are non-empty, not the
integrity label and pairwise distinct, and then collects them in order. -/
theorem checkLabels_ok {cn : String} {op : Operation} {I : String} {ls acc labels : List String}
    (hacc : acc.Nodup) :
    checkLabels K cn op I ls acc = .ok labels ↔
      (∀ l ∈ ls, trim l ≠ "" ∧ trim l ≠ I) ∧ (acc ++ ls.map trim).Nodup ∧
        labels = acc ++ ls.map trim := by
  induction ls generalizing acc with
  | nil =>
    rw [checkLabels, List.map_nil, List.append_nil, Except.ok.injEq]
    exact ⟨fun h => ⟨by simp, hacc, h.symm⟩, fun h => h.2.2.symm⟩
  | cons l ls ih =>
    rw [checkLabels, List.map_cons, List.forall_mem_cons]
    -- the three checks of the loop, in its order
    by_cases h₁ : trim l = ""
    · rw [if_pos h₁]
      exact ⟨fun h => by simp at h, fun h => absurd h₁ h.1.1.1⟩
    rw [if_neg h₁]
    by_cases h₂ : trim l = I
    · rw [if_pos h₂]
      exact ⟨fun h => by simp at h, fun h => absurd h₂ h.1.1.2⟩
    rw [if_neg h₂]
    by_cases h₃ : trim l ∈ acc
    · rw [if_pos h₃]
      refine ⟨fun h => by simp at h, fun h => ?_⟩
      exact absurd rfl ((List.nodup_append.mp h.2.1).2.2 (trim l) h₃ (trim l) (by simp))
    · have hacc' : (acc ++ [trim l]).Nodup := by
        rw [List.nodup_append]
        refine ⟨hacc, by simp, fun a ha b hb hab => h₃ ?_⟩
        rw [← List.mem_singleton.mp hb, ← hab]
        exact ha
      rw [if_neg h₃, ih hacc', List.append_assoc, List.singleton_append]
      exact and_congr_left fun _ => ⟨fun h => ⟨⟨h₁, h₂⟩, h⟩, fun h => h.2⟩

/-- The peer-key loop, likewise. -/
theorem checkPeerKeys_ok {cn : String} {op : Operation} {ks : List String}
    {acc vetted : Finset String} :
    checkPeerKeys K cn op ks acc = .ok vetted ↔
      (∀ k ∈ ks, trim k ≠ "" ∧ K.b64.decode (trim k) ≠ none ∧ trim k ∉ acc) ∧
        (ks.map trim).Nodup ∧ vetted = acc ∪ (ks.map trim).toFinset := by
  induction ks generalizing acc with
  | nil =>
    rw [checkPeerKeys, List.map_nil, List.toFinset_nil, Finset.union_empty, Except.ok.injEq]
    exact ⟨fun h => ⟨by simp, List.nodup_nil, h.symm⟩, fun h => h.2.2.symm⟩
  | cons k ks ih =>
    rw [checkPeerKeys, List.map_cons, List.forall_mem_cons]
    by_cases h₁ : trim k = ""
    · rw [if_pos h₁]
      exact ⟨fun h => by simp at h, fun h => absurd h₁ h.1.1.1⟩
    rw [if_neg h₁]
    by_cases h₂ : K.b64.decode (trim k) = none
    · rw [if_pos h₂]
      exact ⟨fun h => by simp at h, fun h => absurd h₂ h.1.1.2.1⟩
    rw [if_neg h₂]
    by_cases h₃ : trim k ∈ acc
    · rw [if_pos h₃]
      exact ⟨fun h => by simp at h, fun h => absurd h₃ h.1.1.2.2⟩
    · rw [if_neg h₃, ih, List.nodup_cons, List.toFinset_cons, Finset.union_insert,
        Finset.insert_union]
      -- a key is new to `insert k acc` if it is new to `acc` and is not `k`
      constructor
      · rintro ⟨hk, hn, hv⟩
        refine ⟨⟨⟨h₁, h₂, h₃⟩, fun k' hk' => ?_⟩, ⟨?_, hn⟩, hv⟩
        · obtain ⟨a, b, c⟩ := hk k' hk'
          exact ⟨a, b, fun h => c (Finset.mem_insert_of_mem h)⟩
        · rintro hmem
          obtain ⟨k', hk', heq⟩ := List.mem_map.mp hmem
          exact (hk k' hk').2.2 (by rw [heq]; exact Finset.mem_insert_self _ _)
      · rintro ⟨⟨_, hk⟩, ⟨hnew, hn⟩, hv⟩
        refine ⟨fun k' hk' => ?_, hn, hv⟩
        obtain ⟨a, b, c⟩ := hk k' hk'
        refine ⟨a, b, fun h => ?_⟩
        rcases Finset.mem_insert.mp h with heq | h
        · exact hnew (List.mem_map.mpr ⟨k', hk', heq⟩)
        · exact c h

/-- The insert loop of a plain permission adds its grants and no allowlist. -/
theorem mem_grantPlain {cn : String} {op : Operation} {labels : List String} {t : AuthzTable}
    {g : Grant} :
    g ∈ (grantPlain cn op labels t).grants ↔
      g ∈ t.grants ∨ ∃ label ∈ labels, g = (cn, op, label) := by
  induction labels generalizing t with
  | nil => simp [grantPlain]
  | cons label labels ih =>
    rw [grantPlain, ih, Finset.mem_insert]
    simp only [List.mem_cons, exists_eq_or_imp]
    tauto

theorem lookup_grantPlain {cn : String} {op : Operation} {labels : List String} {t : AuthzTable}
    {g : Grant} : (grantPlain cn op labels t).peerKeys.lookup g = t.peerKeys.lookup g := by
  induction labels generalizing t with
  | nil => rfl
  | cons label labels ih => rw [grantPlain, ih]

/-- The insert loop of a derive permission adds the same grants, and puts the
allowlist at each of them, in place of what stood there before. -/
theorem mem_grantDerive {cn : String} {op : Operation} {vetted : Finset String}
    {labels : List String} {t : AuthzTable} {g : Grant} :
    g ∈ (grantDerive cn op vetted labels t).grants ↔
      g ∈ t.grants ∨ ∃ label ∈ labels, g = (cn, op, label) := by
  induction labels generalizing t with
  | nil => simp [grantDerive]
  | cons label labels ih =>
    rw [grantDerive, ih, Finset.mem_insert]
    simp only [List.mem_cons, exists_eq_or_imp]
    tauto

theorem lookup_grantDerive_mem {cn : String} {op : Operation} {vetted : Finset String}
    {labels : List String} {t : AuthzTable} {label : String} (h : label ∈ labels) :
    (grantDerive cn op vetted labels t).peerKeys.lookup (cn, op, label) = some vetted := by
  induction labels generalizing t with
  | nil => exact absurd h (by simp)
  | cons label' labels ih =>
    rw [grantDerive]
    by_cases hmem : label ∈ labels
    · exact ih hmem
    · obtain rfl : label = label' := (List.mem_cons.mp h).resolve_right hmem
      clear ih h
      -- the labels still to come are other ones, so the entry just made stays
      suffices H : ∀ u : AuthzTable, u.peerKeys.lookup (cn, op, label) = some vetted →
          (grantDerive cn op vetted labels u).peerKeys.lookup (cn, op, label) = some vetted from
        H _ (AList.lookup_insert _)
      induction labels with
      | nil => exact fun u hu => hu
      | cons l labels ih =>
        intro u hu
        rw [List.mem_cons, not_or] at hmem
        rw [grantDerive]
        refine ih hmem.2 _ ?_
        rw [AList.lookup_insert_ne (by simp [hmem.1])]
        exact hu

theorem lookup_grantDerive_notMem {cn : String} {op : Operation} {vetted : Finset String}
    {labels : List String} {t : AuthzTable} {g : Grant}
    (h : ∀ label ∈ labels, g ≠ (cn, op, label)) :
    (grantDerive cn op vetted labels t).peerKeys.lookup g = t.peerKeys.lookup g := by
  induction labels generalizing t with
  | nil => rfl
  | cons label labels ih =>
    rw [grantDerive, ih fun l hl => h l (List.mem_cons_of_mem _ hl)]
    exact AList.lookup_insert_ne (h label (by simp))

end AuthzTable

/-! ### One permission -/

/-- The checks of `add_permission` on a permission entry. -/
structure PermissionEntry.Valid (K : Crates) (I : String) (perm : PermissionEntry) : Prop where
  labels_ne_nil : perm.keyLabels ≠ []
  label_ok : ∀ l ∈ perm.keyLabels, trim l ≠ "" ∧ trim l ≠ I
  labels_nodup : (perm.keyLabels.map trim).Nodup
  derive_iff : perm.operation.isDerive = perm.peerPublicKeys.isSome
  peers_ne_nil : ∀ raw, perm.peerPublicKeys = some raw → raw ≠ []
  peer_ok : ∀ raw, perm.peerPublicKeys = some raw →
    ∀ k ∈ raw, trim k ≠ "" ∧ K.b64.decode (trim k) ≠ none
  peers_nodup : ∀ raw, perm.peerPublicKeys = some raw → (raw.map trim).Nodup

namespace AuthzTable

variable {K : Crates}

/-- How a valid permission changes the table. -/
def applyPermission (t : AuthzTable) (cn : String) (perm : PermissionEntry) : AuthzTable :=
  match perm.peerPublicKeys with
  | none => grantPlain cn perm.operation (perm.keyLabels.map trim) t
  | some raw =>
    grantDerive cn perm.operation (raw.map trim).toFinset (perm.keyLabels.map trim) t

/-- **What `add_permission` does.**  It accepts exactly the valid permissions and
then makes exactly these inserts. -/
theorem addPermission_ok {t t' : AuthzTable} {cn I : String} {perm : PermissionEntry} :
    addPermission K t cn perm I = .ok t' ↔ perm.Valid K I ∧ t' = applyPermission t cn perm := by
  rw [addPermission]
  by_cases hne : perm.keyLabels = []
  · rw [if_pos hne]
    exact ⟨fun h => by simp at h, fun h => absurd hne h.1.labels_ne_nil⟩
  rw [if_neg hne]
  -- the label loop decides the conditions on the labels
  have hlab : ∀ labels, checkLabels K cn perm.operation I perm.keyLabels [] = .ok labels ↔ _ :=
    fun labels => checkLabels_ok List.nodup_nil
  rw [applyPermission]
  rcases hc : checkLabels K cn perm.operation I perm.keyLabels [] with e | labels
  · refine ⟨fun h => by simp at h, fun h => ?_⟩
    have := (hlab _).mpr ⟨h.1.label_ok, h.1.labels_nodup, rfl⟩
    rw [hc] at this
    exact absurd this (by simp)
  obtain ⟨hok, hnd, rfl⟩ := (hlab labels).mp hc
  rw [List.nil_append] at hnd ⊢
  -- four cases: with or without an allowlist, derive or not
  rcases hpk : perm.peerPublicKeys with _ | raw
  · rcases hd : perm.operation.isDerive
    · rw [Except.ok.injEq, eq_comm]
      refine ⟨fun h => ⟨⟨hne, hok, hnd, by simp [hd, hpk], ?_, ?_, ?_⟩, h⟩, fun h => h.2⟩ <;>
        simp [hpk]
    · refine ⟨fun h => by simp at h, fun h => ?_⟩
      have := h.1.derive_iff
      simp [hd, hpk] at this
  · rcases hd : perm.operation.isDerive
    · refine ⟨fun h => by simp at h, fun h => ?_⟩
      have := h.1.derive_iff
      simp [hd, hpk] at this
    dsimp only
    by_cases hraw : raw = []
    · rw [if_pos hraw]
      exact ⟨fun h => by simp at h, fun h => absurd hraw (h.1.peers_ne_nil raw hpk)⟩
    rw [if_neg hraw]
    have hpeer : ∀ v, checkPeerKeys K cn perm.operation raw ∅ = .ok v ↔ _ :=
      fun v => checkPeerKeys_ok
    rcases hv : checkPeerKeys K cn perm.operation raw ∅ with e | vetted
    · refine ⟨fun h => by simp at h, fun h => ?_⟩
      have := (hpeer _).mpr ⟨fun k hk => ⟨(h.1.peer_ok raw hpk k hk).1,
        (h.1.peer_ok raw hpk k hk).2, by simp⟩, h.1.peers_nodup raw hpk, rfl⟩
      rw [hv] at this
      exact absurd this (by simp)
    · obtain ⟨hko, hkn, rfl⟩ := (hpeer vetted).mp hv
      rw [Except.ok.injEq, eq_comm, Finset.empty_union]
      refine ⟨fun h => ⟨⟨hne, hok, hnd, by simp [hd, hpk], ?_, ?_, ?_⟩, h⟩, fun h => h.2⟩
      · intro raw' h
        obtain rfl := Option.some_inj.mp (hpk.symm.trans h)
        exact hraw
      · intro raw' h k hk
        obtain rfl := Option.some_inj.mp (hpk.symm.trans h)
        exact ⟨(hko k hk).1, (hko k hk).2.1⟩
      · intro raw' h
        obtain rfl := Option.some_inj.mp (hpk.symm.trans h)
        exact hkn

/-- The grants after a permission. -/
theorem mem_applyPermission {t : AuthzTable} {cn : String} {perm : PermissionEntry} {g : Grant} :
    g ∈ (applyPermission t cn perm).grants ↔
      g ∈ t.grants ∨ ∃ l ∈ perm.keyLabels, g = (cn, perm.operation, trim l) := by
  have hmap : (∃ label ∈ perm.keyLabels.map trim, g = (cn, perm.operation, label)) ↔
      ∃ l ∈ perm.keyLabels, g = (cn, perm.operation, trim l) := by simp
  rw [applyPermission, ← hmap]
  rcases perm.peerPublicKeys with _ | raw
  · exact mem_grantPlain
  · exact mem_grantDerive

/-- The allowlists after a permission: its own at its grants, the old ones
elsewhere. -/
theorem lookup_applyPermission {t : AuthzTable} {cn : String} {perm : PermissionEntry}
    {g : Grant} {s : Finset String}
    (h : (applyPermission t cn perm).peerKeys.lookup g = some s) :
    t.peerKeys.lookup g = some s ∨
      ∃ raw, perm.peerPublicKeys = some raw ∧ s = (raw.map trim).toFinset ∧
        ∃ l ∈ perm.keyLabels, g = (cn, perm.operation, trim l) := by
  rw [applyPermission] at h
  rcases hpk : perm.peerPublicKeys with _ | raw
  · rw [hpk] at h
    rw [lookup_grantPlain] at h
    exact Or.inl h
  · rw [hpk] at h
    by_cases hg : ∃ l ∈ perm.keyLabels, g = (cn, perm.operation, trim l)
    · obtain ⟨l, hl, rfl⟩ := hg
      rw [lookup_grantDerive_mem (List.mem_map_of_mem hl), Option.some_inj] at h
      exact Or.inr ⟨raw, rfl, h.symm, l, hl, rfl⟩
    · rw [lookup_grantDerive_notMem] at h
      · exact Or.inl h
      · intro label hlabel heq
        obtain ⟨l, hl, rfl⟩ := List.mem_map.mp hlabel
        exact hg ⟨l, hl, heq⟩

/-! ### The representation invariant -/

/-- What every table built by the loader satisfies, for the integrity label `I`. -/
structure Inv (K : Crates) (I : String) (t : AuthzTable) : Prop where
  /-- The integrity key is never granted. -/
  label_ne : ∀ g ∈ t.grants, g.2.2 ≠ I
  cn_ok : ∀ g ∈ t.grants, g.1 ≠ "" ∧ trim g.1 = g.1
  label_ok : ∀ g ∈ t.grants, g.2.2 ≠ "" ∧ trim g.2.2 = g.2.2
  /-- Allowlists stand exactly at the derive grants. -/
  mem_peerKeys : ∀ g, g ∈ t.peerKeys ↔ g ∈ t.grants ∧ g.2.1.isDerive = true
  peers_nonempty : ∀ g s, t.peerKeys.lookup g = some s → s.Nonempty
  peer_ok : ∀ g s, t.peerKeys.lookup g = some s →
    ∀ k ∈ s, k ≠ "" ∧ trim k = k ∧ K.b64.decode k ≠ none

/-- A grant that has an allowlist is granted. -/
theorem Inv.mem_grants {I : String} {t : AuthzTable} (hi : Inv K I t) {g : Grant}
    {s : Finset String} (hs : t.peerKeys.lookup g = some s) : g ∈ t.grants :=
  ((hi.mem_peerKeys g).mp (AList.lookup_isSome.mp (by rw [hs]; rfl))).1

theorem inv_empty (I : String) : Inv K I empty := by
  constructor <;> simp [empty]

/-- A successful `add_permission` keeps the invariant. -/
theorem addPermission_inv {t t' : AuthzTable} {cn I : String} {perm : PermissionEntry}
    (hcn : cn ≠ "" ∧ trim cn = cn) (hi : Inv K I t)
    (h : addPermission K t cn perm I = .ok t') : Inv K I t' := by
  obtain ⟨hv, rfl⟩ := addPermission_ok.mp h
  refine ⟨?_, ?_, ?_, ?_, ?_, ?_⟩
  · intro g hg
    rcases mem_applyPermission.mp hg with hg | ⟨l, hl, rfl⟩
    · exact hi.label_ne g hg
    · exact (hv.label_ok l hl).2
  · intro g hg
    rcases mem_applyPermission.mp hg with hg | ⟨l, hl, rfl⟩
    · exact hi.cn_ok g hg
    · exact hcn
  · intro g hg
    rcases mem_applyPermission.mp hg with hg | ⟨l, hl, rfl⟩
    · exact hi.label_ok g hg
    · exact ⟨(hv.label_ok l hl).1, trim_trim l⟩
  · intro g
    rw [mem_applyPermission]
    constructor
    · intro hg
      obtain ⟨s, hs⟩ := Option.isSome_iff_exists.mp (AList.lookup_isSome.mpr hg)
      rcases lookup_applyPermission hs with hs | ⟨raw, hraw, -, l, hl, rfl⟩
      · have := (hi.mem_peerKeys g).mp (AList.lookup_isSome.mp (by rw [hs]; rfl))
        exact ⟨Or.inl this.1, this.2⟩
      · exact ⟨Or.inr ⟨l, hl, rfl⟩, by rw [hv.derive_iff, hraw]; rfl⟩
    · rintro ⟨hg, hd⟩
      -- an old grant keeps its allowlist, a new one gets the permission's
      rw [← AList.lookup_isSome, applyPermission]
      rcases hpk : perm.peerPublicKeys with _ | raw
      · rw [lookup_grantPlain, AList.lookup_isSome, hi.mem_peerKeys]
        rcases hg with hg | ⟨l, hl, rfl⟩
        · exact ⟨hg, hd⟩
        · have := hv.derive_iff
          rw [hpk, hd] at this
          exact absurd this (by simp)
      · by_cases hmem : ∃ l ∈ perm.keyLabels, g = (cn, perm.operation, trim l)
        · obtain ⟨l, hl, rfl⟩ := hmem
          rw [lookup_grantDerive_mem (List.mem_map_of_mem hl)]
          rfl
        · rw [lookup_grantDerive_notMem, AList.lookup_isSome, hi.mem_peerKeys]
          · exact ⟨hg.resolve_right hmem, hd⟩
          · intro label hlabel heq
            obtain ⟨l, hl, rfl⟩ := List.mem_map.mp hlabel
            exact hmem ⟨l, hl, heq⟩
  · intro g s hs
    rcases lookup_applyPermission hs with hs | ⟨raw, hraw, rfl, -⟩
    · exact hi.peers_nonempty g s hs
    · obtain ⟨k, hk⟩ := List.exists_mem_of_ne_nil _ (hv.peers_ne_nil raw hraw)
      exact ⟨trim k, List.mem_toFinset.mpr (List.mem_map_of_mem hk)⟩
  · intro g s hs k hk
    rcases lookup_applyPermission hs with hs | ⟨raw, hraw, rfl, -⟩
    · exact hi.peer_ok g s hs k hk
    · obtain ⟨k', hk', rfl⟩ := List.mem_map.mp (List.mem_toFinset.mp hk)
      exact ⟨(hv.peer_ok raw hraw k' hk').1, trim_trim k', (hv.peer_ok raw hraw k' hk').2⟩

theorem addPermissions_inv {t t' : AuthzTable} {cn I : String} {perms : List PermissionEntry}
    (hcn : cn ≠ "" ∧ trim cn = cn) (hi : Inv K I t)
    (h : addPermissions K cn I perms t = .ok t') : Inv K I t' := by
  induction perms generalizing t with
  | nil =>
    rw [addPermissions, Except.ok.injEq] at h
    exact h ▸ hi
  | cons perm perms ih =>
    rw [addPermissions] at h
    rcases hp : addPermission K t cn perm I with e | u
    · rw [hp] at h
      exact absurd h (by simp)
    · rw [hp] at h
      exact ih (addPermission_inv hcn hi hp) h

theorem addClients_inv {t t' : AuthzTable} {I : String} {clients : List ClientEntry}
    {seen : Finset String} (hi : Inv K I t) (h : addClients K I clients seen t = .ok t') :
    Inv K I t' := by
  induction clients generalizing t seen with
  | nil =>
    rw [addClients, Except.ok.injEq] at h
    exact h ▸ hi
  | cons client clients ih =>
    rw [addClients] at h
    by_cases hcn : trim client.cn = ""
    · rw [if_pos hcn] at h
      exact absurd h (by simp)
    rw [if_neg hcn] at h
    by_cases hs : trim client.cn ∈ seen
    · rw [if_pos hs] at h
      exact absurd h (by simp)
    rw [if_neg hs] at h
    rcases hp : addPermissions K (trim client.cn) I client.permissions t with e | u
    · rw [hp] at h
      exact absurd h (by simp)
    · rw [hp] at h
      exact ih (addPermissions_inv ⟨hcn, trim_trim _⟩ hi hp) h

/-- **Every accepted config yields a table that satisfies the invariant.** -/
theorem fromConfig_inv {cfg : FileConfig} {I : String} {t : AuthzTable}
    (h : fromConfig K cfg I = .ok t) : Inv K I t :=
  addClients_inv (inv_empty I) h

/-! ### The two questions asked of a table -/

theorem isAuthorized_iff {t : AuthzTable} {cn : String} {op : Operation} {label : String} :
    t.isAuthorized cn op label = true ↔ (cn, op, label) ∈ t.grants := by
  simp [isAuthorized]

theorem isPeerKeyAuthorized_iff {t : AuthzTable} {cn : String} {op : Operation}
    {label k : String} :
    t.isPeerKeyAuthorized cn op label k = true ↔
      ∃ s, t.peerKeys.lookup (cn, op, label) = some s ∧ k ∈ s := by
  rw [isPeerKeyAuthorized]
  rcases t.peerKeys.lookup (cn, op, label) with _ | s <;> simp

end AuthzTable

end PicoHsm
