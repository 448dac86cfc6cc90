/-
What a loaded table answers, in terms of the config it was loaded from.

A successful load is a fold of `applyPermission` over the permissions of all clients
(`fromConfig_ok`).  What the table says about one CN depends on the permissions
written under that CN alone (`permissionsOf`): the grants collect them all, while the
allowlist at a grant is the one of the last entry that names it (`allowlist`).

* `fromConfig_accepts` — the loader accepts exactly the valid configs and grants
  exactly what they list;
* `fromStr_inv` — the invariant holds of every table on the way;
* `fromConfig_local` — dropping and reordering clients changes nothing for the others.
-/
import Mathlib.Data.List.Perm.Subperm
import PicoHsm.ConfigSpec
import PicoHsm.ReferenceRequest

namespace PicoHsm

open Text

/-! ### The entries of a config -/

/-- The checks of the loader on a whole config. -/
structure FileConfig.Valid (K : Crates) (I : String) (cfg : FileConfig) : Prop where
  cn_ne : ∀ c ∈ cfg.clients, trim c.cn ≠ ""
  cn_nodup : (cfg.clients.map fun c => trim c.cn).Nodup
  perm_ok : ∀ c ∈ cfg.clients, ∀ perm ∈ c.permissions, perm.Valid K I

/-- The permission is for `op` and has a label that trims to `label`. -/
def PermissionEntry.Names (perm : PermissionEntry) (op : Operation) (label : String) : Prop :=
  perm.operation = op ∧ ∃ l ∈ perm.keyLabels, trim l = label

/-- The permission has a peer key that trims to `p`. -/
def PermissionEntry.ListsPeer (perm : PermissionEntry) (p : String) : Prop :=
  ∃ raw, perm.peerPublicKeys = some raw ∧ ∃ k ∈ raw, trim k = p

instance (perm : PermissionEntry) (op : Operation) (label : String) :
    Decidable (perm.Names op label) :=
  inferInstanceAs (Decidable (_ ∧ _))

/-- The allowlist a permission brings for `(op, label)`. -/
def PermissionEntry.allowlist (perm : PermissionEntry) (op : Operation) (label : String) :
    Option (Finset String) :=
  if perm.Names op label then perm.peerPublicKeys.map fun raw => (raw.map trim).toFinset
  else none

/-- All permissions written under one CN. -/
def permissionsOf (cn : String) (clients : List ClientEntry) : List PermissionEntry :=
  (clients.filter fun c => trim c.cn = cn).flatMap ClientEntry.permissions

/-- The allowlist of the last permission that brings one. -/
def allowlist (op : Operation) (label : String) : List PermissionEntry → Option (Finset String)
  | [] => none
  | perm :: perms => (allowlist op label perms).or (perm.allowlist op label)

theorem mem_permissionsOf {cn : String} {clients : List ClientEntry} {perm : PermissionEntry} :
    perm ∈ permissionsOf cn clients ↔ ∃ c ∈ clients, trim c.cn = cn ∧ perm ∈ c.permissions := by
  simp only [permissionsOf, List.mem_flatMap, List.mem_filter, decide_eq_true_eq, and_assoc]

theorem permissionsOf_cons (cn : String) (c : ClientEntry) (clients : List ClientEntry) :
    permissionsOf cn (c :: clients) =
      (if trim c.cn = cn then c.permissions else []) ++ permissionsOf cn clients := by
  rw [permissionsOf, List.filter_cons]
  by_cases h : trim c.cn = cn
  · simp [h, permissionsOf]
  · simp [h, permissionsOf]

/-- A CN no client has has no permissions. -/
theorem permissionsOf_eq_nil {cn : String} {clients : List ClientEntry}
    (h : ∀ c ∈ clients, trim c.cn ≠ cn) : permissionsOf cn clients = [] := by
  rw [permissionsOf, List.filter_eq_nil_iff.mpr fun c hc => by simpa using h c hc]
  rfl

/-- With distinct CNs, the permissions of a client's CN are its own. -/
theorem permissionsOf_eq {clients : List ClientEntry} {c : ClientEntry}
    (hn : (clients.map fun c => trim c.cn).Nodup) (hc : c ∈ clients) :
    permissionsOf (trim c.cn) clients = c.permissions := by
  induction clients with
  | nil => exact absurd hc (by simp)
  | cons d clients ih =>
    rw [List.map_cons, List.nodup_cons] at hn
    rw [permissionsOf_cons]
    rcases List.mem_cons.mp hc with rfl | hc
    · rw [if_pos rfl, permissionsOf_eq_nil, List.append_nil]
      intro d hd heq
      exact hn.1 (List.mem_map.mpr ⟨d, hd, heq⟩)
    · rw [if_neg, List.nil_append]
      · exact ih hn.2 hc
      · intro heq
        exact hn.1 (List.mem_map.mpr ⟨c, hc, heq.symm⟩)

theorem allowlist_append (op : Operation) (label : String) (ps qs : List PermissionEntry) :
    allowlist op label (ps ++ qs) = (allowlist op label qs).or (allowlist op label ps) := by
  induction ps with
  | nil => simp [allowlist]
  | cons p ps ih => rw [List.cons_append, allowlist, ih, allowlist, Option.or_assoc]

/-- An allowlist is that of some entry. -/
theorem exists_of_allowlist {op : Operation} {label : String} {perms : List PermissionEntry}
    {s : Finset String} (h : allowlist op label perms = some s) :
    ∃ perm ∈ perms, perm.allowlist op label = some s := by
  induction perms with
  | nil => exact absurd h (by simp [allowlist])
  | cons perm perms ih =>
    rw [allowlist, Option.or_eq_some_iff] at h
    rcases h with h | ⟨-, h⟩
    · obtain ⟨perm', hp, hs⟩ := ih h
      exact ⟨perm', List.mem_cons_of_mem _ hp, hs⟩
    · exact ⟨perm, List.mem_cons_self, h⟩

/-- Membership in the allowlist of one entry is being listed by it. -/
theorem PermissionEntry.allowlist_iff {perm : PermissionEntry} {op : Operation} {label p : String} :
    (∃ s, perm.allowlist op label = some s ∧ p ∈ s) ↔ perm.Names op label ∧ perm.ListsPeer p := by
  rw [PermissionEntry.allowlist]
  by_cases hn : perm.Names op label
  · rw [if_pos hn]
    rcases hpk : perm.peerPublicKeys with _ | raw
    · simp [PermissionEntry.ListsPeer, hpk]
    · simp [PermissionEntry.ListsPeer, hpk, hn]
  · rw [if_neg hn]
    simp [hn]

namespace AuthzTable

variable {K : Crates}

/-! ### Loading as a fold -/

/-- The permissions of one client, applied in order. -/
def applyPermissions (cn : String) (perms : List PermissionEntry) (t : AuthzTable) : AuthzTable :=
  perms.foldl (fun t perm => applyPermission t cn perm) t

/-- The permissions of all clients, applied in order. -/
def applyClients (clients : List ClientEntry) (t : AuthzTable) : AuthzTable :=
  clients.foldl (fun t c => applyPermissions (trim c.cn) c.permissions t) t

theorem addPermissions_ok {cn I : String} {perms : List PermissionEntry} {t t' : AuthzTable} :
    addPermissions K cn I perms t = .ok t' ↔
      (∀ perm ∈ perms, perm.Valid K I) ∧ t' = applyPermissions cn perms t := by
  induction perms generalizing t with
  | nil => simp [addPermissions, applyPermissions, eq_comm]
  | cons perm perms ih =>
    rw [addPermissions, List.forall_mem_cons, applyPermissions, List.foldl_cons]
    rcases hp : addPermission K t cn perm I with e | u
    · refine ⟨fun h => by simp at h, fun h => ?_⟩
      have : addPermission K t cn perm I = .ok (applyPermission t cn perm) :=
        addPermission_ok.mpr ⟨h.1.1, rfl⟩
      rw [hp] at this
      exact absurd this (by simp)
    · obtain ⟨hv, rfl⟩ := addPermission_ok.mp hp
      dsimp only
      rw [ih]
      exact ⟨fun h => ⟨⟨hv, h.1⟩, h.2⟩, fun h => ⟨h.1.2, h.2⟩⟩

theorem addClients_ok {I : String} {clients : List ClientEntry} {seen : Finset String}
    {t t' : AuthzTable} :
    addClients K I clients seen t = .ok t' ↔
      (∀ c ∈ clients, trim c.cn ≠ "" ∧ trim c.cn ∉ seen ∧ ∀ perm ∈ c.permissions, perm.Valid K I) ∧
        (clients.map fun c => trim c.cn).Nodup ∧ t' = applyClients clients t := by
  induction clients generalizing seen t with
  | nil =>
    rw [addClients, Except.ok.injEq, eq_comm]
    simp [applyClients]
  | cons c clients ih =>
    rw [addClients, List.forall_mem_cons, List.map_cons, List.nodup_cons, applyClients,
      List.foldl_cons]
    by_cases hcn : trim c.cn = ""
    · rw [if_pos hcn]
      exact ⟨fun h => by simp at h, fun h => absurd hcn h.1.1.1⟩
    rw [if_neg hcn]
    by_cases hs : trim c.cn ∈ seen
    · rw [if_pos hs]
      exact ⟨fun h => by simp at h, fun h => absurd hs h.1.1.2.1⟩
    rw [if_neg hs]
    rcases hp : addPermissions K (trim c.cn) I c.permissions t with e | u
    · refine ⟨fun h => by simp at h, fun h => ?_⟩
      have : addPermissions K (trim c.cn) I c.permissions t = .ok _ :=
        addPermissions_ok.mpr ⟨h.1.1.2.2, rfl⟩
      rw [hp] at this
      exact absurd this (by simp)
    · obtain ⟨hv, rfl⟩ := addPermissions_ok.mp hp
      dsimp only
      rw [ih]
      -- "not seen before, nor `c`'s" against "not seen before, and `c`'s is not among them"
      constructor
      · rintro ⟨hall, hn, heq⟩
        refine ⟨⟨⟨hcn, hs, hv⟩, fun d hd => ?_⟩, ⟨?_, hn⟩, heq⟩
        · obtain ⟨a, b, e⟩ := hall d hd
          exact ⟨a, fun h => b (Finset.mem_insert_of_mem h), e⟩
        · intro hmem
          obtain ⟨d, hd, heq⟩ := List.mem_map.mp hmem
          exact (hall d hd).2.1 (by rw [heq]; exact Finset.mem_insert_self _ _)
      · rintro ⟨⟨-, hall⟩, ⟨hnew, hn⟩, heq⟩
        refine ⟨fun d hd => ?_, hn, heq⟩
        obtain ⟨a, b, e⟩ := hall d hd
        refine ⟨a, fun h => ?_, e⟩
        rcases Finset.mem_insert.mp h with h | h
        · exact hnew (List.mem_map.mpr ⟨d, hd, h⟩)
        · exact b h

/-- A load succeeds exactly on valid configs, and is then the fold of all their
permissions. -/
theorem fromConfig_ok {cfg : FileConfig} {I : String} {t : AuthzTable} :
    fromConfig K cfg I = .ok t ↔ cfg.Valid K I ∧ t = applyClients cfg.clients empty := by
  rw [fromConfig, addClients_ok]
  constructor
  · rintro ⟨hall, hn, heq⟩
    exact ⟨⟨fun c hc => (hall c hc).1, hn, fun c hc => (hall c hc).2.2⟩, heq⟩
  · rintro ⟨hv, heq⟩
    exact ⟨fun c hc => ⟨hv.cn_ne c hc, by simp, hv.perm_ok c hc⟩, hv.cn_nodup, heq⟩

/-! ### What the table says about one CN -/

theorem mem_applyPermissions {cn : String} {perms : List PermissionEntry} {t : AuthzTable}
    {g : Grant} :
    g ∈ (applyPermissions cn perms t).grants ↔
      g ∈ t.grants ∨ ∃ perm ∈ perms, g.1 = cn ∧ perm.Names g.2.1 g.2.2 := by
  induction perms generalizing t with
  | nil => simp [applyPermissions]
  | cons perm perms ih =>
    have hperm : (∃ l ∈ perm.keyLabels, g = (cn, perm.operation, trim l)) ↔
        g.1 = cn ∧ perm.Names g.2.1 g.2.2 := by
      obtain ⟨cn', op, label⟩ := g
      simp only [PermissionEntry.Names, Prod.mk.injEq]
      constructor
      · rintro ⟨l, hl, rfl, rfl, rfl⟩
        exact ⟨rfl, rfl, l, hl, rfl⟩
      · rintro ⟨rfl, rfl, l, hl, rfl⟩
        exact ⟨l, hl, rfl, rfl, rfl⟩
    rw [applyPermissions, List.foldl_cons]
    change g ∈ (applyPermissions cn perms (applyPermission t cn perm)).grants ↔ _
    rw [ih, mem_applyPermission, hperm, or_assoc]
    simp only [List.mem_cons, exists_eq_or_imp]

theorem mem_applyClients {clients : List ClientEntry} {t : AuthzTable} {cn : String}
    {op : Operation} {label : String} :
    (cn, op, label) ∈ (applyClients clients t).grants ↔
      (cn, op, label) ∈ t.grants ∨ ∃ perm ∈ permissionsOf cn clients, perm.Names op label := by
  induction clients generalizing t with
  | nil => simp [applyClients, permissionsOf]
  | cons c clients ih =>
    rw [applyClients, List.foldl_cons]
    change (cn, op, label) ∈ (applyClients clients (applyPermissions _ _ t)).grants ↔ _
    rw [ih, mem_applyPermissions, permissionsOf_cons, or_assoc]
    by_cases h : trim c.cn = cn
    · rw [if_pos h]
      simp only [List.mem_append, or_and_right, exists_or, h, true_and]
    · simp only [if_neg h, List.nil_append, Ne.symm h, false_and, and_false, exists_false,
        false_or]

/-- The allowlists after a permission, as an equation: its own at its grants, the old
ones elsewhere. -/
theorem lookup_applyPermission_eq (t : AuthzTable) (cn : String) (perm : PermissionEntry)
    (cn' : String) (op : Operation) (label : String) :
    (applyPermission t cn perm).peerKeys.lookup (cn', op, label) =
      if cn = cn' then (perm.allowlist op label).or (t.peerKeys.lookup (cn', op, label))
      else t.peerKeys.lookup (cn', op, label) := by
  rw [applyPermission, PermissionEntry.allowlist]
  rcases hpk : perm.peerPublicKeys with _ | raw
  · rw [lookup_grantPlain]
    simp
  dsimp only
  by_cases hmem : cn = cn' ∧ perm.Names op label
  · obtain ⟨rfl, hn⟩ := hmem
    obtain ⟨rfl, l, hl, rfl⟩ := id hn
    rw [if_pos rfl, if_pos hn, lookup_grantDerive_mem (List.mem_map_of_mem hl)]
    rfl
  · rw [lookup_grantDerive_notMem]
    · by_cases hcn : cn = cn'
      · rw [if_pos hcn, if_neg fun h => hmem ⟨hcn, h⟩, Option.none_or]
      · rw [if_neg hcn]
    · intro label' hlabel heq
      obtain ⟨l, hl, rfl⟩ := List.mem_map.mp hlabel
      rw [Prod.mk.injEq, Prod.mk.injEq] at heq
      exact hmem ⟨heq.1.symm, heq.2.1.symm, l, hl, heq.2.2.symm⟩

theorem lookup_applyPermissions (cn : String) (perms : List PermissionEntry) (t : AuthzTable)
    (cn' : String) (op : Operation) (label : String) :
    (applyPermissions cn perms t).peerKeys.lookup (cn', op, label) =
      if cn = cn' then (allowlist op label perms).or (t.peerKeys.lookup (cn', op, label))
      else t.peerKeys.lookup (cn', op, label) := by
  induction perms generalizing t with
  | nil => simp [applyPermissions, allowlist]
  | cons perm perms ih =>
    rw [applyPermissions, List.foldl_cons]
    change (applyPermissions cn perms (applyPermission t cn perm)).peerKeys.lookup _ = _
    rw [ih, lookup_applyPermission_eq, allowlist]
    by_cases hcn : cn = cn'
    · rw [if_pos hcn, if_pos hcn, if_pos hcn, Option.or_assoc]
    · rw [if_neg hcn, if_neg hcn, if_neg hcn]

theorem lookup_applyClients (clients : List ClientEntry) (t : AuthzTable) (cn : String)
    (op : Operation) (label : String) :
    (applyClients clients t).peerKeys.lookup (cn, op, label) =
      (allowlist op label (permissionsOf cn clients)).or (t.peerKeys.lookup (cn, op, label)) := by
  induction clients generalizing t with
  | nil => simp [applyClients, permissionsOf, allowlist]
  | cons c clients ih =>
    rw [applyClients, List.foldl_cons]
    change (applyClients clients (applyPermissions _ _ t)).peerKeys.lookup _ = _
    rw [ih, lookup_applyPermissions, permissionsOf_cons, allowlist_append]
    by_cases h : trim c.cn = cn
    · rw [if_pos h, if_pos h, Option.or_assoc]
    · rw [if_neg h, if_neg h, allowlist, Option.or_none]

/-- A loaded table authorizes what some permission under the CN names. -/
theorem isAuthorized_loaded {cfg : FileConfig} {I : String} {t : AuthzTable}
    (h : fromConfig K cfg I = .ok t) {cn : String} {op : Operation} {label : String} :
    t.isAuthorized cn op label = true ↔
      ∃ perm ∈ permissionsOf cn cfg.clients, perm.Names op label := by
  obtain ⟨-, rfl⟩ := fromConfig_ok.mp h
  rw [isAuthorized_iff, mem_applyClients]
  simp [empty]

/-- A loaded table admits the peer keys of the last such permission. -/
theorem isPeerKeyAuthorized_loaded {cfg : FileConfig} {I : String} {t : AuthzTable}
    (h : fromConfig K cfg I = .ok t) {cn : String} {op : Operation} {label p : String} :
    t.isPeerKeyAuthorized cn op label p = true ↔
      ∃ s, allowlist op label (permissionsOf cn cfg.clients) = some s ∧ p ∈ s := by
  obtain ⟨-, rfl⟩ := fromConfig_ok.mp h
  rw [isPeerKeyAuthorized_iff, lookup_applyClients]
  simp [empty]

/-- Two loaded tables whose configs write the same permissions under a CN give it the
same answers. -/
theorem answers_congr {cfg cfg' : FileConfig} {I I' : String} {t t' : AuthzTable}
    (h : fromConfig K cfg I = .ok t) (h' : fromConfig K cfg' I' = .ok t') {cn : String}
    (hp : permissionsOf cn cfg'.clients = permissionsOf cn cfg.clients) (op : Operation)
    (label : String) :
    t'.isAuthorized cn op label = t.isAuthorized cn op label ∧
      ∀ p, t'.isPeerKeyAuthorized cn op label p = t.isPeerKeyAuthorized cn op label p := by
  refine ⟨?_, fun p => ?_⟩
  · rw [Bool.eq_iff_iff, isAuthorized_loaded h, isAuthorized_loaded h', hp]
  · rw [Bool.eq_iff_iff, isPeerKeyAuthorized_loaded h, isPeerKeyAuthorized_loaded h', hp]

/-! ### The loader accepts the valid configs -/

/-- **The loader accepts exactly the valid configs and grants exactly what they
list.** -/
theorem fromConfig_accepts (K : Crates) (cfg : FileConfig) (I : String) :
    ((∃ t, fromConfig K cfg I = .ok t) ↔ cfg.Valid K I) ∧
      ∀ t, fromConfig K cfg I = .ok t → ∀ cn op label,
        t.isAuthorized cn op label = true ↔
          ∃ c ∈ cfg.clients, trim c.cn = cn ∧ ∃ perm ∈ c.permissions,
            perm.operation = op ∧ ∃ l ∈ perm.keyLabels, trim l = label := by
  refine ⟨⟨?_, ?_⟩, ?_⟩
  · rintro ⟨t, h⟩
    exact (fromConfig_ok.mp h).1
  · intro hv
    exact ⟨_, fromConfig_ok.mpr ⟨hv, rfl⟩⟩
  · intro t h cn op label
    rw [isAuthorized_loaded h]
    constructor
    · rintro ⟨perm, hp, hn⟩
      obtain ⟨c, hc, hcn, hp⟩ := mem_permissionsOf.mp hp
      exact ⟨c, hc, hcn, perm, hp, hn⟩
    · rintro ⟨c, hc, hcn, perm, hp, hn⟩
      exact ⟨perm, mem_permissionsOf.mpr ⟨c, hc, hcn, hp⟩, hn⟩

/-- The reference config is accepted, and its table grants `app-a` a label it lists. -/
theorem fromConfig_accepts_reference :
    Ref.config.Valid Ref.crates "gateway-integrity" ∧
      Ref.table.isAuthorized "app-a" .encrypt "k1" = true := by
  have hl : fromConfig Ref.crates Ref.config "gateway-integrity" = .ok Ref.table := rfl
  obtain ⟨hv, hg⟩ := fromConfig_accepts Ref.crates Ref.config "gateway-integrity"
  refine ⟨hv.mp ⟨Ref.table, hl⟩, (hg Ref.table hl "app-a" .encrypt "k1").mpr ?_⟩
  exact ⟨_, List.mem_cons_self, rfl, ⟨.encrypt, ["k1"], none⟩, by simp, rfl, "k1", by simp, rfl⟩

/-! ### The tables on the way -/

variable (K) in
/-- The table after each successful `add_permission` of one client. -/
def permissionTables (cn integrityKeyLabel : String) :
    List PermissionEntry → AuthzTable → List AuthzTable
  | [], _ => []
  | perm :: rest, t =>
    match addPermission K t cn perm integrityKeyLabel with
    | .error _ => []
    | .ok t => t :: permissionTables cn integrityKeyLabel rest t

variable (K) in
/-- The table after each successful `add_permission`, over the clients in turn. -/
def clientTables (integrityKeyLabel : String) :
    List ClientEntry → Finset String → AuthzTable → List AuthzTable
  | [], _, _ => []
  | client :: rest, seen, t =>
    let cn := trim client.cn
    if cn = "" then []
    else if cn ∈ seen then []
    else
      permissionTables K cn integrityKeyLabel client.permissions t ++
        match addPermissions K cn integrityKeyLabel client.permissions t with
        | .error _ => []
        | .ok t => clientTables integrityKeyLabel rest (insert cn seen) t

theorem permissionTables_inv {t : AuthzTable} {cn I : String} {perms : List PermissionEntry}
    (hcn : cn ≠ "" ∧ trim cn = cn) (hi : Inv K I t) :
    ∀ u ∈ permissionTables K cn I perms t, Inv K I u := by
  induction perms generalizing t with
  | nil => simp [permissionTables]
  | cons perm perms ih =>
    rw [permissionTables]
    rcases hp : addPermission K t cn perm I with e | t'
    · simp
    · have hi' := addPermission_inv hcn hi hp
      exact List.forall_mem_cons.mpr ⟨hi', ih hi'⟩

theorem clientTables_inv {t : AuthzTable} {I : String} {clients : List ClientEntry}
    {seen : Finset String} (hi : Inv K I t) :
    ∀ u ∈ clientTables K I clients seen t, Inv K I u := by
  induction clients generalizing t seen with
  | nil => simp [clientTables]
  | cons client clients ih =>
    rw [clientTables]
    by_cases hcn : trim client.cn = ""
    · simp [hcn]
    rw [if_neg hcn]
    by_cases hs : trim client.cn ∈ seen
    · simp [hs]
    rw [if_neg hs]
    have hcn' : trim client.cn ≠ "" ∧ trim (trim client.cn) = trim client.cn :=
      ⟨hcn, trim_trim _⟩
    intro u hu
    rcases List.mem_append.mp hu with hu | hu
    · exact permissionTables_inv hcn' hi u hu
    · rcases hp : addPermissions K (trim client.cn) I client.permissions t with e | t'
      · rw [hp] at hu
        exact absurd hu (by simp)
      · rw [hp] at hu
        exact ih (addPermissions_inv hcn' hi hp) u hu

/-- The tables end in the one the loader returns. -/
theorem permissionTables_getLastD {t t' : AuthzTable} {cn I : String}
    {perms : List PermissionEntry} (h : addPermissions K cn I perms t = .ok t') :
    (permissionTables K cn I perms t).getLastD t = t' := by
  induction perms generalizing t with
  | nil =>
    rw [addPermissions, Except.ok.injEq] at h
    exact h
  | cons perm perms ih =>
    rw [addPermissions] at h
    rw [permissionTables]
    rcases hp : addPermission K t cn perm I with e | u
    · rw [hp] at h
      exact absurd h (by simp)
    · rw [hp] at h
      dsimp only
      rw [List.getLastD_cons]
      exact ih h

theorem clientTables_getLastD {t t' : AuthzTable} {I : String} {clients : List ClientEntry}
    {seen : Finset String} (h : addClients K I clients seen t = .ok t') :
    (clientTables K I clients seen t).getLastD t = t' := by
  induction clients generalizing t seen with
  | nil =>
    rw [addClients, Except.ok.injEq] at h
    exact h
  | cons client clients ih =>
    rw [addClients] at h
    rw [clientTables]
    by_cases hcn : trim client.cn = ""
    · rw [if_pos hcn] at h
      exact absurd h (by simp)
    rw [if_neg hcn] at h ⊢
    by_cases hs : trim client.cn ∈ seen
    · rw [if_pos hs] at h
      exact absurd h (by simp)
    rw [if_neg hs] at h ⊢
    rcases hp : addPermissions K (trim client.cn) I client.permissions t with e | u
    · rw [hp] at h
      exact absurd h (by simp)
    · rw [hp] at h
      dsimp only
      rw [← ih h, ← permissionTables_getLastD hp]
      -- the last table of the rest, or, if the rest adds nothing, this client's last
      rcases clientTables K I clients _ _ with _ | ⟨v, vs⟩
      · simp
      · simp [List.getLastD_eq_getLast?]

/-- **The representation invariant, on the way and at the end.**  Every config text
the loader accepts leads through tables that satisfy it, the last of which is the one
returned. -/
theorem fromStr_inv {yaml : String → Except String FileConfig} {text I : String} {t : AuthzTable}
    (h : fromStr K yaml text I = .ok t) :
    Inv K I t ∧ ∃ cfg, yaml text = .ok cfg ∧
      (clientTables K I cfg.clients ∅ empty).getLastD empty = t ∧
      ∀ u ∈ clientTables K I cfg.clients ∅ empty, Inv K I u := by
  rw [fromStr] at h
  rcases hy : yaml text with e | cfg
  · rw [hy] at h
    exact absurd h (by simp)
  · rw [hy] at h
    exact ⟨fromConfig_inv h, cfg, rfl, clientTables_getLastD h, clientTables_inv (inv_empty I)⟩

/-- The reference config, behind a parser that yields it. -/
theorem fromStr_inv_reference : Inv Ref.crates "gateway-integrity" Ref.table :=
  (fromStr_inv (show fromStr Ref.crates (fun _ => .ok Ref.config) "" "gateway-integrity" =
    .ok Ref.table from rfl)).1

/-! ### Dropping and reordering clients -/

/-- **What a config says about one client is a matter of that client's entry.**  With
some clients dropped and the rest reordered the config is still accepted, every client
kept gets the same answers, and a client dropped gets nothing. -/
theorem fromConfig_local {cfg : FileConfig} {I : String} {t : AuthzTable}
    (h : fromConfig K cfg I = .ok t) {clients : List ClientEntry}
    (hsub : clients.Subperm cfg.clients) :
    ∃ t', fromConfig K ⟨clients⟩ I = .ok t' ∧
      (∀ c ∈ clients, ∀ op label,
        t'.isAuthorized (trim c.cn) op label = t.isAuthorized (trim c.cn) op label ∧
        ∀ p, t'.isPeerKeyAuthorized (trim c.cn) op label p =
          t.isPeerKeyAuthorized (trim c.cn) op label p) ∧
      ∀ c ∈ cfg.clients, c ∉ clients → ∀ op label,
        t'.isAuthorized (trim c.cn) op label = false ∧
        ∀ p, t'.isPeerKeyAuthorized (trim c.cn) op label p = false := by
  obtain ⟨hv, -⟩ := fromConfig_ok.mp h
  have hmem : ∀ c ∈ clients, c ∈ cfg.clients := fun c hc => hsub.subset hc
  have hnodup : (clients.map fun c => trim c.cn).Nodup := by
    obtain ⟨l, hperm, hl⟩ := hsub
    rw [← (hperm.map _).nodup_iff]
    exact hv.cn_nodup.sublist (hl.map _)
  have hv' : FileConfig.Valid K I ⟨clients⟩ :=
    ⟨fun c hc => hv.cn_ne c (hmem c hc), hnodup, fun c hc => hv.perm_ok c (hmem c hc)⟩
  have h' := fromConfig_ok.mpr ⟨hv', rfl⟩
  refine ⟨_, h', fun c hc op label => ?_, fun c hc hnot op label => ?_⟩
  · refine answers_congr h h' ?_ op label
    exact (permissionsOf_eq hnodup hc).trans (permissionsOf_eq hv.cn_nodup (hmem c hc)).symm
  · -- its CN was its own, so nobody left has it
    have hnil : permissionsOf (trim c.cn) clients = [] := by
      refine permissionsOf_eq_nil fun d hd heq => hnot ?_
      have hinj := List.inj_on_of_nodup_map hv.cn_nodup
      rw [← hinj (hmem d hd) hc heq]
      exact hd
    refine ⟨?_, fun p => ?_⟩
    · rw [Bool.eq_false_iff, ne_eq, isAuthorized_loaded h', hnil]
      simp
    · rw [Bool.eq_false_iff, ne_eq, isPeerKeyAuthorized_loaded h', hnil]
      simp [allowlist]

/-- The reference config without `app-a`: nothing changes for `app-b`, and `app-a` is
out. -/
theorem fromConfig_local_blocked :
    ∃ t', fromConfig Ref.crates ⟨Ref.config.clients.tail⟩ "gateway-integrity" = .ok t' ∧
      t'.isAuthorized "app-b" .decrypt "k1" = true ∧
      t'.isAuthorized "app-a" .encrypt "k1" = false := by
  have hl : fromConfig Ref.crates Ref.config "gateway-integrity" = .ok Ref.table := rfl
  obtain ⟨t', h', hkept, hdrop⟩ := fromConfig_local hl (List.tail_sublist _).subperm
  refine ⟨t', h', ?_, ?_⟩
  · exact (hkept _ (List.mem_cons_self) .decrypt "k1").1.trans (by decide)
  · refine (hdrop _ List.mem_cons_self ?_ .encrypt "k1").1
    simp [Ref.config]

end AuthzTable

end PicoHsm
