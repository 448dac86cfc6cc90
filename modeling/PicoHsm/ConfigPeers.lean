/-
When the allowlists of a loaded table are the listed ones.

Grants are collected in a set, allowlists are inserted into a map, so of several
permissions of one client that name the same derive operation and label the last one
prevails.

* `peerKeys_exact_iff` — the table admits exactly the listed peer keys when the last
  such permission lists what the earlier ones list, and does so whatever the order of
  the permissions when they all list the same.
-/
import Mathlib.Data.List.Forall2
import PicoHsm.ConfigExact

namespace PicoHsm

open Text

namespace AuthzTable

variable {K : Crates}

/-! ### Allowlists and the order of entries -/

/-- Some permission of the client with this CN names `(op, label)` and lists `p`. -/
def Listed (cfg : FileConfig) (cn : String) (op : Operation) (label p : String) : Prop :=
  ∃ c ∈ cfg.clients, trim c.cn = cn ∧ ∃ perm ∈ c.permissions,
    perm.Names op label ∧ perm.ListsPeer p

/-- The table admits exactly the listed peer keys. -/
def PeerKeysExact (cfg : FileConfig) (t : AuthzTable) : Prop :=
  ∀ cn op label p, op.isDerive = true →
    (t.isPeerKeyAuthorized cn op label p = true ↔ Listed cfg cn op label p)

/-- The same clients in the same order, with the permissions of each written in any
order. -/
def Reordered (cfg cfg' : FileConfig) : Prop :=
  List.Forall₂ (fun c c' => c.cn = c'.cn ∧ c.permissions.Perm c'.permissions)
    cfg.clients cfg'.clients

/-- With the permissions written in another order, the loader would decide the same. -/
def OrderFree (K : Crates) (I : String) (cfg : FileConfig) (t : AuthzTable) : Prop :=
  ∀ cfg' t', Reordered cfg cfg' → fromConfig K cfg' I = .ok t' →
    ∀ cn op label p, op.isDerive = true →
      t'.isPeerKeyAuthorized cn op label p = t.isPeerKeyAuthorized cn op label p

/-- The last permission of a client that names a derive operation and label lists every
peer key that an earlier one lists. -/
def LastListsAll (cfg : FileConfig) : Prop :=
  ∀ c ∈ cfg.clients, ∀ before perm after op label, c.permissions = before ++ perm :: after →
    op.isDerive = true → perm.Names op label → (∀ q ∈ after, ¬ q.Names op label) →
      ∀ q ∈ before, q.Names op label → ∀ p, q.ListsPeer p → perm.ListsPeer p

/-- Permissions of one client that name the same derive operation and label list the
same peer keys. -/
def AgreeOnPeers (cfg : FileConfig) : Prop :=
  ∀ c ∈ cfg.clients, ∀ perm ∈ c.permissions, ∀ perm' ∈ c.permissions, ∀ op label,
    op.isDerive = true → perm.Names op label → perm'.Names op label →
      ∀ p, perm.ListsPeer p → perm'.ListsPeer p

theorem AgreeOnPeers.lastListsAll {cfg : FileConfig} (h : AgreeOnPeers cfg) :
    LastListsAll cfg := by
  intro c hc before perm after op label heq hd hn _ q hq hqn
  have hperm : perm ∈ c.permissions := by simp [heq]
  have hq' : q ∈ c.permissions := by simp [heq, hq]
  exact h c hc q hq' perm hperm op label hd hqn hn

theorem Reordered.symm {cfg cfg' : FileConfig} (h : Reordered cfg cfg') : Reordered cfg' cfg :=
  h.flip.imp fun _ _ h => ⟨h.1.symm, h.2.symm⟩

/-- Every client has its counterpart. -/
theorem Reordered.exists_client {cfg cfg' : FileConfig} (h : Reordered cfg cfg') {c : ClientEntry}
    (hc : c ∈ cfg.clients) :
    ∃ c' ∈ cfg'.clients, c.cn = c'.cn ∧ c.permissions.Perm c'.permissions := by
  obtain ⟨clients⟩ := cfg
  obtain ⟨clients'⟩ := cfg'
  change List.Forall₂ _ clients clients' at h
  change c ∈ clients at hc
  induction h with
  | nil => exact absurd hc (by simp)
  | cons hd _ ih =>
    rcases List.mem_cons.mp hc with rfl | hc
    · exact ⟨_, List.mem_cons_self, hd⟩
    · obtain ⟨c', hc', hcc⟩ := ih hc
      exact ⟨c', List.mem_cons_of_mem _ hc', hcc⟩

theorem Reordered.listed {cfg cfg' : FileConfig} (h : Reordered cfg cfg') {cn : String}
    {op : Operation} {label p : String} (hl : Listed cfg cn op label p) :
    Listed cfg' cn op label p := by
  obtain ⟨c, hc, hcn, perm, hp, hn⟩ := hl
  obtain ⟨c', hc', heq, hperm⟩ := h.exists_client hc
  exact ⟨c', hc', heq ▸ hcn, perm, hperm.mem_iff.mp hp, hn⟩

theorem Reordered.agreeOnPeers {cfg cfg' : FileConfig} (h : Reordered cfg cfg')
    (ha : AgreeOnPeers cfg) : AgreeOnPeers cfg' := by
  intro c' hc' perm hp perm' hp'
  obtain ⟨c, hc, -, hperm⟩ := h.symm.exists_client hc'
  exact ha c hc perm (hperm.mem_iff.mp hp) perm' (hperm.mem_iff.mp hp')

/-- The order of permissions does not matter to the checks. -/
theorem Reordered.valid {cfg cfg' : FileConfig} {I : String} (h : Reordered cfg cfg')
    (hv : cfg.Valid K I) : cfg'.Valid K I := by
  have hcns : cfg'.clients.map (fun c => trim c.cn) = cfg.clients.map fun c => trim c.cn := by
    refine List.forall₂_eq_eq_eq ▸ ?_
    rw [List.forall₂_map_left_iff, List.forall₂_map_right_iff]
    exact h.symm.imp fun _ _ h => by rw [h.1]
  refine ⟨fun c' hc' => ?_, hcns ▸ hv.cn_nodup, fun c' hc' perm hp => ?_⟩
  · obtain ⟨c, hc, heq, -⟩ := h.symm.exists_client hc'
    rw [heq]
    exact hv.cn_ne c hc
  · obtain ⟨c, hc, -, hperm⟩ := h.symm.exists_client hc'
    exact hv.perm_ok c hc perm (hperm.mem_iff.mp hp)

/-- Any one permission of a client can be written last. -/
theorem exists_reordered_last {cfg : FileConfig} {c : ClientEntry} (hc : c ∈ cfg.clients)
    {perm : PermissionEntry} (hp : perm ∈ c.permissions) :
    ∃ cfg' perms, Reordered cfg cfg' ∧ ⟨c.cn, perms ++ [perm]⟩ ∈ cfg'.clients := by
  obtain ⟨clients, rest, hcl⟩ := List.append_of_mem hc
  obtain ⟨before, after, hpl⟩ := List.append_of_mem hp
  refine ⟨⟨clients ++ ⟨c.cn, (before ++ after) ++ [perm]⟩ :: rest⟩, before ++ after, ?_, by simp⟩
  rw [Reordered, hcl]
  have hrefl : ∀ cs : List ClientEntry,
      List.Forall₂ (fun c c' => c.cn = c'.cn ∧ c.permissions.Perm c'.permissions) cs cs :=
    fun cs => List.forall₂_same.mpr fun c _ => ⟨rfl, List.Perm.refl _⟩
  refine List.rel_append (hrefl clients) (.cons ⟨rfl, ?_⟩ (hrefl rest))
  rw [hpl]
  exact List.perm_middle.trans (List.perm_append_singleton perm (before ++ after)).symm

/-- An allowlist on its way is the last entry's that names the label. -/
theorem allowlist_last {op : Operation} {label : String} {before after : List PermissionEntry}
    {perm : PermissionEntry} {s : Finset String} (hs : perm.allowlist op label = some s)
    (hafter : ∀ q ∈ after, ¬ q.Names op label) :
    allowlist op label (before ++ perm :: after) = some s := by
  have hnone : allowlist op label after = none := by
    rcases hl : allowlist op label after with _ | s'
    · rfl
    · obtain ⟨q, hq, hqs⟩ := exists_of_allowlist hl
      rw [PermissionEntry.allowlist, if_neg (hafter q hq)] at hqs
      exact absurd hqs (by simp)
  rw [allowlist_append, allowlist, hnone, Option.none_or, hs, Option.some_or]

/-- In a list with an entry of a kind, there is a last one. -/
theorem exists_last {op : Operation} {label : String} {perms : List PermissionEntry}
    {q : PermissionEntry} (hq : q ∈ perms) (hn : q.Names op label) :
    ∃ before perm after, perms = before ++ perm :: after ∧ perm.Names op label ∧
      ∀ q ∈ after, ¬ q.Names op label := by
  induction perms generalizing q with
  | nil => exact absurd hq (by simp)
  | cons perm perms ih =>
    by_cases hlater : ∃ q ∈ perms, q.Names op label
    · obtain ⟨q', hq', hn'⟩ := hlater
      obtain ⟨before, last, after, rfl, hlast, hafter⟩ := ih hq' hn'
      exact ⟨perm :: before, last, after, rfl, hlast, hafter⟩
    · push Not at hlater
      rcases List.mem_cons.mp hq with rfl | hq
      · exact ⟨[], q, perms, rfl, hn, hlater⟩
      · exact absurd hn (hlater q hq)

/-- A stored allowlist holds only listed peer keys. -/
theorem listed_of_isPeerKeyAuthorized {cfg : FileConfig} {I : String} {t : AuthzTable}
    (h : fromConfig K cfg I = .ok t) {cn : String} {op : Operation} {label p : String}
    (hp : t.isPeerKeyAuthorized cn op label p = true) : Listed cfg cn op label p := by
  obtain ⟨s, hs, hps⟩ := (isPeerKeyAuthorized_loaded h).mp hp
  obtain ⟨perm, hperm, hs⟩ := exists_of_allowlist hs
  obtain ⟨c, hc, hcn, hperm⟩ := mem_permissionsOf.mp hperm
  exact ⟨c, hc, hcn, perm, hperm, PermissionEntry.allowlist_iff.mp ⟨s, hs, hps⟩⟩

/-- The peer keys admitted at a label are those of the last permission that names it. -/
theorem isPeerKeyAuthorized_last {cfg : FileConfig} {I : String} {t : AuthzTable}
    (h : fromConfig K cfg I = .ok t) {c : ClientEntry} (hc : c ∈ cfg.clients)
    {before after : List PermissionEntry} {perm : PermissionEntry} {op : Operation}
    {label : String} (heq : c.permissions = before ++ perm :: after) (hd : op.isDerive = true)
    (hn : perm.Names op label) (hafter : ∀ q ∈ after, ¬ q.Names op label) (p : String) :
    t.isPeerKeyAuthorized (trim c.cn) op label p = true ↔ perm.ListsPeer p := by
  have hv := (fromConfig_ok.mp h).1
  -- a derive permission has an allowlist
  obtain ⟨raw, hraw⟩ : ∃ raw, perm.peerPublicKeys = some raw := by
    have hvp := hv.perm_ok c hc perm (by simp [heq])
    rw [← Option.isSome_iff_exists, ← hvp.derive_iff, hn.1]
    exact hd
  have hs : perm.allowlist op label = some (raw.map trim).toFinset := by
    rw [PermissionEntry.allowlist, if_pos hn, hraw]
    rfl
  rw [isPeerKeyAuthorized_loaded h, permissionsOf_eq hv.cn_nodup hc, heq,
    allowlist_last hs hafter, ← hs, PermissionEntry.allowlist_iff]
  exact and_iff_right hn

/-- The first half of the condition. -/
theorem peerKeysExact_iff {cfg : FileConfig} {I : String} {t : AuthzTable}
    (h : fromConfig K cfg I = .ok t) : PeerKeysExact cfg t ↔ LastListsAll cfg := by
  constructor
  · intro hex c hc before perm after op label heq hd hn hafter q hq hqn p hqp
    rw [← isPeerKeyAuthorized_last h hc heq hd hn hafter, hex _ _ _ _ hd]
    exact ⟨c, hc, rfl, q, by simp [heq, hq], hqn, hqp⟩
  · intro hall cn op label p hd
    refine ⟨listed_of_isPeerKeyAuthorized h, ?_⟩
    rintro ⟨c, hc, rfl, q, hq, hqn, hqp⟩
    obtain ⟨before, perm, after, heq, hn, hafter⟩ := exists_last hq hqn
    rw [isPeerKeyAuthorized_last h hc heq hd hn hafter]
    -- `q` stands before the last one, or is it
    rw [heq, List.mem_append, List.mem_cons] at hq
    rcases hq with hq | rfl | hq
    · exact hall c hc before perm after op label heq hd hn hafter q hq hqn p hqp
    · exact hqp
    · exact absurd hqn (hafter q hq)

/-- **When the allowlists are exact.**  Of an accepted config, the peer keys admitted
are exactly those listed if and only if the last permission that names a derive
operation and label lists what the client's earlier ones list; and this is so whatever
the order of the permissions if and only if they all list the same. -/
theorem peerKeys_exact_iff {cfg : FileConfig} {I : String} {t : AuthzTable}
    (h : fromConfig K cfg I = .ok t) :
    (PeerKeysExact cfg t ↔ LastListsAll cfg) ∧
      (PeerKeysExact cfg t ∧ OrderFree K I cfg t ↔ AgreeOnPeers cfg) := by
  refine ⟨peerKeysExact_iff h, ?_, fun ha => ⟨(peerKeysExact_iff h).mpr ha.lastListsAll, ?_⟩⟩
  · -- write `perm'` last: what `perm` lists is still admitted, so `perm'` lists it
    rintro ⟨hex, hfree⟩ c hc perm hp perm' hp' op label hd hn hn' p hlp
    obtain ⟨cfg', perms, hre, hc'⟩ := exists_reordered_last hc hp'
    have h' := fromConfig_ok.mpr ⟨hre.valid (fromConfig_ok.mp h).1, rfl⟩
    rw [← isPeerKeyAuthorized_last h' hc' rfl hd hn' (by simp), hfree _ _ hre h' _ _ _ _ hd,
      hex _ _ _ _ hd]
    exact ⟨c, hc, rfl, perm, hp, hn, hlp⟩
  · intro cfg' t' hre h' cn op label p hd
    have hex := (peerKeysExact_iff h).mpr ha.lastListsAll
    have hex' := (peerKeysExact_iff h').mpr (hre.agreeOnPeers ha).lastListsAll
    rw [Bool.eq_iff_iff, hex _ _ _ _ hd, hex' _ _ _ _ hd]
    exact ⟨hre.symm.listed, hre.listed⟩

/-- The reference config lists each label once, so its allowlists are exact. -/
theorem peerKeys_exact_reference :
    PeerKeysExact Ref.config Ref.table ∧
      OrderFree Ref.crates "gateway-integrity" Ref.config Ref.table := by
  have hl : fromConfig Ref.crates Ref.config "gateway-integrity" = .ok Ref.table := rfl
  refine (peerKeys_exact_iff hl).2.mpr ?_
  intro c hc perm hp perm' hp' op label hd hn hn' p hlp
  simp only [Ref.config, List.mem_cons, List.not_mem_nil, or_false] at hc
  rcases hc with rfl | rfl
  · simp only [List.mem_cons, List.not_mem_nil, or_false] at hp hp'
    obtain ⟨rfl, -⟩ := hn
    rcases hp with rfl | rfl | rfl
    · exact absurd hd (by decide)
    · exact absurd hd (by decide)
    · rcases hp' with rfl | rfl | rfl
      · exact absurd hn'.1 (by decide)
      · exact absurd hn'.1 (by decide)
      · exact hlp
  · simp only [List.mem_cons, List.not_mem_nil, or_false] at hp hp'
    obtain ⟨rfl, -⟩ := hn
    rcases hp with rfl | rfl
    · exact absurd hd (by decide)
    · rcases hp' with rfl | rfl
      · exact absurd hn'.1 (by decide)
      · exact hlp

/-- Two permissions of one client for the same operation and label. -/
def twoPeers : FileConfig :=
  ⟨[⟨"app-c", [⟨.deriveAndEncrypt, ["dk"], some ["cGVlci1h"]⟩,
    ⟨.deriveAndEncrypt, ["dk"], some ["cGVlci1i"]⟩]⟩]⟩

/-- The config is accepted and lists the first peer key, which the table refuses. -/
theorem not_exact_twoPeers :
    ∃ t, fromConfig Ref.crates twoPeers "gateway-integrity" = .ok t ∧
      Listed twoPeers "app-c" .deriveAndEncrypt "dk" "cGVlci1h" ∧
      t.isPeerKeyAuthorized "app-c" .deriveAndEncrypt "dk" "cGVlci1h" = false ∧
      ¬ PeerKeysExact twoPeers t := by
  have hl : Listed twoPeers "app-c" .deriveAndEncrypt "dk" "cGVlci1h" :=
    ⟨_, List.mem_cons_self, rfl, _, List.mem_cons_self, ⟨rfl, "dk", by simp, rfl⟩, _, rfl,
      "cGVlci1h", by simp, rfl⟩
  refine ⟨_, rfl, hl, by decide, fun hex => ?_⟩
  exact absurd ((hex "app-c" .deriveAndEncrypt "dk" "cGVlci1h" rfl).mpr hl) (by decide)

end AuthzTable

end PicoHsm
