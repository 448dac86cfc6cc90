/-
Tamper evidence of the audit log.

The hash of an entry is taken over its seven other fields in a framed encoding, so
with no collision among the pre-images that occur, equal hashes mean equal entries;
and `GENESIS` is never a hash, since an encoded digest has 44 characters.  The
general theorems on hash chains then apply to log files: what a file's last hash
commits to is its whole entry sequence.
-/
import PicoHsm.Audit
import PicoHsm.ReferenceJson

namespace PicoHsm

open Text

namespace Entry

/-- The parts the hash is taken over. -/
def parts (e : Entry) : List (List UInt8) :=
  [utf8 e.prevHashB64, utf8 e.ts, utf8 e.cn, utf8 e.operation, utf8 e.keyLabel,
    utf8 e.outcome.json, utf8 e.detail]

/-- Every field fits in memory; the length prefix has 64 bits. -/
def InMemory (e : Entry) : Prop := Framing.Short e.parts

theorem preimage_inj {e f : Entry} (he : e.InMemory) (hf : f.InMemory)
    (h : e.preimage = f.preimage) (hh : e.hashB64 = f.hashB64) : e = f := by
  have hp : e.parts = f.parts := Framing.frames_inj rfl he hf h
  simp only [parts, List.cons.injEq, and_true] at hp
  obtain ⟨h₁, h₂, h₃, h₄, h₅, h₆, h₇⟩ := hp
  obtain ⟨ts, cn, op, label, outcome, detail, prev, hash⟩ := e
  obtain ⟨ts', cn', op', label', outcome', detail', prev', hash'⟩ := f
  simp only [Entry.mk.injEq]
  exact ⟨utf8_inj h₂, utf8_inj h₃, utf8_inj h₄, utf8_inj h₅, Outcome.json_inj (utf8_inj h₆),
    utf8_inj h₇, utf8_inj h₁, hh⟩

end Entry

/-- No two different pre-images among these entries have the same digest. -/
def NoCollision (K : Crates) (es : List Entry) : Prop :=
  ∀ e ∈ es, ∀ f ∈ es, K.sha256 e.preimage = K.sha256 f.preimage → e.preimage = f.preimage

section

variable {K : Crates} {J : Json Entry} {path : String} {es fs : List Entry}

theorem NoCollision.mono {ds : List Entry} (h : NoCollision K es) (hs : ds ⊆ es) :
    NoCollision K ds := fun e he f hf => h e (hs he) f (hs hf)

theorem faithful_of_noCollision (hB : K.b64.Lawful) (hm : ∀ e ∈ es ++ fs, e.InMemory)
    (hnc : NoCollision K (es ++ fs)) : HashChain.Faithful (Entry.links K) es fs := by
  intro a ha b hb hd hs
  have ha' : a ∈ es ++ fs := List.mem_append_left _ ha
  have hb' : b ∈ es ++ fs := List.mem_append_right _ hb
  exact Entry.preimage_inj (hm a ha') (hm b hb') (hnc a ha' b hb' (hB.encode_inj hd)) hs

theorem fresh_genesis (h44 : ∀ m, (K.b64.encode (K.sha256 m)).length = 44) (es : List Entry) :
    HashChain.Fresh (Entry.links K) genesis es := by
  intro e _ he
  have hlen := h44 e.preimage
  rw [show K.b64.encode (K.sha256 e.preimage) = genesis from he] at hlen
  exact absurd hlen (by decide)

/-- **Tamper evidence.**  Two accepted logs with the same last hash have the same
entries; entries taken from an accepted log, in whatever order and number, are
accepted exactly when they are a prefix of it; and a log in which some entry was
changed, with every stored hash kept, is refused. -/
theorem verifyChain_tamper_evident {F G : FileRead} (hB : K.b64.Lawful)
    (h44 : ∀ m, (K.b64.encode (K.sha256 m)).length = 44)
    (hF : F.entries J = some es) (hG : G.entries J = some fs)
    (hm : ∀ e ∈ es ++ fs, e.InMemory) (hnc : NoCollision K (es ++ fs)) :
    (∀ h, verifyChain K J path F = .ok h → verifyChain K J path G = .ok h → es = fs) ∧
    (∀ h, verifyChain K J path F = .ok h → fs ⊆ es →
      ((∃ h', verifyChain K J path G = .ok h') ↔ fs <+: es)) ∧
    (∀ h, verifyChain K J path F = .ok h → fs.map Entry.hashB64 = es.map Entry.hashB64 →
      fs ≠ es → ∃ e, verifyChain K J path G = .error e) := by
  have hcheck : ∀ {f : FileRead} {ds : List Entry} {h : String}, f.entries J = some ds →
      (verifyChain K J path f = .ok h ↔ HashChain.check (Entry.links K) genesis ds = some h) := by
    intro f ds h hf
    rw [verifyChain_ok, hf]
    simp
  have hsame : ∀ {h : String}, HashChain.check (Entry.links K) genesis es = some h →
      HashChain.check (Entry.links K) genesis fs = some h → es = fs := fun hc hd =>
    HashChain.check_inj (faithful_of_noCollision hB hm hnc) (fresh_genesis h44 es)
      (fresh_genesis h44 fs) hc hd
  refine ⟨fun h hf hg => hsame ((hcheck hF).mp hf) ((hcheck hG).mp hg), ?_, ?_⟩
  · intro h hf hsub
    have hself : HashChain.Faithful (Entry.links K) es es := by
      have hes : es ++ es ⊆ es ++ fs := by simp
      exact faithful_of_noCollision hB (fun e he => hm e (hes he)) (hnc.mono hes)
    rw [← HashChain.check_isSome_iff_prefix hself (fresh_genesis h44 es) ((hcheck hF).mp hf) hsub,
      Option.isSome_iff_exists]
    exact exists_congr fun h' => hcheck hG
  · intro h hf hhash hne
    rcases hg : verifyChain K J path G with e | h'
    · exact ⟨e, rfl⟩
    -- had it been accepted, it would end in the same stored hash
    exfalso
    refine hne (hsame ((hcheck hF).mp hf) ?_).symm
    have hf' := (hcheck hF).mp hf
    have hg' := (hcheck hG).mp hg
    rcases List.eq_nil_or_concat' es with rfl | ⟨es, a, rfl⟩
    · rw [List.map_nil, List.map_eq_nil_iff] at hhash
      exact absurd hhash hne
    · rcases List.eq_nil_or_concat' fs with rfl | ⟨fs, b, rfl⟩
      · simp at hhash
      · have hab : b.hashB64 = a.hashB64 := by
          rw [List.map_append, List.map_append] at hhash
          simpa using (List.append_inj' hhash rfl).2
        have ha := (HashChain.check_concat.mp hf').2.2
        have hb := (HashChain.check_concat.mp hg').2.2
        rw [hg', ← hb, ← ha]
        exact congrArg some hab

end

/-! ### A deleted, a moved and a renamed entry -/

/-- The file with a line for each of these entries. -/
def linesFile (es : List Entry) : FileRead :=
  .content (es.flatMap fun e => lineBytes (String.ofList (Ref.writeEntry e)))

theorem entries_linesFile (es : List Entry) : (linesFile es).entries Ref.entryJson = some es := by
  have hline : ∀ e, Ref.entryJson.toString e = .ok (String.ofList (Ref.writeEntry e)) :=
    fun _ => rfl
  suffices H : Terminated (es.flatMap fun e => lineBytes (String.ofList (Ref.writeEntry e))) ∧
      (linesFile es).entries Ref.entryJson = some es from H.2
  -- lines are added at the end of the file
  induction es using List.reverseRecOn with
  | nil => exact ⟨terminated_nil, rfl⟩
  | append_singleton es e ih =>
    obtain ⟨hT, hes⟩ := ih
    rw [linesFile, FileRead.entries] at hes ⊢
    rw [List.flatMap_append, List.flatMap_singleton]
    exact ⟨hT.append (terminated_lineBytes Ref.entryJson_lawful (hline e)),
      parseLog_append_line Ref.entryJson_lawful hT hes (hline e)⟩

/-- A signing request in the log, and another client's behind it. -/
def intentEntry : Entry :=
  AppendArgs.entry Ref.crates ⟨"app-a", "sign", "k1", .intent, ""⟩ "2026-01-01T00:00:00.000Z"
    genesis

def closingEntry : Entry :=
  AppendArgs.entry Ref.crates ⟨"app-a", "sign", "k1", .authorized, ""⟩ "2026-01-01T00:00:01.000Z"
    intentEntry.hashB64

def laterEntry : Entry :=
  AppendArgs.entry Ref.crates ⟨"app-b", "sign", "k2", .intent, ""⟩ "2026-01-01T00:00:02.000Z"
    closingEntry.hashB64

def renamedEntry : Entry := { closingEntry with cn := "app-b" }

theorem verifyChain_refuses_tampered :
    verifyChain Ref.crates Ref.entryJson "audit.jsonl"
        (linesFile [intentEntry, closingEntry, laterEntry]) = .ok laterEntry.hashB64 ∧
      (∃ h, verifyChain Ref.crates Ref.entryJson "audit.jsonl"
        (linesFile [intentEntry, closingEntry]) = .ok h) ∧
      (∀ h, verifyChain Ref.crates Ref.entryJson "audit.jsonl"
        (linesFile [intentEntry, laterEntry]) ≠ .ok h) ∧
      (∀ h, verifyChain Ref.crates Ref.entryJson "audit.jsonl"
        (linesFile [closingEntry, intentEntry, laterEntry]) ≠ .ok h) ∧
      ∃ e, verifyChain Ref.crates Ref.entryJson "audit.jsonl"
        (linesFile [intentEntry, renamedEntry, laterEntry]) = .error e := by
  let all : List Entry := [intentEntry, closingEntry, laterEntry, renamedEntry]
  have hm : ∀ e ∈ all, e.InMemory := by
    unfold Entry.InMemory Framing.Short
    decide +kernel
  have hnc : NoCollision Ref.crates all := by
    unfold NoCollision
    decide +kernel
  have hok : verifyChain Ref.crates Ref.entryJson "audit.jsonl"
      (linesFile [intentEntry, closingEntry, laterEntry]) = .ok laterEntry.hashB64 :=
    verifyChain_ok.mpr ⟨_, entries_linesFile _, HashChain.check_cons.mpr ⟨rfl, rfl,
      HashChain.check_cons.mpr ⟨rfl, rfl, HashChain.check_cons.mpr ⟨rfl, rfl, rfl⟩⟩⟩⟩
  have hall : ∀ {fs}, fs ⊆ all → [intentEntry, closingEntry, laterEntry] ++ fs ⊆ all := fun h =>
    List.append_subset.mpr ⟨by simp [all], h⟩
  have hkept : ∀ fs, fs ⊆ [intentEntry, closingEntry, laterEntry] →
      ((∃ h, verifyChain Ref.crates Ref.entryJson "audit.jsonl" (linesFile fs) = .ok h) ↔
        fs <+: [intentEntry, closingEntry, laterEntry]) := by
    intro fs hfs
    have hsub : fs ⊆ all := List.Subset.trans hfs (by simp [all])
    exact (verifyChain_tamper_evident Ref.base64_lawful Ref.encode_digest_length
      (entries_linesFile _) (entries_linesFile fs) (fun e he => hm e (hall hsub he))
      (hnc.mono (hall hsub))).2.1 _ hok hfs
  have hrenamed : [intentEntry, renamedEntry, laterEntry] ⊆ all := by simp [all]
  refine ⟨hok, (hkept _ (by simp)).mpr ⟨_, rfl⟩, fun h hh => ?_, fun h hh => ?_, ?_⟩
  · have hpre := (hkept _ (by simp)).mp ⟨h, hh⟩
    exact absurd hpre (by decide +kernel)
  · have hpre := (hkept _ (by simp)).mp ⟨h, hh⟩
    exact absurd hpre (by decide +kernel)
  · exact (verifyChain_tamper_evident Ref.base64_lawful Ref.encode_digest_length
      (entries_linesFile _) (entries_linesFile _) (fun e he => hm e (hall hrenamed he))
      (hnc.mono (hall hrenamed))).2.2 _ hok rfl (by decide +kernel)

end PicoHsm
