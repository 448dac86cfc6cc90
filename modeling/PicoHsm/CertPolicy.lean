/-
The certificate policy of a connection, in whole days and to the second.

The gateway compares `num_days` of the validity and of the time left, which are
truncated toward zero.  A bound from zero on thereby leaves room for nearly one more
day, a negative one is exact (`tdiv_le_iff`).

* `warns_iff` — what a finished run says about the two day counts;
* `lifetime_exact_iff` — when these decide as the seconds would.
-/
import PicoHsm.Connection

namespace PicoHsm

open Text Effects

/-! ### Truncated days -/

/-- The truncated quotient against a bound: a bound from zero on leaves nearly one more
unit of room, a negative one is exact. -/
theorem tdiv_le_iff {n c d : Int} (hd : 0 < d) :
    n.tdiv d ≤ c ↔ (0 ≤ c ∧ n < (c + 1) * d) ∨ (c < 0 ∧ n ≤ c * d) := by
  rcases le_or_gt 0 n with hn | hn
  · rw [Int.tdiv_eq_ediv_of_nonneg hn, ← Int.lt_add_one_iff, Int.ediv_lt_iff_lt_mul hd]
    constructor
    · intro h
      refine Or.inl ⟨?_, h⟩
      by_contra hc
      have : (c + 1) * d ≤ 0 := mul_nonpos_of_nonpos_of_nonneg (by omega) hd.le
      omega
    · rintro (⟨-, h⟩ | ⟨hc, h⟩)
      · exact h
      · have : c * d < 0 := mul_neg_of_neg_of_pos hc hd
        omega
  · -- toward zero is upward here
    have hq : n.tdiv d = -((-n) / d) := by
      rw [← Int.tdiv_eq_ediv_of_nonneg (by omega), Int.neg_tdiv, neg_neg]
    rw [hq, neg_le, Int.le_ediv_iff_mul_le hd, neg_mul, neg_le_neg_iff]
    constructor
    · intro h
      rcases le_or_gt 0 c with hc | hc
      · exact Or.inl ⟨hc, lt_of_lt_of_le hn (mul_nonneg (by omega) hd.le)⟩
      · exact Or.inr ⟨hc, h⟩
    · rintro (⟨hc, -⟩ | ⟨-, h⟩)
      · exact hn.le.trans (mul_nonneg hc hd.le)
      · exact h

/-- Whole days against a bound, in nanoseconds. -/
theorem numDays_le_iff {nanos days : Int} :
    numDays nanos ≤ days ↔
      (0 ≤ days ∧ nanos < (days + 1) * (secsPerDay * nanosPerSec)) ∨
        (days < 0 ∧ nanos ≤ days * (secsPerDay * nanosPerSec)) :=
  tdiv_le_iff (by decide)

/-! ### What is asked for while lines are handled -/

/-- Entries made for a request are no `connect` entries and no warnings. -/
def GwOp.ForRequest : GwOp → Prop
  | .append a => a.operation ≠ "connect" ∧ a.outcome ≠ .certExpiringSoon
  | _ => True

def ConnOp.ForRequest : ConnOp → Prop
  | .gw op => op.ForRequest
  | .write _ => True

/-- The operation is part of processing a request line. -/
def ConnOp.Serves : ConnOp → Prop
  | .gw (.append a) => a.operation ≠ "connect"
  | _ => True

/-- The operation appends a warning entry. -/
def ConnOp.Warns : ConnOp → Prop
  | .gw (.append a) => a.outcome = .certExpiringSoon
  | _ => False

theorem ConnOp.ForRequest.not_warns {op : ConnOp} (h : op.ForRequest) : ¬ op.Warns := by
  rcases op with (a | _ | c) | bytes
  · exact h.2
  · exact id
  · exact id
  · exact id

open Prog in
theorem safe_liftGw {α : Type} {P : GwOp → Prop} {Q : ConnOp → Prop} (hPQ : ∀ op, P op → Q (.gw op))
    {p : Prog gwSig α} {h : List (Ev gwSig)}
    (hs : Safe (fun _ _ => True) (fun _ op => P op) (fun _ _ => True) h p)
    (h' : List (Ev connSig)) :
    Safe (fun _ _ => True) (fun _ op => Q op) (fun _ _ => True) h' (liftGw p) := by
  induction p generalizing h h' with
  | ret a => trivial
  | call e k ih => exact ⟨hPQ e hs.1, fun r _ => ih r (hs.2 r trivial) _⟩

namespace Gateway

open Prog

variable {K : Crates} {g : Gateway} {parse : String → Except String Request}
  {toJson : Response → Except String String}

theorem entryFor_forRequest {cn : String} {req : Request} {outcome : Outcome} {detail : String}
    (ho : outcome ≠ .certExpiringSoon) :
    GwOp.ForRequest (.append (entryFor cn req outcome detail)) := by
  refine ⟨?_, ho⟩
  change opName req.operation ≠ "connect"
  cases req.operation <;> decide

theorem processLine_forRequest (cn line : String) (h : List (Ev gwSig)) :
    Safe (fun _ _ => True) (fun _ op => GwOp.ForRequest op) (fun _ _ => True) h
      (g.processLine K parse cn line) := by
  rw [processLine]
  rcases parse line with e | req
  · trivial
  dsimp only
  rw [processRequest]
  have hrefuse : ∀ reason, Safe (fun _ _ => True) (fun _ op => GwOp.ForRequest op)
      (fun _ _ => True) h (refuse cn req reason) := by
    intro reason
    refine ⟨entryFor_forRequest ?_, fun _ _ => trivial⟩
    decide
  by_cases ha : g.authz.isAuthorized cn req.operation req.keyLabel = false
  · rw [if_pos ha]
    exact hrefuse _
  rw [if_neg ha]
  rcases g.peerKey K cn req with reason | peer
  · exact hrefuse _
  refine ⟨entryFor_forRequest (show Outcome.intent ≠ .certExpiringSoon by decide), fun r _ => ?_⟩
  rcases r with e | ⟨⟩
  · trivial
  dsimp only
  rw [safe_bind]
  -- `execute` makes no entries, and the closing one tells the result
  refine (execute_proper _).mono (fun _ _ hr => hr) ?_ fun _ result _ => ⟨?_, fun _ _ => trivial⟩
  · rintro h' (a | _ | c) hpr
    · exact absurd hpr (by simp [Proper])
    · trivial
    · trivial
  · cases result with
    | ok => exact entryFor_forRequest (show Outcome.authorized ≠ .certExpiringSoon by decide)
    | denied => exact entryFor_forRequest (show Outcome.denied ≠ .certExpiringSoon by decide)
    | error => exact entryFor_forRequest (show Outcome.error ≠ .certExpiringSoon by decide)

theorem handleLines_forRequest (cn : String) (failure : Option String) (ls : List (List UInt8))
    (h : List (Ev connSig)) :
    Safe (fun _ _ => True) (fun _ op => ConnOp.ForRequest op) (fun _ _ => True) h
      (g.handleLines K parse toJson cn failure ls) := by
  induction ls generalizing h with
  | nil => rcases failure with _ | e <;> trivial
  | cons l rest ih =>
    rw [handleLines]
    rcases fromUtf8 l with _ | line
    · trivial
    dsimp only
    rcases eq_or_ne (trim line) "" with hb | hb
    · rw [if_pos hb]
      exact ih h
    rw [if_neg hb, safe_bind]
    refine (safe_liftGw (fun op hop => hop) (processLine_forRequest cn line []) h).mono
      (fun _ _ hr => hr) (fun _ _ hg => hg) fun h' response _ => ⟨trivial, fun r _ => ?_⟩
    rcases r with e | ⟨⟩
    · trivial
    · exact ih _

/-! ### The policy to the second -/

variable {utf8Error : List UInt8 → String} {certs : PeerCertificates} {cert : LeafCert}
  {cn : String}

variable (K g parse toJson utf8Error certs cert) in
/-- The policy, to the second: no request line of a certificate that is valid for more
than the maximum is processed, such a connection is rejected, and an accepted one is
warned about exactly when the certificate expires within the warning period. -/
structure LifetimeExact (now : Int) : Prop where
  only_if : ∀ inc t q, Steps (g.handleConnection K parse toJson utf8Error certs now inc) t q →
    (∃ ev ∈ t, ev.op.Serves) →
    cert.notAfter - cert.notBefore ≤ g.maxCertValidityDays * secsPerDay
  rejects : g.maxCertValidityDays * secsPerDay < cert.notAfter - cert.notBefore →
    ∀ inc t r, Steps (g.handleConnection K parse toJson utf8Error certs now inc) t (.ret r) →
      r = .error "cert_policy_violation"
  warns : ∀ inc t r, Steps (g.handleConnection K parse toJson utf8Error certs now inc) t (.ret r) →
    r ≠ .error "cert_policy_violation" →
    ((∃ ev ∈ t, ev.op.Warns) ↔
      cert.notAfter * nanosPerSec - now ≤ g.certExpiryWarnDays * secsPerDay * nanosPerSec)

/-- The validity is less than a day above the maximum. -/
def MaxMissed (g : Gateway) (cert : LeafCert) : Prop :=
  0 ≤ g.maxCertValidityDays ∧
    g.maxCertValidityDays * secsPerDay < cert.notAfter - cert.notBefore ∧
    cert.notAfter - cert.notBefore < (g.maxCertValidityDays + 1) * secsPerDay

/-- The time left is less than a day above the warning period. -/
def WarnMissed (g : Gateway) (cert : LeafCert) (now : Int) : Prop :=
  0 ≤ g.certExpiryWarnDays ∧
    g.certExpiryWarnDays * secsPerDay * nanosPerSec < cert.notAfter * nanosPerSec - now ∧
    cert.notAfter * nanosPerSec - now < (g.certExpiryWarnDays + 1) * secsPerDay * nanosPerSec

/-- The validity in whole days is within the maximum if it is to the second, or misses
it by less than a day. -/
theorem numDays_validity_le_iff :
    numDays (cert.notAfter * nanosPerSec - cert.notBefore * nanosPerSec) ≤ g.maxCertValidityDays ↔
      cert.notAfter - cert.notBefore ≤ g.maxCertValidityDays * secsPerDay ∨ g.MaxMissed cert := by
  rw [numDays_le_iff, MaxMissed]
  simp only [nanosPerSec, secsPerDay]
  omega

theorem numDays_left_le_iff {now : Int} :
    numDays (cert.notAfter * nanosPerSec - now) ≤ g.certExpiryWarnDays ↔
      cert.notAfter * nanosPerSec - now ≤ g.certExpiryWarnDays * secsPerDay * nanosPerSec ∨
        g.WarnMissed cert now := by
  rw [numDays_le_iff, WarnMissed]
  simp only [nanosPerSec, secsPerDay]
  omega

/-- A run that does more than the policy is one of an accepted connection. -/
theorem accepted_of_serves (hp : Presents utf8Error certs cert cn) {now : Int} {inc : Incoming}
    {t : List (Ev connSig)} {q : Prog connSig (Except String Unit)}
    (h : Steps (g.handleConnection K parse toJson utf8Error certs now inc) t q)
    (hs : ∃ ev ∈ t, ev.op.Serves) :
    numDays (cert.notAfter * nanosPerSec - cert.notBefore * nanosPerSec) ≤
      g.maxCertValidityDays := by
  by_contra hmax
  rw [not_le] at hmax
  rw [handleConnection_eq hp, if_pos hmax] at h
  obtain ⟨ev, hev, hserves⟩ := hs
  cases h with
  | refl => exact absurd hev (by simp)
  | call h =>
    cases h
    rw [List.mem_singleton] at hev
    subst hev
    exact hserves rfl

/-- A finished run is the rejection, or one that warns as the day count says. -/
theorem warns_iff (hp : Presents utf8Error certs cert cn) {now : Int} {inc : Incoming}
    {t : List (Ev connSig)} {r : Except String Unit}
    (h : Steps (g.handleConnection K parse toJson utf8Error certs now inc) t (.ret r)) :
    (g.maxCertValidityDays < numDays (cert.notAfter * nanosPerSec - cert.notBefore * nanosPerSec) ∧
        r = .error "cert_policy_violation") ∨
      (numDays (cert.notAfter * nanosPerSec - cert.notBefore * nanosPerSec) ≤
          g.maxCertValidityDays ∧
        ((∃ ev ∈ t, ev.op.Warns) ↔
          numDays (cert.notAfter * nanosPerSec - now) ≤ g.certExpiryWarnDays)) := by
  rw [handleConnection_eq hp] at h
  by_cases hmax : g.maxCertValidityDays <
      numDays (cert.notAfter * nanosPerSec - cert.notBefore * nanosPerSec)
  · rw [if_pos hmax] at h
    cases h with
    | call h =>
      cases h
      exact Or.inl ⟨hmax, rfl⟩
  rw [if_neg hmax] at h
  refine Or.inr ⟨not_lt.mp hmax, ?_⟩
  -- while lines are handled nothing is warned about
  have hquiet : ∀ u, Steps (g.handleLines K parse toJson cn inc.failure inc.lines) u (.ret r) →
      ∀ ev ∈ u, ¬ ev.op.Warns := by
    intro u hu ev hev
    obtain ⟨u₁, u₂, rfl⟩ := List.append_of_mem hev
    have := (handleLines_forRequest cn inc.failure inc.lines []).guar_of_steps hu
      (fun _ _ _ _ => trivial) rfl
    exact this.not_warns
  by_cases hwarn : numDays (cert.notAfter * nanosPerSec - now) ≤ g.certExpiryWarnDays
  · rw [if_pos hwarn] at h
    cases h with
    | call h => exact ⟨fun _ => hwarn, fun _ => ⟨_, List.mem_cons_self, rfl⟩⟩
  · rw [if_neg hwarn] at h
    refine ⟨?_, fun hw => absurd hw hwarn⟩
    rintro ⟨ev, hev, hw⟩
    exact absurd hw (hquiet t h ev hev)

variable (K g parse toJson) in
/-- A line that is not blank is served. -/
theorem exec_serves (cn : String) :
    ∃ ev ∈ ((g.handleLines K parse toJson cn none [utf8 "x"]).exec Ref.obligingConn).1,
      ev.op.Serves := by
  rw [handleLines, fromUtf8_utf8]
  dsimp only
  rw [if_neg (by decide), exec_bind]
  exact ⟨_, List.mem_append_right _ List.mem_cons_self, trivial⟩

/-- A certificate that misses the maximum by less than a day gets its lines served. -/
theorem serves_of_maxMissed (hp : Presents utf8Error certs cert cn) (hm : g.MaxMissed cert)
    (now : Int) :
    ∃ t q, Steps (g.handleConnection K parse toJson utf8Error certs now ⟨utf8 "x", none⟩) t q ∧
      ∃ ev ∈ t, ev.op.Serves := by
  have hle := numDays_validity_le_iff.mpr (Or.inr hm)
  have hlines : Incoming.lines ⟨utf8 "x", none⟩ = [utf8 "x"] := by decide
  refine ⟨_, _, steps_exec Ref.obligingConn _, ?_⟩
  obtain ⟨ev, hev, hs⟩ := exec_serves K g parse toJson cn
  rw [handleConnection_eq hp, if_neg (not_lt.mpr hle), hlines]
  split
  · exact ⟨ev, List.mem_cons_of_mem _ hev, hs⟩
  · exact ⟨ev, hev, hs⟩

/-- **When the policy is exact to the second.**  For a readable certificate, the maximum
and the warning period are enforced to the second if and only if the validity does not
miss the maximum by less than a day, nor (on a connection that is to be accepted) the
time left the warning period. -/
theorem lifetime_exact_iff (hp : Presents utf8Error certs cert cn) (now : Int) :
    g.LifetimeExact K parse toJson utf8Error certs cert now ↔
      ¬ g.MaxMissed cert ∧
        (cert.notAfter - cert.notBefore ≤ g.maxCertValidityDays * secsPerDay →
          ¬ g.WarnMissed cert now) := by
  constructor
  · intro hex
    constructor
    · intro hm
      obtain ⟨t, q, hrun, hserves⟩ := serves_of_maxMissed hp hm now
      exact absurd (hex.only_if _ t q hrun hserves) (not_le.mpr hm.2.1)
    · -- it is warned about already when it connects, without a line sent
      intro hle hw
      have hle' := numDays_validity_le_iff.mpr (Or.inl hle)
      have hrun := steps_exec Ref.obligingConn
        (g.handleConnection K parse toJson utf8Error certs now ⟨[], none⟩)
      have hok : ((g.handleConnection K parse toJson utf8Error certs now ⟨[], none⟩).exec
          Ref.obligingConn).2 = .ok () := by
        rw [handleConnection_eq hp, if_neg (not_lt.mpr hle')]
        split <;> rfl
      rcases warns_iff hp hrun with ⟨hlt, -⟩ | ⟨-, hiff⟩
      · exact absurd hle' (not_le.mpr hlt)
      · have hwarned := hiff.mpr (numDays_left_le_iff.mpr (Or.inr hw))
        have := (hex.warns _ _ _ hrun (by rw [hok]; simp)).mp hwarned
        exact absurd this (not_le.mpr hw.2.1)
  · rintro ⟨hm, hw⟩
    have hmax : numDays (cert.notAfter * nanosPerSec - cert.notBefore * nanosPerSec) ≤
        g.maxCertValidityDays ↔
          cert.notAfter - cert.notBefore ≤ g.maxCertValidityDays * secsPerDay := by
      rw [numDays_validity_le_iff, or_iff_left hm]
    refine ⟨fun inc t q h hs => ?_, fun hlong inc t r h => ?_, fun inc t r h hr => ?_⟩
    · exact hmax.mp (accepted_of_serves hp h hs)
    · rcases warns_iff hp h with ⟨-, hr⟩ | ⟨hle, -⟩
      · exact hr
      · exact absurd (hmax.mp hle) (not_le.mpr hlong)
    · rcases warns_iff hp h with ⟨-, hr'⟩ | ⟨hle, hiff⟩
      · exact absurd hr' hr
      · rw [hiff, numDays_left_le_iff, or_iff_left (hw (hmax.mp hle))]

/-- A certificate for thirty days, a day after it was made, against 90 and 14 days. -/
theorem lifetime_exact_thirtyDays :
    Ref.gateway.LifetimeExact Ref.crates Ref.parseRequest Ref.responseJson (fun _ => "")
      (some [.ok (Ref.certFor (30 * 86400))]) (Ref.certFor (30 * 86400)) (86400 * 1000000000) := by
  refine (lifetime_exact_iff (Ref.presents_certFor (by decide)) _).mpr ⟨?_, fun _ => ?_⟩
  · rintro ⟨-, h, -⟩
    exact absurd h (by decide)
  · rintro ⟨-, -, h⟩
    exact absurd h (by decide)

/-- A certificate for 90 days and one second is longer than the maximum of 90 days, and
its request line is served. -/
theorem lifetime_exceeded_served :
    Ref.gateway.maxCertValidityDays * secsPerDay <
        (Ref.certFor (90 * 86400 + 1)).notAfter - (Ref.certFor (90 * 86400 + 1)).notBefore ∧
      (∃ t q, Steps (Ref.gateway.handleConnection Ref.crates Ref.parseRequest Ref.responseJson
        (fun _ => "") (some [.ok (Ref.certFor (90 * 86400 + 1))]) 0 ⟨utf8 "x", none⟩) t q ∧
        ∃ ev ∈ t, ev.op.Serves) ∧
      ¬ Ref.gateway.LifetimeExact Ref.crates Ref.parseRequest Ref.responseJson (fun _ => "")
        (some [.ok (Ref.certFor (90 * 86400 + 1))]) (Ref.certFor (90 * 86400 + 1)) 0 := by
  have hm : Ref.gateway.MaxMissed (Ref.certFor (90 * 86400 + 1)) := by
    refine ⟨?_, ?_, ?_⟩ <;> decide
  obtain ⟨t, q, hrun, hserves⟩ := serves_of_maxMissed (Ref.presents_certFor (by decide)) hm 0
  refine ⟨hm.2.1, ⟨t, q, hrun, hserves⟩, fun hex => ?_⟩
  exact absurd (hex.only_if _ t q hrun hserves) (not_le.mpr hm.2.1)

end Gateway

end PicoHsm
