/-
Where an HSM call comes from.

`main` starts the gateway, and any number of clients connect, each on a task of its own:
the handlers share log and HSM, which answer as they like, and interleave under every
schedule.  An HSM call in such a run can be traced back, through the line that asks for it
and the certificate of the connection it came on, to an entry of the clients file that was
read at startup.

* `OnLine`, `Accounted` — where a connection stands, and what it may do there;
* `handleConnection_accounted` — a connection does nothing else, finished or not;
* `call_provenance` — every HSM call of every interleaved run.
-/
import PicoHsm.CertPolicy
import PicoHsm.ConfigPeers
import PicoHsm.Pipelining
import PicoHsm.Pool
import PicoHsm.Startup

namespace PicoHsm

open Text Effects Prog

/-- A client that connects: what it presents, when, and what it sends. -/
structure Peer where
  certs : PeerCertificates
  now : Int
  incoming : Incoming

/-- The lines that are answered. -/
def Incoming.requests (inc : Incoming) : List (List UInt8) :=
  inc.lines.filter fun l => !blankLine l

section Account

variable (K : Crates) (g : Gateway) (parse : String → Except String Request)
  (toJson : Response → Except String String) (cn : String) (inc : Incoming)

/-- Behind the entry on the certificate, if there is one, the connection has answered the
first request lines, one after another. -/
structure Answering (h : List (Ev connSig)) (done : List Exchange) : Prop where
  history : ∃ pre, h = pre ++ done.flatMap (Exchange.trace toJson) ∧
    ∀ ev ∈ pre, ∃ days, ev.op = Gateway.warning cn days
  ran : ∀ x ∈ done, x.Ran K g parse cn
  taken : ∀ x ∈ done, x.written = .ok ()

/-- The connection is at this line, the next one, and has done `u` for it. -/
structure OnLine (h : List (Ev connSig)) (done : List Exchange) (line : String)
    (u : List (Ev gwSig)) : Prop where
  past : ∃ h', h = h' ++ u.map liftEv ∧ Answering K g parse toJson cn h' done
  line : (done.map Exchange.line ++ [line]).map utf8 <+: inc.requests

/-- What a connection may do next: make the entry on its certificate, go on with
`process_line` on the line it is at, or write the response to it. -/
inductive Accounted (h : List (Ev connSig)) : ConnOp → Prop where
  | rejection : h = [] → Accounted h (Gateway.rejection cn)
  | warning (days : Int) : h = [] → Accounted h (Gateway.warning cn days)
  | work {done : List Exchange} {line : String} {u : List (Ev gwSig)} {e : GwOp}
      {k : GwOp.Ret e → Prog gwSig Response} :
      OnLine K g parse toJson cn inc h done line u →
      Steps (g.processLine K parse cn line) u (.call e k) → Accounted h (.gw e)
  | answer {done : List Exchange} {line : String} {u : List (Ev gwSig)} {response : Response} :
      OnLine K g parse toJson cn inc h done line u →
      Steps (g.processLine K parse cn line) u (.ret response) →
      Accounted h (.write (responseLine toJson response))

variable {K g parse toJson cn inc}

/-- Gateway code on a connection, run by run. -/
theorem safe_liftGw_steps {α : Type} {guar : List (Ev connSig) → ConnOp → Prop}
    {post : List (Ev connSig) → α → Prop} {P : Prog gwSig α} {h : List (Ev connSig)}
    (hg : ∀ u e k, Steps P u (.call e k) → guar (h ++ u.map liftEv) (.gw e))
    (hp : ∀ u a, Steps P u (.ret a) → post (h ++ u.map liftEv) a) :
    Safe (fun _ _ => True) guar post h (liftGw P) := by
  refine safe_of_steps (fun t e k ht => ?_) fun t a ht => ?_
  · obtain ⟨u, P', rfl, hu, hP⟩ := liftGw_cases ht
    rcases P' with a | ⟨e', k'⟩
    · cases hP
    · cases hP
      exact hg u e' k' hu
  · obtain ⟨u, rfl, hu⟩ := steps_liftGw ht
    exact hp u a hu

theorem Answering.concat {h : List (Ev connSig)} {done : List Exchange}
    (ha : Answering K g parse toJson cn h done) {x : Exchange} (hx : x.Ran K g parse cn)
    (hw : x.written = .ok ()) :
    Answering K g parse toJson cn (h ++ x.trace toJson) (done ++ [x]) := by
  obtain ⟨⟨pre, rfl, hpre⟩, hran, htaken⟩ := ha
  refine ⟨⟨pre, by simp, hpre⟩, ?_, ?_⟩
  · intro y hy
    rcases List.mem_append.mp hy with hy | hy
    · exact hran y hy
    · rw [List.mem_singleton.mp hy]
      exact hx
  · intro y hy
    rcases List.mem_append.mp hy with hy | hy
    · exact htaken y hy
    · rw [List.mem_singleton.mp hy]
      exact hw

/-- The loop on the lines that are left. -/
theorem handleLines_accounted (failure : Option String) {rest : List (List UInt8)}
    {h : List (Ev connSig)} {done : List Exchange}
    (ha : Answering K g parse toJson cn h done)
    (hreq : inc.requests = (done.map Exchange.line).map utf8 ++ rest.filter fun l => !blankLine l) :
    Safe (fun _ _ => True) (Accounted K g parse toJson cn inc) (fun _ _ => True) h
      (g.handleLines K parse toJson cn failure rest) := by
  induction rest generalizing h done with
  | nil => rcases failure with _ | e <;> trivial
  | cons l rest ih =>
    rw [Gateway.handleLines]
    rcases hl : fromUtf8 l with _ | line
    · trivial
    dsimp only
    by_cases hb : trim line = ""
    · rw [if_pos hb]
      -- a blank line is no request
      have hblank : blankLine l = true := by simp [blankLine, hl, hb]
      rw [List.filter_cons_of_neg (by simp [hblank])] at hreq
      exact ih ha hreq
    rw [if_neg hb, safe_bind]
    have hline : blankLine l = false := by simp [blankLine, hl, hb]
    rw [List.filter_cons_of_pos (by simp [hline]), utf8_of_fromUtf8 hl] at hreq
    have hon : ∀ u : List (Ev gwSig),
        OnLine K g parse toJson cn inc (h ++ u.map liftEv) done line u := by
      intro u
      refine ⟨⟨h, rfl, ha⟩, ?_⟩
      rw [hreq]
      exact ⟨rest.filter fun l => !blankLine l, by simp⟩
    refine safe_liftGw_steps (fun u e k hu => .work (hon u) hu) fun u response hu => ?_
    refine ⟨.answer (hon u) hu, fun r _ => ?_⟩
    rcases r with e | ⟨⟩
    · trivial
    -- the answer was taken: one more exchange
    have hnext := ha.concat (x := ⟨line, u, response, .ok ()⟩) hu rfl
    rw [Exchange.trace, ← List.append_assoc] at hnext
    exact ih hnext (by simp [hreq])

variable {utf8Error : List UInt8 → String} {p : Peer} {t : List (Ev connSig)}
  {q : Prog connSig (Except String Unit)}

/-- A connection that does something has a readable certificate. -/
theorem presents_of_call {e : ConnOp} {k : ConnOp.Ret e → Prog connSig (Except String Unit)}
    (h : g.handleConnection K parse toJson utf8Error p.certs p.now p.incoming = .call e k) :
    ∃ cert cn, Gateway.Presents utf8Error p.certs cert cn := by
  rw [Gateway.handleConnection] at h
  rcases hleaf : peerLeafCert p.certs with e | cert
  · rw [hleaf] at h
    cases h
  rw [hleaf] at h
  dsimp only at h
  rcases hcn : certCn utf8Error cert with e | cn
  · rw [hcn] at h
    cases h
  rw [hcn] at h
  dsimp only at h
  rw [certPolicyNumbers] at h
  by_cases hb : chronoRange cert.notBefore = false
  · rw [if_pos hb] at h
    cases h
  rw [if_neg hb] at h
  by_cases ha : chronoRange cert.notAfter = false
  · rw [if_pos ha] at h
    cases h
  rw [Bool.not_eq_false] at hb ha
  exact ⟨cert, cn, hleaf, hcn, hb, ha⟩

theorem safe_handleConnection {cert : LeafCert} (hp : Gateway.Presents utf8Error p.certs cert cn) :
    Safe (fun _ _ => True) (Accounted K g parse toJson cn p.incoming) (fun _ _ => True) []
      (g.handleConnection K parse toJson utf8Error p.certs p.now p.incoming) := by
  have hloop : ∀ pre : List (Ev connSig), (∀ ev ∈ pre, ∃ days, ev.op = Gateway.warning cn days) →
      Safe (fun _ _ => True) (Accounted K g parse toJson cn p.incoming) (fun _ _ => True) pre
        (g.handleLines K parse toJson cn p.incoming.failure p.incoming.lines) := by
    intro pre hpre
    have hnone : Answering K g parse toJson cn pre [] :=
      ⟨⟨pre, (List.append_nil _).symm, hpre⟩, by simp, by simp⟩
    exact handleLines_accounted _ hnone rfl
  rw [Gateway.handleConnection_eq hp]
  split
  · exact ⟨.rejection rfl, fun _ _ => trivial⟩
  split
  · refine ⟨.warning _ rfl, fun r _ => hloop _ fun ev hev => ?_⟩
    rw [List.nil_append, List.mem_singleton] at hev
    subst hev
    exact ⟨_, rfl⟩
  · exact hloop [] (by simp)

/-- **A connection is accounted for**: it makes the entry on its certificate, answers its
request lines one after another, and does nothing else; without a readable certificate it
does nothing. -/
theorem handleConnection_accounted
    (ht : Steps (g.handleConnection K parse toJson utf8Error p.certs p.now p.incoming) t q)
    {t₁ : List (Ev connSig)} {ev : Ev connSig} {t₂ : List (Ev connSig)} (heq : t = t₁ ++ ev :: t₂) :
    ∃ cert cn, Gateway.Presents utf8Error p.certs cert cn ∧
      Accounted K g parse toJson cn p.incoming t₁ ev.op := by
  obtain ⟨cert, cn, hp⟩ : ∃ cert cn, Gateway.Presents utf8Error p.certs cert cn := by
    generalize hh : g.handleConnection K parse toJson utf8Error p.certs p.now p.incoming = P at ht
    cases ht with
    | refl => exact absurd heq (by simp)
    | call _ => exact presents_of_call hh
  have hacc := (safe_handleConnection hp).guar_of_steps ht (fun _ _ _ _ => trivial) heq
  exact ⟨cert, cn, hp, hacc⟩

/-- The HSM call a connection is about to make has passed the gates of its line. -/
theorem Accounted.mediated {h : List (Ev connSig)} {c : HsmCall}
    (ha : Accounted K g parse toJson cn inc h (.gw (.hsm c))) :
    ∃ done line u, OnLine K g parse toJson cn inc h done line u ∧
      ∃ req, parse line = .ok req ∧ g.Mediated K cn req u (.hsm c) := by
  cases ha with
  | @work done line u _ k hon hu =>
    have hnow := (Gateway.processLine_lineMediated parse cn line []).steps hu
      fun _ _ _ _ => trivial
    exact ⟨done, line, u, hon, hnow.1⟩

end Account

/-! ### From the clients file to the HSM -/

section Whole

variable (K : Crates) (yaml : String → Except String FileConfig)
  (parse : String → Except String Request) (toJson : Response → Except String String)
  (utf8Error : List UInt8 → String)

/-- Every client on a task of its own. -/
def connecting {σ ι : Type} (g : Gateway) (peers : ι → Peer) (s : σ) :
    Conf connSig σ ι (Except String Unit) :=
  ⟨s, fun i => g.handleConnection K parse toJson utf8Error (peers i).certs (peers i).now
    (peers i).incoming, []⟩

/-- The clients file that startup has read permits this: under the client's CN it has a
permission for the operation and label of the request, and the peer key of a derive call is
listed in one. -/
def Permitted (started : List (Ev startSig)) (cn : String) (req : Request) (c : HsmCall) : Prop :=
  ∃ path text cfg, (⟨.var "GATEWAY_CLIENTS_CONFIG", .ok path⟩ : Ev startSig) ∈ started ∧
    (⟨.readToString path, .ok text⟩ : Ev startSig) ∈ started ∧ yaml text = .ok cfg ∧
    (∃ client ∈ cfg.clients, trim client.cn = cn ∧
      ∃ perm ∈ client.permissions, perm.Names req.operation req.keyLabel) ∧
    ∀ peer, c.peer = some peer → ∃ peerB64,
      AuthzTable.Listed cfg cn req.operation req.keyLabel peerB64 ∧ K.b64.decode peerB64 = some peer

/-- Where the call `c` of the client `p` comes from, which has done `h` before: its
certificate, within the maximum of days; the line it asks with, the next one that is not
answered; the gates that this line has passed; and the clients file. -/
structure Traced (g : Gateway) (started : List (Ev startSig)) (p : Peer) (h : List (Ev connSig))
    (c : HsmCall) (cert : LeafCert) (cn : String) (done : List Exchange) (line : String)
    (u : List (Ev gwSig)) (req : Request) : Prop where
  certificate : Gateway.Presents utf8Error p.certs cert cn
  validity : numDays (cert.notAfter * nanosPerSec - cert.notBefore * nanosPerSec) ≤
    g.maxCertValidityDays
  onLine : OnLine K g parse toJson cn p.incoming h done line u
  request : parse line = .ok req
  clears : g.Clears K cn req u c
  permitted : Permitted K yaml started cn req c

variable {K yaml parse toJson utf8Error} {J : Json Entry} {R : Rustls}

theorem permitted_of_clears {started : List (Ev startSig)} {env : EnvConfig} {L : Listening}
    (hfit : Fit K J yaml R (· ∈ started) env L) {cn : String} {req : Request}
    {h : List (Ev gwSig)} {c : HsmCall} (hc : L.gateway.Clears K cn req h c) :
    Permitted K yaml started cn req c := by
  obtain ⟨text, hread, hload⟩ := hfit.config
  rw [AuthzTable.fromStr] at hload
  rcases hy : yaml text with e | cfg
  · rw [hy] at hload
    cases hload
  rw [hy] at hload
  refine ⟨env.clientsConfig, text, cfg, hfit.vars.clientsConfig, hread, hy, ?_,
    fun peer hpeer => ?_⟩
  · obtain ⟨perm, hperm, hn⟩ :=
      (AuthzTable.isAuthorized_loaded hload).mp (AuthzTable.isAuthorized_iff.mpr hc.granted)
    obtain ⟨client, hclient, hcn, hperm⟩ := mem_permissionsOf.mp hperm
    exact ⟨client, hclient, hcn, perm, hperm, hn⟩
  · obtain ⟨set, peerB64, hset, hmem, hdec, -⟩ := hc.peer peer hpeer
    have hauth := AuthzTable.isPeerKeyAuthorized_iff.mpr ⟨set, hset, hmem⟩
    exact ⟨peerB64, AuthzTable.listed_of_isPeerKeyAuthorized hload hauth, hdec⟩

/-- **Where every HSM call comes from.**  Startup has reached its accept loop, any number of
clients connect, and their handlers interleave in any way over a log, an HSM and transports
that answer as they like.  Every HSM call then is made for a client with a readable
certificate within the maximum validity, for the first line of it that is not answered yet,
behind all gates, and with a permission in the clients file that startup has read. -/
theorem call_provenance (hB : K.b64.Lawful) {started : List (Ev startSig)} {L : Listening}
    (hstart : Steps (start K J yaml R) started (.ret (.ok L))) {σ ι : Type} [DecidableEq ι]
    {act : σ → Ev connSig → σ → Prop}
    {allow : Conf connSig σ ι (Except String Unit) → ι → Ev connSig → Prop} {peers : ι → Peer}
    {s : σ} {c : Conf connSig σ ι (Except String Unit)}
    (hc : Reach act allow (connecting K parse toJson utf8Error L.gateway peers s) c)
    {g₁ g₂ : List (ι × Ev connSig)} {i : ι} {call : HsmCall} {r : call.Ret}
    (heq : c.hist = g₁ ++ (i, ⟨.gw (.hsm call), r⟩) :: g₂) :
    ∃ cert cn done line u req, Traced K yaml parse toJson utf8Error L.gateway started (peers i)
      (proj i g₁) call cert cn done line u req := by
  obtain ⟨env, hfit, -⟩ := fit_of_steps hstart
  have hinv : AuthzTable.Inv K L.gateway.integrityLabel L.gateway.authz := by
    obtain ⟨text, -, hload⟩ := hfit.config
    rw [hfit.gateway]
    exact inv_of_fromStr hload
  -- the client's own run
  have hrun := hc.own_steps rfl i
  have hown : c.own i = proj i g₁ ++ ⟨.gw (.hsm call), r⟩ :: proj i g₂ := by
    rw [Conf.own, heq, proj_append, proj_cons_self]
  obtain ⟨cert, cn, hp, hacc⟩ := handleConnection_accounted hrun hown
  obtain ⟨done, line, u, hon, req, hreq, hm⟩ := hacc.mediated
  have hclears := hm.clears hB hinv
  have hpermitted := permitted_of_clears hfit hclears
  refine ⟨cert, cn, done, line, u, req, hp, ?_, hon, hreq, hclears, hpermitted⟩
  refine Gateway.accepted_of_serves hp hrun ⟨⟨.gw (.hsm call), r⟩, ?_, trivial⟩
  rw [hown]
  simp

end Whole

/-! ### Two clients -/

/-- Two connections of `app-a` that ask for the same. -/
def twoClients : Bool → Peer := fun _ =>
  ⟨some [.ok (Ref.certFor (30 * 86400))], 0, ⟨utf8 Gateway.deriveLine, none⟩⟩

def twoConnecting : Conf connSig Unit Bool (Except String Unit) :=
  connecting Ref.crates Ref.parseRequest Ref.responseJson (fun _ => "") sampleListening.gateway
    twoClients ()

/-- The second client has its intent written before the first one's call. -/
def calling : Conf connSig Unit Bool (Except String Unit) :=
  twoConnecting.exec (fun _ e => (Ref.obligingConn e, ())) [true, false, true, true]

theorem twoConnecting_eq : ∃ k, twoConnecting = ⟨(), fun _ =>
    liftGw (sampleListening.gateway.processRequest Ref.crates "app-a"
      (.deriveAndEncrypt "k1" "ecdh1_derive" "aes_cbc_pad" "cGVlci1h" "aGVsbG8=")) >>= k, []⟩ := by
  have hlines : Incoming.lines ⟨utf8 Gateway.deriveLine, none⟩ = [utf8 Gateway.deriveLine] := by
    decide +kernel
  change ∃ k, (⟨(), fun _ => sampleListening.gateway.handleConnection Ref.crates Ref.parseRequest
    Ref.responseJson (fun _ => "") (some [.ok (Ref.certFor (30 * 86400))]) 0
    ⟨utf8 Gateway.deriveLine, none⟩, []⟩ : Conf connSig Unit Bool (Except String Unit)) = _
  rw [Gateway.handleConnection_eq (Ref.presents_certFor (by decide)), if_neg (by decide),
    if_neg (by decide), hlines, handleLines_line (fromUtf8_utf8 _) (by decide +kernel),
    Gateway.answerLine, bind_bind, Gateway.deriveLine,
    Gateway.processLine_of_parse (Ref.parseRequest_requestText _)]
  exact ⟨_, rfl⟩

theorem calling_hist : calling.hist = [
      (true, ⟨.gw (.append ⟨"app-a", "derive_and_encrypt", "k1", .intent, ""⟩), .ok ()⟩),
      (false, ⟨.gw (.append ⟨"app-a", "derive_and_encrypt", "k1", .intent, ""⟩), .ok ()⟩),
      (true, ⟨.gw .spawn, .ran⟩)] ++ (true, ⟨.gw (.hsm (.deriveAndEncrypt "k1" (utf8 "peer-a")
        (utf8 "hello"))), .ok (List.replicate 16 7, [9, 9])⟩) :: [] := by
  obtain ⟨k, hk⟩ := twoConnecting_eq
  rw [calling, hk]
  rfl

theorem call_provenance_calling : ∃ cert cn done line u req,
    Traced Ref.crates (fun _ => .ok Ref.config) Ref.parseRequest Ref.responseJson (fun _ => "")
      sampleListening.gateway (sampleStart.exec sampleMachine).1 (twoClients true)
      [⟨.gw (.append ⟨"app-a", "derive_and_encrypt", "k1", .intent, ""⟩), .ok ()⟩,
        ⟨.gw .spawn, .ran⟩]
      (.deriveAndEncrypt "k1" (utf8 "peer-a") (utf8 "hello")) cert cn done line u req := by
  have hstart := Prog.steps_exec sampleMachine sampleStart
  rw [exec_sampleStart] at hstart
  have hreach : Reach (fun _ _ _ => True) anySchedule (connecting Ref.crates Ref.parseRequest
      Ref.responseJson (fun _ => "") sampleListening.gateway twoClients ()) calling :=
    Reach.exec (fun _ _ => trivial) .init _
  exact call_provenance Ref.base64_lawful hstart hreach calling_hist

end PicoHsm
