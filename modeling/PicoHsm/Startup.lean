/-
Startup (`main.rs`, with `HsmClient::connect` and `AuthzTable::load`).

The gateway reads its environment, loads the clients config, verifies and opens the audit
log, connects to the HSM, prepares TLS and only then binds its port.  The code is a program
over what it asks of the machine (`StartOp`); `Rustls` are the functions of the TLS crates,
a certificate or key is its DER bytes.

* `start` — `main` up to its accept loop;
* `Vetted` — what is known of the machine when the port is bound;
* `start_vetted` — whatever the machine answers, nothing is written or bound before that;
* `start_listens_iff` — on a machine that does not change meanwhile, the gateway listens
  exactly if the machine is `Fit`.
-/
import PicoHsm.AuditExtend
import PicoHsm.ConfigExact
import PicoHsm.Numeral
import PicoHsm.ReferenceRequest
import PicoHsm.Server

namespace PicoHsm

open Text Effects

/-! ### What startup asks of the machine -/

/-- `std::env::VarError` -/
inductive VarError where
  | notPresent
  | notUnicode (shown : String)

def VarError.display : VarError → String
  | .notPresent => "environment variable not found"
  | .notUnicode shown => "environment variable was not valid unicode: " ++ shown

/-- What `rustls_pemfile::certs` and `rustls_pemfile::private_key` read from a file. -/
structure PemFile where
  certs : Except String (List (List UInt8))
  privateKey : Except String (Option (List UInt8))

inductive StartOp where
  /-- `std::env::var` -/
  | var (name : String)
  | readToString (path : String)
  /-- Opening and reading the log in `verify_chain`. -/
  | readLog (path : String)
  /-- Opening the log for appending, which creates it if it is missing. -/
  | openAppend (path : String)
  /-- `Pkcs11::new` -/
  | loadModule (path : String)
  | cInitialize
  | slotsWithToken
  | openPem (path : String)
  /-- `TcpListener::bind` -/
  | bind (addr : String)

def StartOp.Ret : StartOp → Type
  | .var _ => Except VarError String
  | .readToString _ => Except String String
  | .readLog _ => FileRead
  | .openAppend _ => Except String Unit
  | .loadModule _ => Except Pkcs11Error Unit
  | .cInitialize => Except Pkcs11Error Unit
  | .slotsWithToken => Except Pkcs11Error (List Nat)
  | .openPem _ => Except String PemFile
  | .bind _ => Except String Unit

abbrev startSig : Sig := ⟨StartOp, StartOp.Ret⟩

/-- The TLS crates. -/
structure Rustls where
  /-- `RootCertStore::add` of one certificate. -/
  addRoot : List UInt8 → Except String Unit
  /-- `WebPkiClientVerifier::builder(roots).build()` -/
  clientVerifier : List (List UInt8) → Except String Unit
  /-- `with_single_cert` -/
  singleCert : List (List UInt8) → List UInt8 → Except String Unit

/-! ### Environment -/

/-- The integers of 64 bits. -/
def i64Min : Int := -9223372036854775808

def i64Max : Int := 9223372036854775807

/-- The text of a `ParseIntError`. -/
def parseIntError : Numeral.ErrorKind → String
  | .empty => "cannot parse integer from empty string"
  | .invalidDigit => "invalid digit found in string"
  | .posOverflow => "number too large to fit in target type"
  | .negOverflow => "number too small to fit in target type"

structure EnvConfig where
  listenAddr : String
  serverCert : String
  serverKey : String
  clientCa : String
  clientsConfig : String
  pkcs11Module : String
  hsmPin : String
  auditLog : String
  integrityKeyLabel : String
  maxClientCertValidityDays : Int
  certExpiryWarnDays : Int

variable (K : Crates) (J : Json Entry) (yaml : String → Except String FileConfig) (R : Rustls)

def requiredVar (name : String) : Prog startSig (Except String String) :=
  .call (.var name) fun (r : Except VarError String) =>
    match r with
    | .ok v => .ret (.ok v)
    | .error e =>
      .ret (.error (withContext ("environment variable " ++ name ++ " is not set") e.display))

/-- An unset variable, and one that is not Unicode, count as the default. -/
def daysVar (name : String) (default : Int) : Prog startSig (Except String Int) :=
  .call (.var name) fun (r : Except VarError String) =>
    match r with
    | .ok v =>
      match Numeral.parse i64Min i64Max v with
      | .ok n => .ret (.ok n)
      | .error e =>
        .ret (.error (withContext (name ++ " must be an integer (days), was " ++
          debugStr K.escaped v) (parseIntError e)))
    | .error _ => .ret (.ok default)

def loadEnv : Prog startSig (Except String EnvConfig) :=
  (requiredVar "GATEWAY_LISTEN_ADDR").andThen fun listenAddr =>
  (requiredVar "GATEWAY_SERVER_CERT").andThen fun serverCert =>
  (requiredVar "GATEWAY_SERVER_KEY").andThen fun serverKey =>
  (requiredVar "GATEWAY_CLIENT_CA").andThen fun clientCa =>
  (requiredVar "GATEWAY_CLIENTS_CONFIG").andThen fun clientsConfig =>
  (requiredVar "GATEWAY_PKCS11_MODULE").andThen fun pkcs11Module =>
  (requiredVar "GATEWAY_HSM_PIN").andThen fun hsmPin =>
  (requiredVar "GATEWAY_AUDIT_LOG").andThen fun auditLog =>
  (requiredVar "GATEWAY_INTEGRITY_KEY_LABEL").andThen fun integrityKeyLabel =>
  (daysVar K "GATEWAY_MAX_CLIENT_CERT_VALIDITY_DAYS" 90).andThen fun maxClientCertValidityDays =>
  (daysVar K "GATEWAY_CERT_EXPIRY_WARN_DAYS" 14).andThen fun certExpiryWarnDays =>
  .ret (.ok ⟨listenAddr, serverCert, serverKey, clientCa, clientsConfig, pkcs11Module, hsmPin,
    auditLog, integrityKeyLabel, maxClientCertValidityDays, certExpiryWarnDays⟩)

/-! ### Config, log, HSM -/

/-- `AuthzTable::load` -/
def AuthzTable.load (path integrityKeyLabel : String) :
    Prog startSig (Except String AuthzTable) :=
  .call (.readToString path) fun (r : Except String String) =>
    match r with
    | .error e =>
      .ret (.error (withContext ("cannot read clients config " ++ debugStr K.escaped path) e))
    | .ok text =>
      match AuthzTable.fromStr K yaml text integrityKeyLabel with
      | .error e =>
        .ret (.error (withContext ("invalid clients config " ++ debugStr K.escaped path) e))
      | .ok t => .ret (.ok t)

/-- `AuditLog::open`, with the file opened for appending only behind the verification. -/
def openAudit (path : String) : Prog startSig (Except String LogState) :=
  .call (.readLog path) fun (file : FileRead) =>
    match verifyChain K J path file with
    | .error e =>
      .ret (.error (withContext ("audit chain broken in " ++ debugStr K.escaped path) e))
    | .ok _ =>
      .call (.openAppend path) fun (opened : Except String Unit) =>
        .ret (openLog K J path file opened)

/-- `HsmClient::connect`: the first slot that has a token. -/
def HsmClient.connect (modulePath pin : String) : Prog startSig (Except String HsmClient) :=
  .call (.loadModule modulePath) fun (r : Except Pkcs11Error Unit) =>
    match questionWith ("cannot load PKCS#11 module " ++ debugStr K.escaped modulePath) r with
    | .error e => .ret (.error e)
    | .ok _ =>
      .call .cInitialize fun (r : Except Pkcs11Error Unit) =>
        match questionWith "PKCS#11 C_Initialize failed" r with
        | .error e => .ret (.error e)
        | .ok _ =>
          .call .slotsWithToken fun (r : Except Pkcs11Error (List Nat)) =>
            match r with
            | .error e => .ret (.error e.display)
            | .ok [] => .ret (.error "no HSM token found — is the Pico plugged in?")
            | .ok (slot :: _) => .ret (.ok ⟨slot, pin⟩)

/-! ### TLS -/

def loadCerts (path : String) : Prog startSig (Except String (List (List UInt8))) :=
  .call (.openPem path) fun (r : Except String PemFile) =>
    match r with
    | .error e => .ret (.error (withContext (debugStr K.escaped path ++ " unreadable") e))
    | .ok pem =>
      match pem.certs with
      | .error e => .ret (.error e)
      | .ok [] =>
        .ret (.error ("no valid certificates found in " ++ debugStr K.escaped path))
      | .ok certs => .ret (.ok certs)

def loadPrivateKey (path : String) : Prog startSig (Except String (List UInt8)) :=
  .call (.openPem path) fun (r : Except String PemFile) =>
    match r with
    | .error e => .ret (.error (withContext (debugStr K.escaped path ++ " unreadable") e))
    | .ok pem =>
      match pem.privateKey with
      | .error e => .ret (.error e)
      | .ok none => .ret (.error ("no private key found in " ++ debugStr K.escaped path))
      | .ok (some key) => .ret (.ok key)

/-- The loop that fills the `RootCertStore`. -/
def addRoots : List (List UInt8) → Except String Unit
  | [] => .ok ()
  | cert :: rest =>
    match R.addRoot cert with
    | .error e => .error e
    | .ok _ => addRoots rest

/-- What clients are checked against and what they are shown. -/
structure TlsConfig where
  clientRoots : List (List UInt8)
  serverCerts : List (List UInt8)
  serverKey : List UInt8

def tlsConfig (serverCerts : List (List UInt8)) (serverKey : List UInt8)
    (clientRoots : List (List UInt8)) : Except String TlsConfig :=
  match addRoots R clientRoots with
  | .error e => .error e
  | .ok _ =>
    match R.clientVerifier clientRoots with
    | .error e => .error e
    | .ok _ =>
      match R.singleCert serverCerts serverKey with
      | .error e => .error e
      | .ok _ => .ok ⟨clientRoots, serverCerts, serverKey⟩

/-! ### `main` up to its loop -/

/-- The gateway as it enters the accept loop. -/
structure Listening where
  gateway : Gateway
  log : LogState
  tls : TlsConfig

/-- `Gateway::new` -/
def EnvConfig.gateway (env : EnvConfig) (authz : AuthzTable) (hsm : HsmClient) : Gateway :=
  ⟨authz, hsm, env.integrityKeyLabel, env.maxClientCertValidityDays, env.certExpiryWarnDays⟩

def start : Prog startSig (Except String Listening) :=
  (loadEnv K).andThen fun env =>
  (AuthzTable.load K yaml env.clientsConfig env.integrityKeyLabel).andThen fun authz =>
  (openAudit K J env.auditLog).andThen fun log =>
  (HsmClient.connect K env.pkcs11Module env.hsmPin).andThen fun hsm =>
  (loadCerts K env.serverCert).andThen fun serverCerts =>
  (loadPrivateKey K env.serverKey).andThen fun serverKey =>
  (loadCerts K env.clientCa).andThen fun clientRoots =>
    match tlsConfig R serverCerts serverKey clientRoots with
    | .error e => .ret (.error e)
    | .ok tls =>
      .call (.bind env.listenAddr) fun (r : Except String Unit) =>
        match r with
        | .error e => .ret (.error e)
        | .ok _ => .ret (.ok ⟨env.gateway authz hsm, log, tls⟩)

/-! ### A machine the gateway can start on -/

section Fit

variable (tells : Ev startSig → Prop)

/-- An optional number of days: a numeral of 64 bits, or the default where the variable is
not set or not Unicode. -/
def Days (name : String) (default n : Int) : Prop :=
  (∃ v, tells ⟨.var name, .ok v⟩ ∧ Numeral.Denotes v n ∧ i64Min ≤ n ∧ n ≤ i64Max) ∨
    ((∃ e, tells ⟨.var name, .error e⟩) ∧ n = default)

/-- The environment as the machine tells it. -/
structure EnvRead (env : EnvConfig) : Prop where
  listenAddr : tells ⟨.var "GATEWAY_LISTEN_ADDR", .ok env.listenAddr⟩
  serverCert : tells ⟨.var "GATEWAY_SERVER_CERT", .ok env.serverCert⟩
  serverKey : tells ⟨.var "GATEWAY_SERVER_KEY", .ok env.serverKey⟩
  clientCa : tells ⟨.var "GATEWAY_CLIENT_CA", .ok env.clientCa⟩
  clientsConfig : tells ⟨.var "GATEWAY_CLIENTS_CONFIG", .ok env.clientsConfig⟩
  pkcs11Module : tells ⟨.var "GATEWAY_PKCS11_MODULE", .ok env.pkcs11Module⟩
  hsmPin : tells ⟨.var "GATEWAY_HSM_PIN", .ok env.hsmPin⟩
  auditLog : tells ⟨.var "GATEWAY_AUDIT_LOG", .ok env.auditLog⟩
  integrityKeyLabel : tells ⟨.var "GATEWAY_INTEGRITY_KEY_LABEL", .ok env.integrityKeyLabel⟩
  maxClientCertValidityDays : Days tells "GATEWAY_MAX_CLIENT_CERT_VALIDITY_DAYS" 90
    env.maxClientCertValidityDays
  certExpiryWarnDays : Days tells "GATEWAY_CERT_EXPIRY_WARN_DAYS" 14 env.certExpiryWarnDays

/-- The clients config, accepted with the integrity key of this environment set apart. -/
def ConfigLoaded (env : EnvConfig) (authz : AuthzTable) : Prop :=
  ∃ text, tells ⟨.readToString env.clientsConfig, .ok text⟩ ∧
    AuthzTable.fromStr K yaml text env.integrityKeyLabel = .ok authz

/-- The log holds a chain from `GENESIS`. -/
def LogVerified (env : EnvConfig) (file : FileRead) : Prop :=
  tells ⟨.readLog env.auditLog, file⟩ ∧
    ∃ es last, file.entries J = some es ∧ HashChain.check (Entry.links K) genesis es = some last

/-- The log is verified and open. -/
def LogOpened (env : EnvConfig) (log : LogState) : Prop :=
  ∃ file, LogVerified K J tells env file ∧ tells ⟨.openAppend env.auditLog, .ok ()⟩ ∧
    openLog K J env.auditLog file (.ok ()) = .ok log

structure Connected (env : EnvConfig) (hsm : HsmClient) : Prop where
  loaded : tells ⟨.loadModule env.pkcs11Module, .ok ()⟩
  initialized : tells ⟨.cInitialize, .ok ()⟩
  slot : ∃ slots, tells ⟨.slotsWithToken, .ok (hsm.slot :: slots)⟩
  pin : hsm.pin = env.hsmPin

/-- The certificates of a PEM file; there are some. -/
def Certs (path : String) (certs : List (List UInt8)) : Prop :=
  certs ≠ [] ∧ ∃ pem, tells ⟨.openPem path, .ok pem⟩ ∧ pem.certs = .ok certs

/-- The key of a PEM file. -/
def Key (path : String) (key : List UInt8) : Prop :=
  ∃ pem, tells ⟨.openPem path, .ok pem⟩ ∧ pem.privateKey = .ok (some key)

structure TlsReady (env : EnvConfig) (tls : TlsConfig) : Prop where
  serverCerts : Certs tells env.serverCert tls.serverCerts
  serverKey : Key tells env.serverKey tls.serverKey
  clientRoots : Certs tells env.clientCa tls.clientRoots
  roots : ∀ cert ∈ tls.clientRoots, R.addRoot cert = .ok ()
  verifier : R.clientVerifier tls.clientRoots = .ok ()
  singleCert : R.singleCert tls.serverCerts tls.serverKey = .ok ()

/-- All that has to be right before the port is bound. -/
structure Fit (env : EnvConfig) (L : Listening) : Prop where
  vars : EnvRead tells env
  config : ConfigLoaded K yaml tells env L.gateway.authz
  log : LogOpened K J tells env L.log
  hsm : Connected tells env L.gateway.hsm
  tls : TlsReady R tells env L.tls
  gateway : L.gateway = env.gateway L.gateway.authz L.gateway.hsm

variable {K J yaml R} {tells} {tells' : Ev startSig → Prop}

theorem Days.mono (hm : ∀ ev, tells ev → tells' ev) {name : String} {default n : Int}
    (h : Days tells name default n) : Days tells' name default n := by
  rcases h with ⟨v, hv, hr⟩ | ⟨⟨e, he⟩, hn⟩
  · exact Or.inl ⟨v, hm _ hv, hr⟩
  · exact Or.inr ⟨⟨e, hm _ he⟩, hn⟩

theorem EnvRead.mono (hm : ∀ ev, tells ev → tells' ev) {env : EnvConfig}
    (h : EnvRead tells env) : EnvRead tells' env where
  listenAddr := hm _ h.listenAddr
  serverCert := hm _ h.serverCert
  serverKey := hm _ h.serverKey
  clientCa := hm _ h.clientCa
  clientsConfig := hm _ h.clientsConfig
  pkcs11Module := hm _ h.pkcs11Module
  hsmPin := hm _ h.hsmPin
  auditLog := hm _ h.auditLog
  integrityKeyLabel := hm _ h.integrityKeyLabel
  maxClientCertValidityDays := h.maxClientCertValidityDays.mono hm
  certExpiryWarnDays := h.certExpiryWarnDays.mono hm

theorem ConfigLoaded.mono (hm : ∀ ev, tells ev → tells' ev) {env : EnvConfig} {authz : AuthzTable}
    (h : ConfigLoaded K yaml tells env authz) : ConfigLoaded K yaml tells' env authz := by
  obtain ⟨text, ht, hc⟩ := h
  exact ⟨text, hm _ ht, hc⟩

theorem LogOpened.mono (hm : ∀ ev, tells ev → tells' ev) {env : EnvConfig} {log : LogState}
    (h : LogOpened K J tells env log) : LogOpened K J tells' env log := by
  obtain ⟨file, ⟨hf, hv⟩, ho, hl⟩ := h
  exact ⟨file, ⟨hm _ hf, hv⟩, hm _ ho, hl⟩

theorem Connected.mono (hm : ∀ ev, tells ev → tells' ev) {env : EnvConfig} {hsm : HsmClient}
    (h : Connected tells env hsm) : Connected tells' env hsm where
  loaded := hm _ h.loaded
  initialized := hm _ h.initialized
  slot := by
    obtain ⟨slots, hs⟩ := h.slot
    exact ⟨slots, hm _ hs⟩
  pin := h.pin

theorem Certs.mono (hm : ∀ ev, tells ev → tells' ev) {path : String} {certs : List (List UInt8)}
    (h : Certs tells path certs) : Certs tells' path certs := by
  obtain ⟨hne, pem, hp, hc⟩ := h
  exact ⟨hne, pem, hm _ hp, hc⟩

theorem Key.mono (hm : ∀ ev, tells ev → tells' ev) {path : String} {key : List UInt8}
    (h : Key tells path key) : Key tells' path key := by
  obtain ⟨pem, hp, hc⟩ := h
  exact ⟨pem, hm _ hp, hc⟩

theorem Fit.mono (hm : ∀ ev, tells ev → tells' ev) {env : EnvConfig} {L : Listening}
    (h : Fit K J yaml R tells env L) : Fit K J yaml R tells' env L where
  vars := h.vars.mono hm
  config := h.config.mono hm
  log := h.log.mono hm
  hsm := h.hsm.mono hm
  tls := ⟨h.tls.serverCerts.mono hm, h.tls.serverKey.mono hm, h.tls.clientRoots.mono hm,
    h.tls.roots, h.tls.verifier, h.tls.singleCert⟩
  gateway := h.gateway

end Fit

/-! ### Whatever the machine answers -/

section Order

open Prog

/-- What has to be known before each operation of startup, `h` being what was answered so
far. -/
def InOrder (h : List (Ev startSig)) : StartOp → Prop
  | .var _ => True
  | .readToString path => ∃ env, EnvRead (· ∈ h) env ∧ path = env.clientsConfig
  | .readLog path =>
    ∃ env authz, EnvRead (· ∈ h) env ∧ ConfigLoaded K yaml (· ∈ h) env authz ∧ path = env.auditLog
  | .openAppend path =>
    ∃ env authz file, EnvRead (· ∈ h) env ∧ ConfigLoaded K yaml (· ∈ h) env authz ∧
      LogVerified K J (· ∈ h) env file ∧ path = env.auditLog
  | .loadModule _ | .cInitialize | .slotsWithToken =>
    ∃ env authz log, EnvRead (· ∈ h) env ∧ ConfigLoaded K yaml (· ∈ h) env authz ∧
      LogOpened K J (· ∈ h) env log
  | .openPem _ =>
    ∃ env authz log hsm, EnvRead (· ∈ h) env ∧ ConfigLoaded K yaml (· ∈ h) env authz ∧
      LogOpened K J (· ∈ h) env log ∧ Connected (· ∈ h) env hsm
  | .bind addr => ∃ env L, Fit K J yaml R (· ∈ h) env L ∧ addr = env.listenAddr

variable {K J yaml R} {rely : List (Ev startSig) → Ev startSig → Prop} {h : List (Ev startSig)}

/-- One stage of startup, and going on behind it. -/
theorem safe_stage {α β : Type} {guar : List (Ev startSig) → StartOp → Prop}
    {Q : List (Ev startSig) → α → Prop} {Q' : List (Ev startSig) → β → Prop}
    {p : Prog startSig (Except String α)} {f : α → Prog startSig (Except String β)}
    (hp : Safe rely guar (fun h' r => h ⊆ h' ∧ ∀ a, r = .ok a → Q h' a) h p)
    (hf : ∀ h' a, h ⊆ h' → Q h' a →
      Safe rely guar (fun h'' r => h' ⊆ h'' ∧ ∀ b, r = .ok b → Q' h'' b) h' (f a)) :
    Safe rely guar (fun h' r => h ⊆ h' ∧ ∀ b, r = .ok b → Q' h' b) h (p.andThen f) := by
  rw [safe_andThen]
  refine hp.mono (fun _ _ hr => hr) (fun _ _ hg => hg) fun h' r hr => ?_
  rcases r with e | a
  · exact ⟨hr.1, fun b hb => by cases hb⟩
  · refine (hf h' a hr.1 (hr.2 a rfl)).mono (fun _ _ hr => hr) (fun _ _ hg => hg) ?_
    intro h'' r' hr'
    exact ⟨List.Subset.trans hr.1 hr'.1, hr'.2⟩

theorem safe_requiredVar (name : String) :
    Safe rely (InOrder K J yaml R) (fun h' r => h ⊆ h' ∧ ∀ v, r = .ok v →
      (⟨.var name, .ok v⟩ : Ev startSig) ∈ h') h (requiredVar name) := by
  refine ⟨trivial, fun r _ => ?_⟩
  rcases r with e | v
  · exact ⟨List.subset_append_left _ _, fun v hv => by cases hv⟩
  · refine ⟨List.subset_append_left _ _, fun v' hv => ?_⟩
    cases hv
    simp

theorem i64_zero : i64Min ≤ 0 ∧ 0 ≤ i64Max := by decide

theorem safe_daysVar (name : String) (default : Int) :
    Safe rely (InOrder K J yaml R) (fun h' r => h ⊆ h' ∧ ∀ n, r = .ok n →
      Days (· ∈ h') name default n) h (daysVar K name default) := by
  refine ⟨trivial, fun r _ => ?_⟩
  rcases r with e | v
  · refine ⟨List.subset_append_left _ _, fun n hn => ?_⟩
    cases hn
    exact Or.inr ⟨⟨e, by simp⟩, rfl⟩
  dsimp only
  rcases hp : Numeral.parse i64Min i64Max v with e | n
  · exact ⟨List.subset_append_left _ _, fun n hn => by cases hn⟩
  · refine ⟨List.subset_append_left _ _, fun n' hn => ?_⟩
    cases hn
    exact Or.inl ⟨v, by simp, (Numeral.parse_ok_iff i64_zero.1 i64_zero.2).mp hp⟩

theorem safe_loadEnv :
    Safe rely (InOrder K J yaml R) (fun h' r => h ⊆ h' ∧ ∀ env, r = .ok env →
      EnvRead (· ∈ h') env) h (loadEnv K) := by
  refine safe_stage (safe_requiredVar _) fun h₁ v₁ _ hv₁ => ?_
  refine safe_stage (safe_requiredVar _) fun h₂ v₂ s₂ hv₂ => ?_
  refine safe_stage (safe_requiredVar _) fun h₃ v₃ s₃ hv₃ => ?_
  refine safe_stage (safe_requiredVar _) fun h₄ v₄ s₄ hv₄ => ?_
  refine safe_stage (safe_requiredVar _) fun h₅ v₅ s₅ hv₅ => ?_
  refine safe_stage (safe_requiredVar _) fun h₆ v₆ s₆ hv₆ => ?_
  refine safe_stage (safe_requiredVar _) fun h₇ v₇ s₇ hv₇ => ?_
  refine safe_stage (safe_requiredVar _) fun h₈ v₈ s₈ hv₈ => ?_
  refine safe_stage (safe_requiredVar _) fun h₉ v₉ s₉ hv₉ => ?_
  refine safe_stage (safe_daysVar _ _) fun h₁₀ n₁₀ s₁₀ hn₁₀ => ?_
  refine safe_stage (safe_daysVar _ _) fun h₁₁ n₁₁ s₁₁ hn₁₁ => ?_
  refine ⟨List.Subset.refl _, fun env henv => ?_⟩
  cases henv
  -- what was read stays read
  have k₉ := List.Subset.trans s₁₀ s₁₁
  have k₈ := List.Subset.trans s₉ k₉
  have k₇ := List.Subset.trans s₈ k₈
  have k₆ := List.Subset.trans s₇ k₇
  have k₅ := List.Subset.trans s₆ k₆
  have k₄ := List.Subset.trans s₅ k₅
  have k₃ := List.Subset.trans s₄ k₄
  have k₂ := List.Subset.trans s₃ k₃
  have k₁ := List.Subset.trans s₂ k₂
  exact ⟨k₁ hv₁, k₂ hv₂, k₃ hv₃, k₄ hv₄, k₅ hv₅, k₆ hv₆, k₇ hv₇, k₈ hv₈, k₉ hv₉,
    hn₁₀.mono fun _ hev => s₁₁ hev, hn₁₁⟩

theorem safe_load {env : EnvConfig} (henv : EnvRead (· ∈ h) env) :
    Safe rely (InOrder K J yaml R) (fun h' r => h ⊆ h' ∧ ∀ authz, r = .ok authz →
      ConfigLoaded K yaml (· ∈ h') env authz) h
      (AuthzTable.load K yaml env.clientsConfig env.integrityKeyLabel) := by
  refine ⟨⟨env, henv, rfl⟩, fun r _ => ?_⟩
  rcases r with e | text
  · exact ⟨List.subset_append_left _ _, fun authz ha => by cases ha⟩
  dsimp only
  rcases hl : AuthzTable.fromStr K yaml text env.integrityKeyLabel with e | t
  · exact ⟨List.subset_append_left _ _, fun authz ha => by cases ha⟩
  · refine ⟨List.subset_append_left _ _, fun authz ha => ?_⟩
    cases ha
    exact ⟨text, by simp, hl⟩

theorem safe_openAudit {env : EnvConfig} {authz : AuthzTable} (henv : EnvRead (· ∈ h) env)
    (hc : ConfigLoaded K yaml (· ∈ h) env authz) :
    Safe rely (InOrder K J yaml R) (fun h' r => h ⊆ h' ∧ ∀ log, r = .ok log →
      LogOpened K J (· ∈ h') env log) h (openAudit K J env.auditLog) := by
  refine ⟨⟨env, authz, henv, hc, rfl⟩, fun file _ => ?_⟩
  have h₁ : h ⊆ h ++ [⟨.readLog env.auditLog, file⟩] := List.subset_append_left _ _
  dsimp only
  rcases hv : verifyChain K J env.auditLog file with e | last
  · exact ⟨h₁, fun log hl => by cases hl⟩
  have hfile : LogVerified K J (· ∈ h ++ [⟨.readLog env.auditLog, file⟩]) env file := by
    obtain ⟨es, hes, hck⟩ := verifyChain_ok.mp hv
    exact ⟨by simp, es, last, hes, hck⟩
  refine ⟨⟨env, authz, file, henv.mono fun _ hev => h₁ hev, hc.mono fun _ hev => h₁ hev, hfile,
    rfl⟩, fun opened _ => ?_⟩
  refine ⟨List.Subset.trans h₁ (List.subset_append_left _ _), fun log hl => ?_⟩
  rcases opened with e | ⟨⟩
  · simp [openLog, hv] at hl
  · refine ⟨file, ⟨List.mem_append_left _ hfile.1, hfile.2⟩, ?_, hl⟩
    simp

theorem safe_connect {env : EnvConfig} {authz : AuthzTable} {log : LogState}
    (henv : EnvRead (· ∈ h) env) (hc : ConfigLoaded K yaml (· ∈ h) env authz)
    (hl : LogOpened K J (· ∈ h) env log) :
    Safe rely (InOrder K J yaml R) (fun h' r => h ⊆ h' ∧ ∀ hsm, r = .ok hsm →
      Connected (· ∈ h') env hsm) h (HsmClient.connect K env.pkcs11Module env.hsmPin) := by
  have hbefore : ∀ h', h ⊆ h' → ∃ env authz log, EnvRead (· ∈ h') env ∧
      ConfigLoaded K yaml (· ∈ h') env authz ∧ LogOpened K J (· ∈ h') env log := by
    intro h' hs
    exact ⟨env, authz, log, henv.mono fun _ hev => hs hev, hc.mono fun _ hev => hs hev,
      hl.mono fun _ hev => hs hev⟩
  refine ⟨hbefore h (List.Subset.refl _), fun r _ => ?_⟩
  have h₁ : h ⊆ h ++ [⟨.loadModule env.pkcs11Module, r⟩] := List.subset_append_left _ _
  rcases r with e | ⟨⟩
  · exact ⟨h₁, fun hsm hh => by cases hh⟩
  refine ⟨hbefore _ h₁, fun r _ => ?_⟩
  have h₂ := List.Subset.trans h₁ (List.subset_append_left _ [⟨.cInitialize, r⟩])
  rcases r with e | ⟨⟩
  · exact ⟨h₂, fun hsm hh => by cases hh⟩
  refine ⟨hbefore _ h₂, fun r _ => ?_⟩
  have h₃ := List.Subset.trans h₂ (List.subset_append_left _ [⟨.slotsWithToken, r⟩])
  rcases r with e | _ | ⟨slot, slots⟩
  · exact ⟨h₃, fun hsm hh => by cases hh⟩
  · exact ⟨h₃, fun hsm hh => by cases hh⟩
  · refine ⟨h₃, fun hsm hh => ?_⟩
    cases hh
    exact ⟨by simp, by simp, ⟨slots, by simp⟩, rfl⟩

/-- Reading a PEM file, once the HSM is connected. -/
theorem safe_loadCerts {path : String} (hord : InOrder K J yaml R h (.openPem path)) :
    Safe rely (InOrder K J yaml R) (fun h' r => h ⊆ h' ∧ ∀ certs, r = .ok certs →
      Certs (· ∈ h') path certs) h (loadCerts K path) := by
  refine ⟨hord, fun r _ => ?_⟩
  have h₁ : h ⊆ h ++ [⟨.openPem path, r⟩] := List.subset_append_left _ _
  rcases r with e | ⟨certs, key⟩
  · exact ⟨h₁, fun certs hc => by cases hc⟩
  rcases certs with e | _ | ⟨cert, certs⟩
  · exact ⟨h₁, fun certs hc => by cases hc⟩
  · exact ⟨h₁, fun certs hc => by cases hc⟩
  · refine ⟨h₁, fun certs' hc => ?_⟩
    cases hc
    exact ⟨List.cons_ne_nil _ _, _, List.mem_append_right _ (List.mem_singleton_self _), rfl⟩

theorem safe_loadPrivateKey {path : String} (hord : InOrder K J yaml R h (.openPem path)) :
    Safe rely (InOrder K J yaml R) (fun h' r => h ⊆ h' ∧ ∀ key, r = .ok key →
      Key (· ∈ h') path key) h (loadPrivateKey K path) := by
  refine ⟨hord, fun r _ => ?_⟩
  have h₁ : h ⊆ h ++ [⟨.openPem path, r⟩] := List.subset_append_left _ _
  rcases r with e | ⟨certs, key⟩
  · exact ⟨h₁, fun key hk => by cases hk⟩
  rcases key with e | _ | key
  · exact ⟨h₁, fun key hk => by cases hk⟩
  · exact ⟨h₁, fun key hk => by cases hk⟩
  · refine ⟨h₁, fun key' hk => ?_⟩
    cases hk
    exact ⟨_, List.mem_append_right _ (List.mem_singleton_self _), rfl⟩

theorem addRoots_ok_iff {certs : List (List UInt8)} :
    addRoots R certs = .ok () ↔ ∀ cert ∈ certs, R.addRoot cert = .ok () := by
  induction certs with
  | nil => simp [addRoots]
  | cons cert rest ih =>
    rw [addRoots, List.forall_mem_cons]
    rcases R.addRoot cert with e | ⟨⟩
    · simp
    · simp [ih]

theorem tlsConfig_ok_iff {certs roots : List (List UInt8)} {key : List UInt8} {tls : TlsConfig} :
    tlsConfig R certs key roots = .ok tls ↔ tls = ⟨roots, certs, key⟩ ∧
      (∀ cert ∈ roots, R.addRoot cert = .ok ()) ∧ R.clientVerifier roots = .ok () ∧
      R.singleCert certs key = .ok () := by
  rw [tlsConfig, ← addRoots_ok_iff]
  rcases addRoots R roots with e | ⟨⟩
  · simp
  rcases R.clientVerifier roots with e | ⟨⟩
  · simp
  rcases R.singleCert certs key with e | ⟨⟩
  · simp
  · simp [eq_comm]

/-- **Startup keeps to its order**, whatever the machine answers. -/
theorem safe_start :
    Safe rely (InOrder K J yaml R) (fun h' r => h ⊆ h' ∧ ∀ L, r = .ok L →
      ∃ env, Fit K J yaml R (· ∈ h') env L ∧
        (⟨.bind env.listenAddr, .ok ()⟩ : Ev startSig) ∈ h') h (start K J yaml R) := by
  refine safe_stage safe_loadEnv fun h₁ env _ henv => ?_
  refine safe_stage (safe_load henv) fun h₂ authz s₂ hc => ?_
  have henv := henv.mono fun _ hev => s₂ hev
  refine safe_stage (safe_openAudit henv hc) fun h₃ log s₃ hl => ?_
  have henv := henv.mono fun _ hev => s₃ hev
  have hc := hc.mono fun _ hev => s₃ hev
  refine safe_stage (safe_connect henv hc hl) fun h₄ hsm s₄ hh => ?_
  have hpem : ∀ h' path, h₄ ⊆ h' → InOrder K J yaml R h' (.openPem path) := by
    intro h' path hs
    have hs' := List.Subset.trans s₄ hs
    exact ⟨env, authz, log, hsm, henv.mono fun _ hev => hs' hev, hc.mono fun _ hev => hs' hev,
      hl.mono fun _ hev => hs' hev, hh.mono fun _ hev => hs hev⟩
  refine safe_stage (safe_loadCerts (hpem h₄ _ (List.Subset.refl _))) fun h₅ certs s₅ hcert => ?_
  refine safe_stage (safe_loadPrivateKey (hpem h₅ _ s₅)) fun h₆ key s₆ hkey => ?_
  have s₄₆ := List.Subset.trans s₅ s₆
  refine safe_stage (safe_loadCerts (hpem h₆ _ s₄₆)) fun h₇ roots s₇ hroots => ?_
  rcases htls : tlsConfig R certs key roots with e | tls
  · exact ⟨List.Subset.refl _, fun L hL => by cases hL⟩
  obtain ⟨rfl, hadd, hver, hsingle⟩ := tlsConfig_ok_iff.mp htls
  have s₆₇ := List.Subset.trans s₆ s₇
  have s₄₇ := List.Subset.trans s₅ s₆₇
  have s₃₇ := List.Subset.trans s₄ s₄₇
  have hfit : Fit K J yaml R (· ∈ h₇) env ⟨env.gateway authz hsm, log, ⟨roots, certs, key⟩⟩ :=
    { vars := henv.mono fun _ hev => s₃₇ hev
      config := hc.mono fun _ hev => s₃₇ hev
      log := hl.mono fun _ hev => s₃₇ hev
      hsm := hh.mono fun _ hev => s₄₇ hev
      tls := ⟨hcert.mono fun _ hev => s₆₇ hev, hkey.mono fun _ hev => s₇ hev, hroots, hadd, hver,
        hsingle⟩
      gateway := rfl }
  refine ⟨⟨env, _, hfit, rfl⟩, fun r _ => ?_⟩
  rcases r with e | ⟨⟩
  · exact ⟨List.subset_append_left _ _, fun L hL => by cases hL⟩
  · refine ⟨List.subset_append_left _ _, fun L hL => ?_⟩
    cases hL
    exact ⟨env, hfit.mono fun _ hev => List.mem_append_left _ hev, by simp⟩

theorem inv_of_fromStr {text I : String} {t : AuthzTable}
    (hl : AuthzTable.fromStr K yaml text I = .ok t) : AuthzTable.Inv K I t := by
  rw [AuthzTable.fromStr] at hl
  rcases hy : yaml text with e | cfg
  · rw [hy] at hl
    cases hl
  · rw [hy] at hl
    exact AuthzTable.fromConfig_inv hl

/-- What is in order when startup has reached its accept loop. -/
theorem fit_of_steps {t : List (Ev startSig)} {L : Listening}
    (ht : Steps (start K J yaml R) t (.ret (.ok L))) :
    ∃ env, Fit K J yaml R (· ∈ t) env L ∧ (⟨.bind env.listenAddr, .ok ()⟩ : Ev startSig) ∈ t := by
  have hs : Safe (fun _ _ => True) (InOrder K J yaml R) _ [] (start K J yaml R) := safe_start
  exact (hs.post_of_steps ht fun _ _ _ _ => trivial).2 L rfl

/-- **Nothing is done too early.**  Whatever the machine answers, in every run of startup,
finished or not: the log is opened for writing only when the whole environment was there,
the clients config was accepted with the integrity key set apart, and the log was found to
be a chain from `GENESIS`; the HSM is touched only when the log is open; the port is bound
only when everything is in order.  The gateway that then serves has an authorization table
that is well formed and never grants the integrity key, and continues the chain it found. -/
theorem start_vetted {t : List (Ev startSig)} {p : Prog startSig (Except String Listening)}
    (ht : Steps (start K J yaml R) t p) :
    (∀ t₁ ev t₂, t = t₁ ++ ev :: t₂ → InOrder K J yaml R t₁ ev.op) ∧
      ∀ L, p = .ret (.ok L) →
        (∃ env, Fit K J yaml R (· ∈ t) env L ∧
          (⟨.bind env.listenAddr, .ok ()⟩ : Ev startSig) ∈ t) ∧
        AuthzTable.Inv K L.gateway.integrityLabel L.gateway.authz ∧
        ∃ es, parseLog J L.log.file = some es ∧
          HashChain.check (Entry.links K) genesis es = some L.log.lastHashB64 := by
  have hs : Safe (fun _ _ => True) (InOrder K J yaml R) _ [] (start K J yaml R) := safe_start
  have ha : Along (fun (_ : List (Ev startSig)) _ => True) [] t := fun _ _ _ _ => trivial
  constructor
  · intro t₁ ev t₂ heq
    simpa using hs.guar_of_steps ht ha heq
  · rintro L rfl
    obtain ⟨env, hfit, hbind⟩ := fit_of_steps ht
    refine ⟨⟨env, hfit, hbind⟩, ?_, ?_⟩
    · obtain ⟨text, -, hload⟩ := hfit.config
      rw [hfit.gateway]
      exact inv_of_fromStr hload
    · obtain ⟨file, -, -, hopen⟩ := hfit.log
      obtain ⟨es, -, hes, hck⟩ := openLog_ok hopen
      exact ⟨es, hes, hck⟩

end Order

/-! ### A machine that does not change meanwhile -/

section Machine

open Prog

variable {K J yaml R} {machine : (e : StartOp) → StartOp.Ret e}

/-- What this machine tells. -/
def Tells (machine : (e : StartOp) → StartOp.Ret e) (ev : Ev startSig) : Prop :=
  machine ev.op = ev.ret

/-- A stage that succeeds, and going on behind it. -/
theorem exec_andThen_ok {α β : Type} {p : Prog startSig (Except String α)}
    {f : α → Prog startSig (Except String β)} {a : α} (h : (p.exec machine).2 = .ok a) :
    ((p.andThen f).exec machine).2 = ((f a).exec machine).2 := by
  rw [andThen, exec_bind, h]

/-- One question to the machine. -/
theorem exec_call {α : Type} {e : StartOp} {k : StartOp.Ret e → Prog startSig α}
    {r : StartOp.Ret e} (h : Tells machine ⟨e, r⟩) :
    ((call e k : Prog startSig α).exec machine).2 = ((k r).exec machine).2 := by
  have h : machine e = r := h
  rw [← h]
  rfl

theorem exec_requiredVar {name v : String} (h : Tells machine ⟨.var name, .ok v⟩) :
    ((requiredVar name).exec machine).2 = .ok v :=
  exec_call h

theorem exec_daysVar {name : String} {default n : Int} (h : Days (Tells machine) name default n) :
    ((daysVar K name default).exec machine).2 = .ok n := by
  rcases h with ⟨v, hv, hn⟩ | ⟨⟨e, he⟩, rfl⟩
  · refine (exec_call hv).trans ?_
    dsimp only
    rw [(Numeral.parse_ok_iff i64_zero.1 i64_zero.2).mpr hn]
    rfl
  · exact exec_call he

theorem exec_loadEnv {env : EnvConfig} (h : EnvRead (Tells machine) env) :
    ((loadEnv K).exec machine).2 = .ok env := by
  rw [loadEnv, exec_andThen_ok (exec_requiredVar h.listenAddr),
    exec_andThen_ok (exec_requiredVar h.serverCert), exec_andThen_ok (exec_requiredVar h.serverKey),
    exec_andThen_ok (exec_requiredVar h.clientCa),
    exec_andThen_ok (exec_requiredVar h.clientsConfig),
    exec_andThen_ok (exec_requiredVar h.pkcs11Module), exec_andThen_ok (exec_requiredVar h.hsmPin),
    exec_andThen_ok (exec_requiredVar h.auditLog),
    exec_andThen_ok (exec_requiredVar h.integrityKeyLabel),
    exec_andThen_ok (exec_daysVar h.maxClientCertValidityDays),
    exec_andThen_ok (exec_daysVar h.certExpiryWarnDays)]
  rfl

theorem exec_load {env : EnvConfig} {authz : AuthzTable}
    (h : ConfigLoaded K yaml (Tells machine) env authz) :
    ((AuthzTable.load K yaml env.clientsConfig env.integrityKeyLabel).exec machine).2 =
      .ok authz := by
  obtain ⟨text, ht, hl⟩ := h
  refine (exec_call ht).trans ?_
  dsimp only
  rw [hl]
  rfl

theorem exec_openAudit {env : EnvConfig} {log : LogState}
    (h : LogOpened K J (Tells machine) env log) :
    ((openAudit K J env.auditLog).exec machine).2 = .ok log := by
  obtain ⟨file, ⟨hf, es, last, hes, hck⟩, ho, hl⟩ := h
  have hv : verifyChain K J env.auditLog file = .ok last := verifyChain_ok.mpr ⟨es, hes, hck⟩
  refine (exec_call hf).trans ?_
  rw [hv]
  dsimp only
  exact (exec_call ho).trans hl

theorem exec_connect {env : EnvConfig} {hsm : HsmClient} (h : Connected (Tells machine) env hsm) :
    ((HsmClient.connect K env.pkcs11Module env.hsmPin).exec machine).2 = .ok hsm := by
  obtain ⟨slots, hs⟩ := h.slot
  refine (exec_call h.loaded).trans ?_
  refine (exec_call h.initialized).trans ?_
  refine (exec_call hs).trans ?_
  rw [← h.pin]
  rfl

theorem exec_loadCerts {path : String} {certs : List (List UInt8)}
    (h : Certs (Tells machine) path certs) : ((loadCerts K path).exec machine).2 = .ok certs := by
  obtain ⟨hne, pem, hp, hc⟩ := h
  refine (exec_call hp).trans ?_
  dsimp only
  rw [hc]
  rcases certs with _ | ⟨cert, certs⟩
  · exact absurd rfl hne
  · rfl

theorem exec_loadPrivateKey {path : String} {key : List UInt8} (h : Key (Tells machine) path key) :
    ((loadPrivateKey K path).exec machine).2 = .ok key := by
  obtain ⟨pem, hp, hk⟩ := h
  refine (exec_call hp).trans ?_
  dsimp only
  rw [hk]
  rfl

/-- **When the gateway listens.**  On a machine that does not change meanwhile: exactly if all
nine variables are set, the two optional ones are numerals of 64 bits or absent, the clients
config is accepted, the log is missing or a chain from `GENESIS` and can be opened, the PKCS#11
module loads and some slot has a token, the certificates and the key are there and accepted,
and the port is free. -/
theorem start_listens_iff {L : Listening} :
    ((start K J yaml R).exec machine).2 = .ok L ↔
      ∃ env, Fit K J yaml R (Tells machine) env L ∧ machine (.bind env.listenAddr) = .ok () := by
  constructor
  · intro h
    have ht := steps_exec machine (start K J yaml R)
    rw [h] at ht
    have hs : Safe (fun _ _ => True) (InOrder K J yaml R) _ [] (start K J yaml R) := safe_start
    obtain ⟨env, hfit, hbind⟩ := (hs.post_of_steps ht fun _ _ _ _ => trivial).2 L rfl
    have hm : ∀ ev ∈ ((start K J yaml R).exec machine).1, Tells machine ev := fun ev hev =>
      (ret_of_mem_exec hev).symm
    exact ⟨env, hfit.mono hm, hm _ hbind⟩
  · rintro ⟨env, h, hbind⟩
    rw [start, exec_andThen_ok (exec_loadEnv h.vars), exec_andThen_ok (exec_load h.config),
      exec_andThen_ok (exec_openAudit h.log), exec_andThen_ok (exec_connect h.hsm),
      exec_andThen_ok (exec_loadCerts h.tls.serverCerts),
      exec_andThen_ok (exec_loadPrivateKey h.tls.serverKey),
      exec_andThen_ok (exec_loadCerts h.tls.clientRoots),
      tlsConfig_ok_iff.mpr ⟨rfl, h.tls.roots, h.tls.verifier, h.tls.singleCert⟩]
    dsimp only
    refine (exec_call (show Tells machine ⟨.bind env.listenAddr, .ok ()⟩ from hbind)).trans ?_
    obtain ⟨gateway, log, tls⟩ := L
    rw [show gateway = env.gateway gateway.authz gateway.hsm from h.gateway]
    rfl

end Machine

/-! ### A first start -/

/-- The reference config, no log yet, one token, and seven days of warning. -/
def sampleMachine : (e : StartOp) → StartOp.Ret e
  | .var name =>
    if name = "GATEWAY_MAX_CLIENT_CERT_VALIDITY_DAYS" then .error .notPresent
    else if name = "GATEWAY_CERT_EXPIRY_WARN_DAYS" then .ok "+7"
    else if name = "GATEWAY_INTEGRITY_KEY_LABEL" then .ok "gateway-integrity"
    else .ok name
  | .readToString _ => .ok "clients: .."
  | .readLog _ => .notFound
  | .openAppend _ => .ok ()
  | .loadModule _ => .ok ()
  | .cInitialize => .ok ()
  | .slotsWithToken => .ok [0]
  | .openPem _ => .ok ⟨.ok [[1]], .ok (some [2])⟩
  | .bind _ => .ok ()

def sampleStart : Prog startSig (Except String Listening) :=
  start Ref.crates Ref.entryJson (fun _ => .ok Ref.config)
    ⟨fun _ => .ok (), fun _ => .ok (), fun _ _ => .ok ()⟩

/-- The gateway that is started. -/
def sampleListening : Listening :=
  ⟨⟨Ref.table, ⟨0, "GATEWAY_HSM_PIN"⟩, "gateway-integrity", 90, 7⟩, ⟨[], genesis⟩,
    ⟨[[1]], [[1]], [2]⟩⟩

theorem exec_sampleStart : (sampleStart.exec sampleMachine).2 = .ok sampleListening := by
  rfl

theorem start_vetted_sampleMachine :
    (sampleStart.exec sampleMachine).2 = .ok sampleListening ∧
      AuthzTable.Inv Ref.crates "gateway-integrity" Ref.table ∧
      ∃ es, parseLog Ref.entryJson [] = some es ∧
        HashChain.check (Entry.links Ref.crates) genesis es = some genesis := by
  have h := start_vetted (Prog.steps_exec sampleMachine sampleStart)
  obtain ⟨-, hinv, hes⟩ := h.2 sampleListening (congrArg Prog.ret exec_sampleStart)
  exact ⟨exec_sampleStart, hinv, hes⟩

end PicoHsm
