/-
One mTLS connection (`handle_connection` of `server.rs`).

A connection is a program over the operations of the gateway and one more, writing to
the transport.  What the client sends is a byte string and how it ends (end of stream,
or a transport error behind it); it is cut into lines as `Lines::next_line` does.  The
client's certificates are there as the X.509 parser reads them.  The clock `now` is in
nanoseconds, certificate timestamps are in seconds, and chrono's `num_days` is a
quotient that is truncated toward zero.

* `handleConnection`, `handleLines` — the function and its loop;
* `handleConnection_eq` — what is left of it behind a readable certificate.
-/
import PicoHsm.Pipeline

namespace PicoHsm

open Text Effects

/-! ### Operations of a connection -/

inductive ConnOp where
  | gw (op : GwOp)
  /-- `writer.write_all` -/
  | write (bytes : List UInt8)

def ConnOp.Ret : ConnOp → Type
  | .gw op => op.Ret
  | .write _ => Except String Unit

abbrev connSig : Sig := ⟨ConnOp, ConnOp.Ret⟩

/-- Gateway code on a connection. -/
def liftGw {α : Type} (p : Prog gwSig α) : Prog connSig α :=
  p.interp fun op => .call (.gw op) fun r => .ret r

/-! ### The client certificate -/

/-- What the gateway reads of a certificate: the values of its CN attributes and its
validity, as timestamps. -/
structure LeafCert where
  commonNames : List (List UInt8)
  notBefore : Int
  notAfter : Int

/-- The chain a client presents, each certificate as `X509Certificate::from_der` reads
it. -/
abbrev PeerCertificates := Option (List (Except String LeafCert))

def peerLeafCert (peerCertificates : PeerCertificates) : Except String LeafCert :=
  match peerCertificates with
  | none => .error "no client certificate presented"
  | some [] => .error "empty client certificate chain"
  | some (.error e :: _) => .error (withContext "cannot parse client certificate" e)
  | some (.ok cert :: _) => .ok cert

/-- `utf8Error` is the text of a `Utf8Error`. -/
def certCn (utf8Error : List UInt8 → String) (cert : LeafCert) : Except String String :=
  match cert.commonNames with
  | [] => .error "client certificate has no CN"
  | cnAttr :: _ =>
    match fromUtf8 cnAttr with
    | none => .error (withContext "client certificate CN is not UTF-8" (utf8Error cnAttr))
    | some cn => if trim cn = "" then .error "client certificate CN is empty" else .ok cn

/-- `DateTime::from_timestamp(ts, 0)` is `Some` from -262143-01-01 to 262142-12-31. -/
def chronoRange (timestamp : Int) : Bool :=
  -8334601228800 ≤ timestamp && timestamp ≤ 8210266876799

def nanosPerSec : Int := 1000000000

def secsPerDay : Int := 86400

/-- `TimeDelta::num_days` of a duration in nanoseconds. -/
def numDays (nanos : Int) : Int := nanos.tdiv (secsPerDay * nanosPerSec)

/-- `(total_validity_days, days_until_expiry)` -/
def certPolicyNumbers (cert : LeafCert) (now : Int) : Except String (Int × Int) :=
  if chronoRange cert.notBefore = false then
    .error "client certificate not_before out of range"
  else if chronoRange cert.notAfter = false then
    .error "client certificate not_after out of range"
  else
    .ok (numDays (cert.notAfter * nanosPerSec - cert.notBefore * nanosPerSec),
      numDays (cert.notAfter * nanosPerSec - now))

/-! ### The loop over the lines -/

/-- What a client sends: its bytes, then the end of the stream or a transport error. -/
structure Incoming where
  bytes : List UInt8
  failure : Option String

/-- The lines that are read.  The end of the stream ends a last line, an error loses
it. -/
def Incoming.lines (inc : Incoming) : List (List UInt8) :=
  match inc.failure with
  | none => Text.lines inc.bytes
  | some _ => (splitLf inc.bytes).1.map stripCr

/-- The message of an `InvalidData` error of `next_line`. -/
def notUtf8 : String := "stream did not contain valid UTF-8"

/-- The text of a response; `toJson` is `serde_json::to_string`. -/
def responseText (toJson : Response → Except String String) (response : Response) : String :=
  match toJson response with
  | .ok s => s
  | .error _ => "\x7b\"status\":\"error\",\"message\":\"response serialization failed\"\x7d"

/-- A response on the wire. -/
def responseLine (toJson : Response → Except String String) (response : Response) : List UInt8 :=
  utf8 (responseText toJson response) ++ [lf]

namespace Gateway

variable (K : Crates) (g : Gateway) (parse : String → Except String Request)
  (toJson : Response → Except String String)

/-- The `while let` loop of `handle_connection`. -/
def handleLines (cn : String) (failure : Option String) :
    List (List UInt8) → Prog connSig (Except String Unit)
  | [] =>
    match failure with
    | none => .ret (.ok ())
    | some e => .ret (.error e)
  | l :: rest =>
    match fromUtf8 l with
    | none => .ret (.error notUtf8)
    | some line =>
      if trim line = "" then handleLines cn failure rest
      else
        liftGw (g.processLine K parse cn line) >>= fun response =>
          .call (.write (responseLine toJson response)) fun (r : Except String Unit) =>
            match r with
            | .error _ => .ret (.ok ())
            | .ok _ => handleLines cn failure rest

/-- `Gateway::handle_connection` -/
def handleConnection (utf8Error : List UInt8 → String) (peerCertificates : PeerCertificates)
    (now : Int) (inc : Incoming) : Prog connSig (Except String Unit) :=
  match peerLeafCert peerCertificates with
  | .error e => .ret (.error e)
  | .ok cert =>
    match certCn utf8Error cert with
    | .error e => .ret (.error e)
    | .ok cn =>
      match certPolicyNumbers cert now with
      | .error e => .ret (.error e)
      | .ok (validityDays, daysLeft) =>
        liftGw (g.certPolicy cn validityDays daysLeft) >>= fun accepted =>
          if accepted = false then .ret (.error "cert_policy_violation")
          else g.handleLines K parse toJson cn inc.failure inc.lines

variable {K g parse toJson}

/-! ### Behind a readable certificate -/

/-- The client presents `cert`, which names `cn` and whose timestamps are in range. -/
structure Presents (utf8Error : List UInt8 → String) (certs : PeerCertificates) (cert : LeafCert)
    (cn : String) : Prop where
  leaf : peerLeafCert certs = .ok cert
  cn : certCn utf8Error cert = .ok cn
  notBefore : chronoRange cert.notBefore = true
  notAfter : chronoRange cert.notAfter = true

def rejection (cn : String) : ConnOp :=
  .gw (.append ⟨cn, "connect", "", .denied, "cert_policy_violation: validity exceeds maximum"⟩)

def warning (cn : String) (daysLeft : Int) : ConnOp :=
  .gw (.append ⟨cn, "connect", "", .certExpiringSoon, "expires in " ++ toString daysLeft ++ "d"⟩)

variable {utf8Error : List UInt8 → String} {certs : PeerCertificates} {cert : LeafCert}
  {cn : String}

/-- Behind a readable certificate, a connection is rejected, or its lines are handled
behind a warning or not. -/
theorem handleConnection_eq (hp : Presents utf8Error certs cert cn) (now : Int) (inc : Incoming) :
    g.handleConnection K parse toJson utf8Error certs now inc =
      if g.maxCertValidityDays < numDays (cert.notAfter * nanosPerSec - cert.notBefore * nanosPerSec)
      then .call (rejection cn) fun _ => .ret (.error "cert_policy_violation")
      else if numDays (cert.notAfter * nanosPerSec - now) ≤ g.certExpiryWarnDays
      then .call (warning cn (numDays (cert.notAfter * nanosPerSec - now))) fun _ =>
        g.handleLines K parse toJson cn inc.failure inc.lines
      else g.handleLines K parse toJson cn inc.failure inc.lines := by
  rw [handleConnection, hp.leaf]
  dsimp only
  rw [hp.cn]
  dsimp only
  rw [certPolicyNumbers, if_neg (by simp [hp.notBefore]), if_neg (by simp [hp.notAfter])]
  dsimp only
  rw [certPolicy]
  by_cases hmax : g.maxCertValidityDays <
      numDays (cert.notAfter * nanosPerSec - cert.notBefore * nanosPerSec)
  · rw [if_pos hmax, if_pos hmax]
    rfl
  rw [if_neg hmax, if_neg hmax]
  by_cases hwarn : numDays (cert.notAfter * nanosPerSec - now) ≤ g.certExpiryWarnDays
  · rw [if_pos hwarn, if_pos hwarn]
    rfl
  · rw [if_neg hwarn, if_neg hwarn]
    rfl

end Gateway

namespace Ref

/-- A disk, an HSM and a transport that do what they are asked. -/
def obligingConn : (e : ConnOp) → ConnOp.Ret e
  | .gw op => obliging op
  | .write _ => .ok ()

/-- A certificate of `app-a` that is valid for so many seconds. -/
def certFor (seconds : Int) : LeafCert := ⟨[utf8 "app-a"], 0, seconds⟩

theorem presents_certFor {seconds : Int} (h : chronoRange seconds = true) :
    Gateway.Presents (fun _ => "") (some [.ok (certFor seconds)]) (certFor seconds) "app-a" where
  leaf := rfl
  cn := by
    rw [certCn, certFor]
    dsimp only
    rw [fromUtf8_utf8]
    rfl
  notBefore := rfl
  notAfter := h

end Ref

end PicoHsm
