/-
Reference implementations of the dependencies (part 3: JSON of requests and responses),
and a deployment to try statements on.

`requestText` is a request as a client writes it, `op` first and the fields in the
order of `protocol.rs`; `parseRequest` reads exactly such texts.  The real reader
accepts more (other field orders, whitespace); on these texts the two agree.
-/
import PicoHsm.ReferenceJson
import PicoHsm.Server

namespace PicoHsm.Ref

/-- A request's fields behind `op`. -/
def requestFields : Request → List (String × String)
  | .sign label mech data => [("key_label", label), ("mechanism", mech), ("data_b64", data)]
  | .verify label mech data sig =>
    [("key_label", label), ("mechanism", mech), ("data_b64", data), ("signature_b64", sig)]
  | .encrypt label mech data => [("key_label", label), ("mechanism", mech), ("data_b64", data)]
  | .decrypt label mech data iv integ =>
    [("key_label", label), ("mechanism", mech), ("data_b64", data), ("iv_b64", iv),
      ("integrity_b64", integ)]
  | .deriveAndEncrypt label derive target peer data =>
    [("key_label", label), ("derive_mechanism", derive), ("target_mechanism", target),
      ("peer_public_key_b64", peer), ("data_b64", data)]
  | .deriveAndDecrypt label derive target peer iv integ data =>
    [("key_label", label), ("derive_mechanism", derive), ("target_mechanism", target),
      ("peer_public_key_b64", peer), ("iv_b64", iv), ("integrity_b64", integ), ("data_b64", data)]

def opKey : List Char := "\x7b\"op\":".toList

def fieldKey (name : String) : List Char := (",\"" ++ name ++ "\":").toList

def writeFields : List (String × String) → List Char → List Char
  | [], rest => rest
  | (name, value) :: fs, rest => fieldKey name ++ (jsonString value.toList ++ writeFields fs rest)

def requestText (req : Request) : String :=
  String.ofList (opKey ++ (jsonString (opName req.operation).toList ++
    writeFields (requestFields req) closing))

def readFields : List String → List Char → Option (List String × List Char)
  | [], s => some ([], s)
  | name :: names, s =>
    match readString (fieldKey name) s with
    | none => none
    | some (value, s) => (readFields names s).map fun p => (value :: p.1, p.2)

/-- The fields an operation has. -/
def fieldNames (op : Operation) : List String :=
  match op with
  | .sign => ["key_label", "mechanism", "data_b64"]
  | .verify => ["key_label", "mechanism", "data_b64", "signature_b64"]
  | .encrypt => ["key_label", "mechanism", "data_b64"]
  | .decrypt => ["key_label", "mechanism", "data_b64", "iv_b64", "integrity_b64"]
  | .deriveAndEncrypt =>
    ["key_label", "derive_mechanism", "target_mechanism", "peer_public_key_b64", "data_b64"]
  | .deriveAndDecrypt =>
    ["key_label", "derive_mechanism", "target_mechanism", "peer_public_key_b64", "iv_b64",
      "integrity_b64", "data_b64"]

def buildRequest : Operation → List String → Option Request
  | .sign, [label, mech, data] => some (.sign label mech data)
  | .verify, [label, mech, data, sig] => some (.verify label mech data sig)
  | .encrypt, [label, mech, data] => some (.encrypt label mech data)
  | .decrypt, [label, mech, data, iv, integ] => some (.decrypt label mech data iv integ)
  | .deriveAndEncrypt, [label, derive, target, peer, data] =>
    some (.deriveAndEncrypt label derive target peer data)
  | .deriveAndDecrypt, [label, derive, target, peer, iv, integ, data] =>
    some (.deriveAndDecrypt label derive target peer iv integ data)
  | _, _ => none

def readOp (name : String) : Option Operation :=
  [Operation.sign, .verify, .encrypt, .decrypt, .deriveAndEncrypt, .deriveAndDecrypt].find?
    fun op => opName op = name

def readRequest (s : List Char) : Option Request := do
  let (name, s) ← readString opKey s
  let op ← readOp name
  let (values, s) ← readFields (fieldNames op) s
  if s = closing then buildRequest op values else none

def parseRequest (line : String) : Except String Request :=
  match readRequest line.toList with
  | none => .error "expected a request"
  | some req => .ok req

theorem readFields_writeFields (fs : List (String × String)) (rest : List Char) :
    readFields (fs.map Prod.fst) (writeFields fs rest) = some (fs.map Prod.snd, rest) := by
  induction fs with
  | nil => rfl
  | cons f fs ih =>
    rw [List.map_cons, readFields, writeFields, readString_append]
    dsimp only
    rw [ih]
    rfl

/-- What a client writes is what the gateway reads. -/
theorem parseRequest_requestText (req : Request) : parseRequest (requestText req) = .ok req := by
  have hop : readOp (opName req.operation) = some req.operation := by cases req <;> rfl
  have hnames : fieldNames req.operation = (requestFields req).map Prod.fst := by
    cases req <;> rfl
  have hbuild : buildRequest req.operation ((requestFields req).map Prod.snd) = some req := by
    cases req <;> rfl
  rw [parseRequest, requestText, String.toList_ofList, readRequest, readString_append]
  simp only [Option.bind_eq_bind, Option.bind_some, hop, hnames, readFields_writeFields, if_true,
    hbuild]

/-! ### Responses -/

def okKey : List Char := "\x7b\"status\":\"ok\",\"result_b64\":".toList
def verifiedKey : List Char := ",\"verified\":".toList
def ivKey : List Char := ",\"iv_b64\":".toList
def integrityKey : List Char := ",\"integrity_b64\":".toList
def deniedKey : List Char := "\x7b\"status\":\"denied\",\"reason\":".toList
def errorKey : List Char := "\x7b\"status\":\"error\",\"message\":".toList

def jsonOption : Option String → List Char
  | none => "null".toList
  | some s => jsonString s.toList

def jsonOptionBool : Option Bool → List Char
  | none => "null".toList
  | some true => "true".toList
  | some false => "false".toList

def writeResponse : Response → List Char
  | .ok result verified iv integrity =>
    okKey ++ (jsonOption result ++ (verifiedKey ++ (jsonOptionBool verified ++ (ivKey ++
      (jsonOption iv ++ (integrityKey ++ (jsonOption integrity ++ closing)))))))
  | .denied reason => deniedKey ++ (jsonString reason.toList ++ closing)
  | .error message => errorKey ++ (jsonString message.toList ++ closing)

def responseJson (response : Response) : Except String String :=
  .ok (String.ofList (writeResponse response))

theorem jsonOption_ge {o : Option String} {c : Char} (h : c ∈ jsonOption o) : 0x20 ≤ c.toNat := by
  rcases o with _ | s
  · exact noControl_ge rfl c h
  · exact jsonString_ge h

theorem writeResponse_ge {response : Response} {c : Char} (h : c ∈ writeResponse response) :
    0x20 ≤ c.toNat := by
  cases response with
  | ok result verified iv integrity =>
    have hv : ∀ c ∈ jsonOptionBool verified, 0x20 ≤ c.toNat := by
      rcases verified with _ | _ | _ <;> exact noControl_ge rfl
    simp only [writeResponse, List.mem_append] at h
    rcases h with h | h | h | h | h | h | h | h | h
    · exact noControl_ge rfl c h
    · exact jsonOption_ge h
    · exact noControl_ge rfl c h
    · exact hv c h
    · exact noControl_ge rfl c h
    · exact jsonOption_ge h
    · exact noControl_ge rfl c h
    · exact jsonOption_ge h
    · exact noControl_ge rfl c h
  | denied reason =>
    simp only [writeResponse, List.mem_append] at h
    rcases h with h | h | h
    · exact noControl_ge rfl c h
    · exact jsonString_ge h
    · exact noControl_ge rfl c h
  | error message =>
    simp only [writeResponse, List.mem_append] at h
    rcases h with h | h | h
    · exact noControl_ge rfl c h
    · exact jsonString_ge h
    · exact noControl_ge rfl c h

/-- A response is written on one line. -/
theorem responseJson_noBreak (response : Response) (s : String)
    (h : responseJson response = .ok s) : Text.lf ∉ Text.utf8 s := by
  rw [responseJson, Except.ok.injEq] at h
  subst h
  intro hb
  exact absurd (utf8_ge (fun c hc => writeResponse_ge hc) hb) (by decide)

/-! ### A deployment with two clients -/

/-- `app-a` signs and encrypts with `k1`, `app-b` decrypts with it; each may derive with
one peer key. -/
def config : FileConfig :=
  ⟨[⟨"app-a", [⟨.sign, ["k1"], none⟩, ⟨.encrypt, ["k1"], none⟩,
      ⟨.deriveAndEncrypt, ["k1"], some ["cGVlci1h"]⟩]⟩,
    ⟨"app-b", [⟨.decrypt, ["k1"], none⟩, ⟨.deriveAndDecrypt, ["k1"], some ["cGVlci1i"]⟩]⟩]⟩

def table : AuthzTable :=
  match AuthzTable.fromConfig crates config "gateway-integrity" with
  | .ok t => t
  | .error _ => AuthzTable.empty

def gateway : Gateway := ⟨table, ⟨0, "648219"⟩, "gateway-integrity", 90, 14⟩

theorem gateway_loaded :
    AuthzTable.fromConfig crates config gateway.integrityLabel = .ok gateway.authz := rfl

/-- A disk that takes every append and an HSM that does what it is asked. -/
def obliging : (e : GwOp) → GwOp.Ret e
  | .append _ => .ok ()
  | .spawn => .ran
  | .hsm (.sign _ _) => .ok [1, 2, 3, 4]
  | .hsm (.verify _ _ _) => .ok true
  | .hsm (.encrypt _ _) => .ok (List.replicate 16 7, [9, 9])
  | .hsm (.decrypt _ _ _) => .ok [5]
  | .hsm (.deriveAndEncrypt _ _ _) => .ok (List.replicate 16 7, [9, 9])
  | .hsm (.deriveAndDecrypt _ _ _ _) => .ok [5]

end PicoHsm.Ref
