import AtlasCex.Mpc.Answers
/-!
# What a caller's signature covers

| here | there |
| --- | --- |
| `CallerVerifier`, `verify` | `mpc/src/auth.rs:36-86` |
| `Headers`, `header`        | `mpc/src/http.rs:312-317`, the two headers the check reads |
| `Wire`                     | `serde_json::from_str` of each request type, `str::parse::<i64>` |
| `SignBody`, `signRequest`  | `http::sign` up to the swap point (`mpc/src/http.rs:62-127`) |
| `ParticipantEndpoint`, `participantRequest` | `frost_commit`, `frost_share`, `dkg_init`, `dkg_request` up to and with `authenticate` (`mpc/src/http.rs:340-582`) |

`/v1/sign` signs for the request id and the decoded payload, and so for any key; the other endpoints
for an id out of the body and the body itself. The age of a request is computed in `Int`; nothing
here rests on it.
-/
namespace AtlasCex.Mpc

open Lib (refuse require bind_eq_ok refuse_eq_ok require_eq_ok pure_eq_ok)

variable {Key : Type}

structure CallerVerifier (Key : Type) where
  publicKey : Key
  toleranceSeconds : Int

def CallerVerifier.verify (caller : CallerVerifier Key) (p : Primitives Key)
    (request : SignedRequest) (signatureBase64 : String) (now : Int) : Except MpcError Unit := do
  refuse (caller.toleranceSeconds < (now - request.timestamp).natAbs)
    (.unauthenticated "timestamp_outside_window")
  let bytes ← require (p.base64 (trimmed signatureBase64)) (.unauthenticated "signature_not_base64")
  refuse (bytes.length ≠ 64) (.unauthenticated "signature_wrong_length")
  refuse (p.verify caller.publicKey (canonicalString request) bytes = false)
    (.unauthenticated "signature_rejected")

/-! ## Requests -/

structure Headers where
  /-- `x-mpc-signature` -/
  signature : Option String
  /-- `x-mpc-timestamp` -/
  timestamp : Option String
deriving DecidableEq, Repr

def header (value : Option String) : Except MpcError String :=
  require value (.unauthenticated "missing_auth_header")

structure SignBody where
  requestId : RequestId
  keyRef : KeyRef
  /-- base64 -/
  payload : String
  authorization : AuthorizationProof
deriving DecidableEq, Repr

inductive ParticipantEndpoint where
  | commit
  | share
  | dkgInit
  | dkgRound1
  | dkgRound2
  | dkgFinalize
  | dkgCommit
deriving DecidableEq, Repr

def ParticipantEndpoint.path : ParticipantEndpoint → String
  | commit => "/v1/frost/commit"
  | share => "/v1/frost/share"
  | dkgInit => "/v1/frost/dkg/init"
  | dkgRound1 => "/v1/frost/dkg/round1"
  | dkgRound2 => "/v1/frost/dkg/round2"
  | dkgFinalize => "/v1/frost/dkg/finalize"
  | dkgCommit => "/v1/frost/dkg/commit"

/-- How texts are read; `none` is a parse error. -/
structure Wire where
  i64 : String → Option Int
  signBody : String → Option SignBody
  /-- The id a participant's request is signed for: `nonceId` of a commit or a share,
  `idempotencyKey` of an init, `sessionId` of the other `dkg` requests. -/
  requestId : ParticipantEndpoint → String → Option String

def asBytes (text : String) : Bytes := text.toByteArray.data.toList

theorem asBytes_inj {a b : String} (h : asBytes a = asBytes b) : a = b :=
  String.toByteArray_inj.1 (ByteArray.ext (Array.toList_inj.1 h))

section Check

variable (caller : CallerVerifier Key) (p : Primitives Key) (wire : Wire) (headers : Headers)
  (body : String) (now : Int)

/-- The two headers and the signature over what the endpoint signs for. -/
def authenticate (path : String) (requestId : String) (payloadHash : Bytes) :
    Except MpcError Unit := do
  let signature ← header headers.signature
  let text ← header headers.timestamp
  let timestamp ← require (wire.i64 text) (.unauthenticated "timestamp_not_an_integer")
  caller.verify p ⟨"POST", path, requestId, payloadHash, timestamp⟩ signature now

/-- What `/v1/sign` has in hand once the caller is known. -/
def signRequest : Except MpcError SignRequest := do
  let request ← require (wire.signBody body) (.badRequest "body_not_json")
  let payload ← require (p.base64 (trimmed request.payload)) (.badRequest "payload_not_base64")
  authenticate caller p wire headers now "/v1/sign" request.requestId (p.sha256 payload)
  pure ⟨request.requestId, request.keyRef, payload, request.authorization⟩

/-- The other endpoints sign for their whole body. -/
def participantRequest (endpoint : ParticipantEndpoint) : Except MpcError Unit := do
  let requestId ← require (wire.requestId endpoint body) (.badRequest "body_not_json")
  authenticate caller p wire headers now endpoint.path requestId (p.sha256 (asBytes body))

/-- The caller's signature and timestamp a request carries. -/
def Headers.credentials : Option (Bytes × Int) := do
  let signature ← headers.signature
  let text ← headers.timestamp
  let bytes ← p.base64 (trimmed signature)
  let timestamp ← wire.i64 text
  pure (bytes, timestamp)

end Check

/-! ## Two requests with one signature -/

section Covers

variable {caller : CallerVerifier Key} {p : Primitives Key} {wire : Wire}

/-- A signature is the caller's over one text: it verifies over no other. -/
def SignsOneText (p : Primitives Key) (key : Key) : Prop :=
  ∀ text other bytes, p.verify key text bytes = true → p.verify key other bytes = true → text = other

theorem authenticate_verified {headers : Headers} {path requestId : String} {payloadHash : Bytes}
    {now : Int}
    (h : authenticate caller p wire headers now path requestId payloadHash = .ok ()) :
    ∃ bytes timestamp, headers.credentials p wire = some (bytes, timestamp) ∧
      p.verify caller.publicKey
        (canonicalString ⟨"POST", path, requestId, payloadHash, timestamp⟩) bytes = true := by
  simp only [authenticate, header, CallerVerifier.verify, bind_eq_ok, require_eq_ok, refuse_eq_ok,
    Bool.not_eq_false] at h
  obtain ⟨signature, hsig, text, htext, timestamp, hts, -, -, bytes, hbytes, -, -, hverify⟩ := h
  refine ⟨bytes, timestamp, ?_, hverify⟩
  simp [Headers.credentials, hsig, htext, hts, hbytes]

/-- Same credentials at one path: same id, same hash. -/
theorem authenticate_covers (hone : SignsOneText p caller.publicKey) {a b : Headers}
    {path idA idB : String} {hashA hashB : Bytes} {nowA nowB : Int}
    (hsame : a.credentials p wire = b.credentials p wire)
    (ha : authenticate caller p wire a nowA path idA hashA = .ok ())
    (hb : authenticate caller p wire b nowB path idB hashB = .ok ()) : idA = idB ∧ hashA = hashB := by
  obtain ⟨bytes, timestamp, hcredA, hverifyA⟩ := authenticate_verified ha
  obtain ⟨bytes', timestamp', hcredB, hverifyB⟩ := authenticate_verified hb
  rw [hsame, hcredB] at hcredA
  cases hcredA
  have htext := hone _ _ _ hverifyA hverifyB
  exact canonicalString_inj (by rfl) (by rfl) (by rfl) htext

/-- The JSON of a request can name any key. -/
def Wire.NamesAnyKey (wire : Wire) : Prop :=
  ∀ body request, wire.signBody body = some request → ∀ keyRef, ∃ edited,
    wire.signBody edited = some { request with keyRef }

/-- **What one signature lets through.** Two requests accepted with the same signature and timestamp
have the same body at a participant endpoint, and the same request id and payload at `/v1/sign`.
There no signature covers its request: with the headers of any accepted one, the same request for
any other key is accepted too. -/
theorem caller_signature_covers (hone : SignsOneText p caller.publicKey)
    (hsha : Function.Injective p.sha256) (hjson : wire.NamesAnyKey) :
    (∀ a b, Headers.credentials p wire a = Headers.credentials p wire b →
      ∀ bodyA bodyB nowA nowB,
      (∀ endpoint, participantRequest caller p wire a bodyA nowA endpoint = .ok () →
        participantRequest caller p wire b bodyB nowB endpoint = .ok () → bodyA = bodyB) ∧
      ∀ rA rB, signRequest caller p wire a bodyA nowA = .ok rA →
        signRequest caller p wire b bodyB nowB = .ok rB →
        rA.requestId = rB.requestId ∧ rA.payload = rB.payload) ∧
    ∀ headers body now r, signRequest caller p wire headers body now = .ok r →
      ∀ keyRef, ∃ edited, signRequest caller p wire headers edited now = .ok { r with keyRef } := by
  refine ⟨fun a b hsame bodyA bodyB nowA nowB => ⟨?_, ?_⟩, ?_⟩
  · intro endpoint ha hb
    simp only [participantRequest, bind_eq_ok, require_eq_ok] at ha hb
    obtain ⟨idA, -, ha⟩ := ha
    obtain ⟨idB, -, hb⟩ := hb
    obtain ⟨-, hhash⟩ := authenticate_covers hone hsame ha hb
    exact asBytes_inj (hsha hhash)
  · intro rA rB ha hb
    simp only [signRequest, bind_eq_ok, require_eq_ok, pure_eq_ok] at ha hb
    obtain ⟨_, -, payloadA, -, _, ha, rfl⟩ := ha
    obtain ⟨_, -, payloadB, -, _, hb, rfl⟩ := hb
    obtain ⟨hid, hhash⟩ := authenticate_covers hone hsame ha hb
    exact ⟨hid, hsha hhash⟩
  · intro headers body now r h keyRef
    simp only [signRequest, bind_eq_ok, require_eq_ok, pure_eq_ok] at h ⊢
    obtain ⟨request, hbody, payload, hpayload, _, hverified, rfl⟩ := h
    obtain ⟨edited, hedited⟩ := hjson body request hbody keyRef
    exact ⟨edited, _, hedited, payload, hpayload, (), hverified, rfl⟩

/-! ### Another key with the same signature -/

/-- The text a caller signed for one request. -/
def signedText : String :=
  canonicalString ⟨"POST", "/v1/sign", "withdrawal-1", [5], 0⟩

/-- One signature, valid for that text alone. -/
def oneText : Primitives Unit where
  sha256 := id
  base64 := fun text => if text = "BQ==" then some [5] else some (List.replicate 64 0)
  verify := fun _ text _ => text = signedText

theorem oneText_signsOneText : SignsOneText oneText () :=
  fun _ _ _ h h' => (of_decide_eq_true h).trans (of_decide_eq_true h').symm

/-- Bodies that differ in the key reference only. -/
def keyWire : Wire where
  i64 := fun _ => some 0
  signBody := fun body => some ⟨"withdrawal-1", body, "BQ==", hotProof⟩
  requestId := fun _ body => some body

def keyHeaders : Headers := ⟨some "c2ln", some "0"⟩

/-- A signer with two keys serves a request. -/
def served (r : SignRequest) (secret : Bytes) : List Label :=
  [.ensureKey "hot" [1], .ensureKey "cold" [2], .arrive r, .work (.won r) (some []),
    .work (.signed r (secret ++ r.payload) (some secret)) none]

/-- Asked for the hot key; with the key reference edited on the way the cold key signs. -/
theorem key_edited :
    SignsOneText oneText () ∧ Function.Injective oneText.sha256 ∧
    signRequest ⟨(), 30⟩ oneText keyWire keyHeaders "hot" 0 = .ok (Service.request "hot") ∧
    signRequest ⟨(), 30⟩ oneText keyWire keyHeaders "cold" 0 = .ok (Service.request "cold") ∧
    Service.request "hot" ≠ Service.request "cold" ∧
    ∃ t, Lib.exec (Service.step (Service.plainConfig .singleKey)) Service.initial
        (served (Service.request "cold") [2]) = some t ∧
      t.answers = [⟨Service.request "cold", [2, 5], [2], false⟩] :=
  ⟨oneText_signsOneText, Function.injective_id, by decide +kernel, by decide +kernel,
    by decide +kernel, Lib.exec_reaches (by decide +kernel)⟩

/-- What was signed for the hot key is accepted for the cold one. -/
theorem caller_signature_covers_hot :
    signRequest ⟨(), 30⟩ oneText keyWire keyHeaders "hot" 0 = .ok (Service.request "hot") ∧
    ∃ edited, signRequest ⟨(), 30⟩ oneText keyWire keyHeaders edited 0 =
      .ok { Service.request "hot" with keyRef := "cold" } := by
  have hjson : keyWire.NamesAnyKey := fun _ _ h keyRef => ⟨keyRef, by cases h; rfl⟩
  refine ⟨by decide +kernel, ?_⟩
  exact (caller_signature_covers oneText_signsOneText Function.injective_id hjson).2 keyHeaders "hot" 0
    _ (by decide +kernel) "cold"

end Covers

end AtlasCex.Mpc
