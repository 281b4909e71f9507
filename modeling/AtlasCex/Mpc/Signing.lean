import AtlasCex.Mpc.Authorization
import AtlasCex.Lib.Transition
/-!
# `POST /v1/sign`

| here | there |
| --- | --- |
| `KeyRow`, `SigningRequest`, `Store` | the tables `keys`, `signing_requests`, `frost_group_keys` (`mpc/src/store.rs:75-150`) |
| `storeKey` .. `fail`   | `mpc/src/store.rs:270-382`, `:438-465`, one statement each |
| `packageFor`, `groupPublicKey` | `mpc/src/threshold.rs:198-220` |
| `accept`, `Task`, `work` | `http::sign` (`mpc/src/http.rs:84-224`) and `SigningService::sign`, `replay` (`mpc/src/signer.rs:173-270`) |
| `Label.restart`        | the process ends between any two steps; the coordinator re-reads its house group (`mpc/src/main.rs:369-432`) |
| `Label.ensureKey`, `.storeGroupKey` | `ensure_key`, and the end of `run_dkg` |

Each store method is one step and requests interleave between them. A handler is the `Task` it has
left to do. Opening a sealed key may fail; a coordinator's rounds end in an error or in bytes, which
`aggregate` returns only if they verify under the package of the key reference.
-/
namespace AtlasCex.Mpc

open Lib (refuse require)

abbrev KeyRef := String
abbrev RequestId := String

/-- Ed25519 as the signer uses it; a signature it makes verifies. -/
structure SigningKeys where
  publicKey : Bytes → Bytes
  sign : Bytes → Bytes → Bytes
  verify : Bytes → Bytes → Bytes → Bool
  correct : ∀ secret message, verify (publicKey secret) message (sign secret message) = true

structure KeyRow where
  keyRef : KeyRef
  publicKey : Bytes
  /-- Sealed in the table; the key-encryption key is the process's own. -/
  secret : Bytes
deriving DecidableEq, Repr

inductive RequestOutcome where
  | requested
  | succeeded
  | failed
deriving DecidableEq, Repr

structure SigningRequest where
  requestId : RequestId
  keyRef : KeyRef
  payloadHash : Bytes
  outcome : RequestOutcome
  signature : Option Bytes
deriving DecidableEq, Repr

structure Store where
  keys : List KeyRow
  requests : List SigningRequest
  groupKeys : List (KeyRef × Bytes)
deriving DecidableEq, Repr

namespace Store

def loadKey (store : Store) (keyRef : KeyRef) : Option KeyRow :=
  store.keys.find? (·.keyRef = keyRef)

/-- First writer wins. -/
def storeKey (store : Store) (row : KeyRow) : Store :=
  if (store.loadKey row.keyRef).isSome then store else { store with keys := store.keys ++ [row] }

def loadGroupKey (store : Store) (keyRef : KeyRef) : Option Bytes :=
  (store.groupKeys.find? (·.1 = keyRef)).map (·.2)

def storeGroupKey (store : Store) (keyRef : KeyRef) (group : Bytes) : Store :=
  if (store.loadGroupKey keyRef).isSome then store
  else { store with groupKeys := store.groupKeys ++ [(keyRef, group)] }

def findRequest (store : Store) (requestId : RequestId) : Option SigningRequest :=
  store.requests.find? (·.requestId = requestId)

/-- `INSERT .. ON CONFLICT (request_id) DO NOTHING`, and whether a row went in. -/
def claimRequest (store : Store) (requestId : RequestId) (keyRef : KeyRef) (payloadHash : Bytes) :
    Bool × Store :=
  if (store.findRequest requestId).isSome then (false, store)
  else (true, { store with
    requests := store.requests ++ [⟨requestId, keyRef, payloadHash, .requested, none⟩] })

def claimedPayloadHash (store : Store) (requestId : RequestId) : Option Bytes :=
  (store.findRequest requestId).map (·.payloadHash)

/-- The signature, without a key. -/
def completedSignatureOnly (store : Store) (requestId : RequestId) : Option Bytes :=
  (store.findRequest requestId).bind fun row =>
    if row.outcome = .succeeded then row.signature else none

/-- The signature and the key of the row it is in. -/
def completedSignature (store : Store) (requestId : RequestId) : Option (Bytes × Bytes) :=
  (store.findRequest requestId).bind fun row =>
    if row.outcome = .succeeded then
      row.signature.bind fun signature =>
        (store.loadKey row.keyRef).map fun key => (signature, key.publicKey)
    else none

def update (store : Store) (requestId : RequestId) (f : SigningRequest → SigningRequest) : Store :=
  { store with requests := store.requests.map fun row =>
      if row.requestId = requestId then f row else row }

def complete (store : Store) (requestId : RequestId) (signature : Bytes) : Store :=
  store.update requestId fun row => { row with signature := some signature, outcome := .succeeded }

def fail (store : Store) (requestId : RequestId) : Store :=
  store.update requestId fun row => { row with outcome := .failed }

end Store

/-! ## The service -/

inductive Role where
  | singleKey
  | coordinator (houseRef : KeyRef)
deriving DecidableEq, Repr

structure Config where
  prims : Primitives Bytes
  keys : SigningKeys
  approvalKey : Option Bytes
  role : Role

structure SignRequest where
  requestId : RequestId
  keyRef : KeyRef
  payload : Bytes
  authorization : AuthorizationProof
deriving DecidableEq, Repr

/-- A 200. -/
structure Answer where
  request : SignRequest
  signature : Bytes
  publicKey : Bytes
  replayed : Bool
deriving DecidableEq, Repr

/-- What a request in progress has left to do. -/
inductive Task where
  /-- Its row went in: sign. -/
  | won (r : SignRequest)
  /-- Signed: record it and answer, with the key it loaded or else the coordinator's. -/
  | signed (r : SignRequest) (signature : Bytes) (publicKey : Option Bytes)
  /-- The id was taken: compare payloads. -/
  | lost (r : SignRequest)
  /-- Same payload: answer with what is stored. -/
  | matched (r : SignRequest)
deriving DecidableEq, Repr

structure Service where
  store : Store
  /-- The coordinator's house group, in memory. -/
  house : Option Bytes
  tasks : List Task
  answers : List Answer
  /-- The request ids signing operations were performed for. -/
  operations : List RequestId

inductive Label where
  | arrive (r : SignRequest)
  | work (task : Task) (outside : Option Bytes)
  | restart
  | ensureKey (keyRef : KeyRef) (secret : Bytes)
  | storeGroupKey (keyRef : KeyRef) (group : Bytes)

namespace Service

/-- The group to aggregate under: the key's own, or the house default. -/
def packageFor (s : Service) (keyRef : KeyRef) : Option Bytes :=
  (s.store.loadGroupKey keyRef).or s.house

/-- What the coordinator reports, whatever key was asked for. -/
def groupPublicKey (s : Service) : Option Bytes := s.house

/-- The checks before anything is claimed. -/
def accept (config : Config) (r : SignRequest) : Except MpcError Unit :=
  match config.role with
  | .singleKey => do
    refuse (r.requestId.utf8ByteSize = 0 ∨ 256 < r.requestId.utf8ByteSize)
      (.badRequest "request_id_invalid")
    refuse (r.payload = []) (.badRequest "payload_empty")
    validateAuthorization config.prims config.approvalKey r.authorization
      (config.prims.sha256 r.payload)
  | .coordinator _ =>
    validateAuthorization config.prims config.approvalKey r.authorization
      (config.prims.sha256 r.payload)

def spawn (s : Service) (task : Task) : Service := { s with tasks := task :: s.tasks }

def arrive (config : Config) (s : Service) (r : SignRequest) : Service :=
  match accept config r with
  | .error _ => s
  | .ok () =>
    match s.store.claimRequest r.requestId r.keyRef (config.prims.sha256 r.payload) with
    | (true, store) => { s with store := store }.spawn (.won r)
    | (false, _) => s.spawn (.lost r)

def failed (s : Service) (r : SignRequest) : Service :=
  { s with store := s.store.fail r.requestId }

def answer (s : Service) (r : SignRequest) (signature publicKey : Bytes) (replayed : Bool) :
    Service :=
  { s with answers := s.answers ++ [⟨r, signature, publicKey, replayed⟩] }

/-- The signing itself, by the key in this process or by rounds with the participants. -/
def perform (config : Config) (s : Service) (r : SignRequest) (outside : Option Bytes) : Service :=
  match config.role with
  | .singleKey =>
    match s.store.loadKey r.keyRef, outside with
    | some key, some _ =>
      { s with operations := s.operations ++ [r.requestId] }.spawn
        (.signed r (config.keys.sign key.secret r.payload) (some key.publicKey))
    | _, _ => s.failed r
  | .coordinator _ =>
    let s := { s with operations := s.operations ++ [r.requestId] }
    match outside, s.packageFor r.keyRef with
    | some signature, some group =>
      if config.keys.verify group r.payload signature = true then s.spawn (.signed r signature none)
      else s.failed r
    | _, _ => s.failed r

/-- The recorded result of an id that was taken, and the key reported with it. -/
def recorded (config : Config) (s : Service) (r : SignRequest) : Option (Bytes × Bytes) :=
  match config.role with
  | .singleKey => s.store.completedSignature r.requestId
  | .coordinator _ =>
    (s.store.completedSignatureOnly r.requestId).bind fun signature =>
      s.groupPublicKey.map fun publicKey => (signature, publicKey)

def work (config : Config) (s : Service) (outside : Option Bytes) : Task → Service
  | .won r => s.perform config r outside
  | .signed r signature publicKey =>
    let s := { s with store := s.store.complete r.requestId signature }
    match publicKey.or s.groupPublicKey with
    | some publicKey => s.answer r signature publicKey false
    | none => s
  | .lost r =>
    if s.store.claimedPayloadHash r.requestId = some (config.prims.sha256 r.payload) then
      s.spawn (.matched r)
    else s
  | .matched r =>
    match s.recorded config r with
    | some (signature, publicKey) => s.answer r signature publicKey true
    | none => s

def step (config : Config) (s : Service) : Label → Option Service
  | .arrive r => some (s.arrive config r)
  | .work task outside =>
    if task ∈ s.tasks then
      some (work config { s with tasks := s.tasks.erase task } outside task)
    else none
  | .restart =>
    some { s with
      tasks := []
      house := match config.role with
        | .singleKey => none
        | .coordinator houseRef => s.store.loadGroupKey houseRef }
  | .ensureKey keyRef secret =>
    some { s with store := s.store.storeKey ⟨keyRef, config.keys.publicKey secret, secret⟩ }
  | .storeGroupKey keyRef group => some { s with store := s.store.storeGroupKey keyRef group }

/-- The key of a key reference. -/
def keyOf (config : Config) (s : Service) (keyRef : KeyRef) : Option Bytes :=
  match config.role with
  | .singleKey => (s.store.loadKey keyRef).map (·.publicKey)
  | .coordinator _ => s.store.loadGroupKey keyRef

/-- An empty service: no keys, no requests. -/
def initial : Service := ⟨⟨[], [], []⟩, none, [], [], []⟩

end Service

end AtlasCex.Mpc
