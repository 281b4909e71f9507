import AtlasCex.Mpc.Signing
import Mathlib.Data.Fintype.Pi
/-!
# Distributed key generation: the participants

| here | there |
| --- | --- |
| `Session`, `Installed`, `Node` | `frost_dkg_sessions`, `frost_shares` of one participant |
| `beginSession` .. `commitSession` | `mpc/src/store.rs:589-811`, one transaction each |
| `Transcript`, `Envelope`, `sealShares`, `openShare` | `mpc/src/dkg.rs:240-258`, `:382-480` |
| `Library`              | `frost::keys::dkg::part2`, `part3`, and the group package they derive |
| `receive`              | a handler up to its first store call (`round1`, `round2`, `finalize`, `commit`, `mpc/src/dkg.rs:590-866`) |
| `Task`, `work`         | what it does from there, one store call a step |

There are five participants. A round-1 package is `fresh n`, the `n`-th sampled by any of them, or
`made n`, anything else. It is sampled where its session begins: nothing reads it before. The
transcript hash is collision-free, so a transcript stands for its hash. An envelope whose claimed
sender is honest opens if that sender sealed it for this recipient, session, key and transcript; the
key of another sender is the adversary's. The sealed secret of a session is there as long as its phase
needs it and is not a column here. Rows of `shares` remember the session they came from.
-/
namespace AtlasCex.Mpc.Dkg

open Lib (refuse require)

abbrev Identifier := Fin 5

-- Named, so that every module that writes an identifier or looks for one uses the same constant.
instance identifierNeZero : NeZero 5 := inferInstance
instance identifierLawfulBEq : LawfulBEq Identifier := inferInstance

abbrev SessionId := String

inductive Package where
  | fresh (n : Nat)
  | made (n : Nat)
deriving DecidableEq, Repr

/-- One package for each member of the roster. -/
abbrev Packages := Identifier → Package

abbrev ShareValue := Nat
abbrev PublicPackage := Nat

structure Transcript where
  sessionId : SessionId
  keyRef : KeyRef
  packages : Packages
deriving DecidableEq

structure Envelope where
  sender : Identifier
  recipient : Identifier
  sessionId : SessionId
  keyRef : KeyRef
  transcript : Transcript
  share : ShareValue
deriving DecidableEq

/-- What the library accepts and computes. -/
structure Library where
  part2 : Identifier → Packages → Bool
  evaluate : Package → Identifier → ShareValue
  part3 : Identifier → Packages → List (Identifier × ShareValue) → Bool
  publicPackage : Packages → PublicPackage

/-! ## The store of a participant -/

inductive Phase where
  | round1
  | round2
  | verified
  | committed
  | aborted
deriving DecidableEq, Repr

structure Session where
  sessionId : SessionId
  keyRef : KeyRef
  phase : Phase
  round1Package : Package
  round1Packages : Option Packages
  transcript : Option Transcript
  publicPackage : Option PublicPackage
deriving DecidableEq

structure Installed where
  keyRef : KeyRef
  sessionId : SessionId
  publicPackage : PublicPackage
deriving DecidableEq, Repr

inductive Task where
  | round1Session (sessionId : SessionId) (keyRef : KeyRef)
  | round1Begin (sessionId : SessionId) (keyRef : KeyRef)
  | round2 (session : Session) (packages : Option Packages)
  | finalize (session : Session) (envelopes : List Envelope)
  | abort (sessionId : SessionId)
  | commit (sessionId : SessionId) (publicPackage : PublicPackage)
deriving DecidableEq

structure Node where
  sessions : List Session
  shares : List Installed
  tasks : List Task
deriving DecidableEq

namespace Node

def loadShare (node : Node) (keyRef : KeyRef) : Option Installed :=
  node.shares.find? (·.keyRef = keyRef)

def loadSession (node : Node) (sessionId : SessionId) : Option Session :=
  node.sessions.find? (·.sessionId = sessionId)

/-- Unfinished, so a new session for the key takes its place. -/
def supersedable (phase : Phase) : Bool := phase = .round1 ∨ phase = .round2 ∨ phase = .verified

def supersede (keyRef : KeyRef) (session : Session) : Session :=
  if session.keyRef = keyRef ∧ supersedable session.phase = true then
    { session with phase := .aborted }
  else session

/-- Insert if absent; then abort the others of the key. -/
def beginSession (node : Node) (sessionId : SessionId) (keyRef : KeyRef) (package : Package) :
    Option Node :=
  if (node.loadSession sessionId).isSome then none
  else some { node with
    sessions := node.sessions.map (supersede keyRef) ++
      [⟨sessionId, keyRef, .round1, package, none, none, none⟩] }

/-- Update the row of a session if it is in one of the phases. -/
def update (node : Node) (sessionId : SessionId) (phases : Phase → Bool)
    (f : Session → Session) : Node :=
  { node with sessions := node.sessions.map fun session =>
      if session.sessionId = sessionId ∧ phases session.phase = true then f session else session }

def inPhase (node : Node) (sessionId : SessionId) (phase : Phase) : Bool :=
  node.sessions.any fun session => session.sessionId = sessionId ∧ session.phase = phase

def advanceToRound2 (node : Node) (sessionId : SessionId) (packages : Packages)
    (transcript : Transcript) : Option Node :=
  if node.inPhase sessionId .round1 then
    some (node.update sessionId (· = .round1) fun session =>
      { session with
        phase := .round2, round1Packages := some packages, transcript := some transcript })
  else none

def advanceToVerified (node : Node) (sessionId : SessionId) (publicPackage : PublicPackage) :
    Option Node :=
  if node.inPhase sessionId .round2 then
    some (node.update sessionId (· = .round2) fun session =>
      { session with phase := .verified, publicPackage := some publicPackage })
  else none

def abortSession (node : Node) (sessionId : SessionId) : Node :=
  node.update sessionId (· ≠ .committed) fun session => { session with phase := .aborted }

inductive CommitOutcome where
  | committed (node : Node)
  | alreadyCommitted
  | notVerified
  | shareAlreadyInstalled

/-- The share row and the phase together, or neither. -/
def commitSession (node : Node) (sessionId : SessionId) : CommitOutcome :=
  match node.loadSession sessionId with
  | none => .notVerified
  | some session =>
    match session.phase, session.publicPackage with
    | .committed, _ => .alreadyCommitted
    | .verified, some publicPackage =>
      if (node.loadShare session.keyRef).isSome then .shareAlreadyInstalled
      else .committed
        { node.update sessionId (fun _ => true) fun session => { session with phase := .committed } with
          shares := node.shares ++ [⟨session.keyRef, sessionId, publicPackage⟩] }
    | _, _ => .notVerified

end Node

/-! ## Envelopes -/

/-- Everyone else on the roster. -/
def others (i : Identifier) : List Identifier := (List.finRange 5).filter (· ≠ i)

def sealShares (library : Library) (i : Identifier) (transcript : Transcript) (package : Package) :
    List Envelope :=
  (others i).map fun recipient =>
    ⟨i, recipient, transcript.sessionId, transcript.keyRef, transcript,
      library.evaluate package recipient⟩

/-- Addressed here, and sealed by its sender's key for this session, key and transcript. -/
def opens (honest : Identifier → Bool) (genuine : List Envelope) (i : Identifier)
    (transcript : Transcript) (envelope : Envelope) : Bool :=
  envelope.recipient = i ∧ (honest envelope.sender = true → envelope ∈ genuine) ∧
    envelope.sessionId = transcript.sessionId ∧ envelope.keyRef = transcript.keyRef ∧
    envelope.transcript = transcript

/-- Open the envelopes one by one: each by another expected sender. -/
def openAll (honest : Identifier → Bool) (genuine : List Envelope) (i : Identifier)
    (transcript : Transcript) :
    List (Identifier × ShareValue) → List Envelope → Option (List (Identifier × ShareValue))
  | received, [] => some received
  | received, envelope :: rest =>
    if opens honest genuine i transcript envelope ∧ envelope.sender ∈ others i ∧
        envelope.sender ∉ received.map (·.1) then
      openAll honest genuine i transcript ((envelope.sender, envelope.share) :: received) rest
    else none

/-! ## Handlers -/

def validSessionId (sessionId : SessionId) : Bool :=
  sessionId.utf8ByteSize ≠ 0 ∧ sessionId.utf8ByteSize ≤ 128 ∧
    sessionId.toList.all fun c => c.isAlphanum ∨ c = '-' ∨ c = '_' ∨ c = ':'

def validateSession (sessionId : SessionId) (keyRef : KeyRef) : Except MpcError Unit := do
  refuse (validSessionId sessionId = false) (.badRequest "dkg_session_id_invalid")
  refuse (isBlank keyRef = true ∨ 256 < keyRef.utf8ByteSize) (.badRequest "key_ref_invalid")

inductive Request where
  | round1 (sessionId : SessionId) (keyRef : KeyRef) (minSigners maxSigners : Nat)
  /-- `none`: packages that do not decode, or are not of the roster. -/
  | round2 (sessionId : SessionId) (keyRef : KeyRef) (packages : Option Packages)
  | finalize (sessionId : SessionId) (keyRef : KeyRef) (envelopes : List Envelope)
  | commit (sessionId : SessionId) (keyRef : KeyRef) (publicPackage : PublicPackage)
deriving DecidableEq

inductive Answer where
  | round1 (sessionId : SessionId) (package : Package)
  | round2 (sessionId : SessionId) (transcript : Transcript) (envelopes : List Envelope)
  | finalize (sessionId : SessionId) (publicPackage : PublicPackage)
  | commit (sessionId : SessionId) (publicPackage : PublicPackage)
deriving DecidableEq

namespace Node

def session (node : Node) (sessionId : SessionId) (keyRef : KeyRef) (phase : Phase) :
    Except MpcError Session := do
  validateSession sessionId keyRef
  let session ← require (node.loadSession sessionId) (.badRequest "dkg_unknown_session")
  refuse (session.keyRef ≠ keyRef) (.badRequest "dkg_session_conflict")
  refuse (session.phase ≠ phase) (.badRequest "dkg_phase_mismatch")
  pure session

/-- A handler with its first store call behind it. -/
def receive (node : Node) : Request → Except MpcError Task
  | .round1 sessionId keyRef minSigners maxSigners => do
    validateSession sessionId keyRef
    refuse (minSigners ≠ 3 ∨ maxSigners ≠ 5) (.badRequest "dkg_threshold_mismatch")
    refuse ((node.loadShare keyRef).isSome = true) (.badRequest "share_already_installed")
    pure (.round1Session sessionId keyRef)
  | .round2 sessionId keyRef packages => do
    let session ← node.session sessionId keyRef .round1
    pure (.round2 session packages)
  | .finalize sessionId keyRef envelopes => do
    let session ← node.session sessionId keyRef .round2
    pure (.finalize session envelopes)
  | .commit sessionId keyRef publicPackage => do
    validateSession sessionId keyRef
    let session ← require (node.loadSession sessionId) (.badRequest "dkg_unknown_session")
    refuse (session.keyRef ≠ keyRef) (.badRequest "dkg_session_conflict")
    let derived ← require session.publicPackage (.badRequest "dkg_phase_mismatch")
    refuse (derived ≠ publicPackage) (.badRequest "dkg_public_package_mismatch")
    pure (.commit sessionId derived)

def spawn (node : Node) (task : Task) : Node := { node with tasks := task :: node.tasks }

end Node

/-- The checks of round 2: the packages are whole, our own is ours, and the library takes them. -/
def round2Checks (library : Library) (i : Identifier) (session : Session)
    (packages : Option Packages) : Option Packages :=
  packages.filter fun all => all i = session.round1Package ∧ library.part2 i all = true

/-- The checks of round 3: every share opens, is by another peer, and fits the commitments. -/
def finalizeChecks (library : Library) (honest : Identifier → Bool) (genuine : List Envelope)
    (i : Identifier) (session : Session) (envelopes : List Envelope) : Option PublicPackage :=
  session.round1Packages.bind fun all =>
    session.transcript.bind fun transcript =>
      if envelopes.length = (others i).length then
        (openAll honest genuine i transcript [] envelopes).bind fun received =>
          if library.part3 i all received = true then some (library.publicPackage all) else none
      else none

/-! ## Five participants -/

structure World where
  nodes : Identifier → Node
  /-- How many packages have been sampled. -/
  sampled : Nat
  /-- The envelopes participants have handed out; what the loser of a race seals is dropped. -/
  genuine : List Envelope
  answers : List (Identifier × Answer)

namespace World

def set (s : World) (i : Identifier) (node : Node) : World :=
  { s with nodes := Function.update s.nodes i node }

def answer (s : World) (i : Identifier) (answer : Answer) : World :=
  { s with answers := s.answers ++ [(i, answer)] }

def work (library : Library) (honest : Identifier → Bool) (s : World) (i : Identifier) :
    Task → World
  | .round1Session sessionId keyRef =>
    match (s.nodes i).loadSession sessionId with
    | some session =>
      -- a retry gets the package it was given before
      if session.keyRef = keyRef ∧ session.phase = .round1 then
        s.answer i (.round1 sessionId session.round1Package)
      else s
    | none => s.set i ((s.nodes i).spawn (.round1Begin sessionId keyRef))
  | .round1Begin sessionId keyRef =>
    match (s.nodes i).beginSession sessionId keyRef (.fresh s.sampled) with
    | some node =>
      { s with sampled := s.sampled + 1 }.set i node |>.answer i (.round1 sessionId (.fresh s.sampled))
    | none => s
  | .round2 session packages =>
    match round2Checks library i session packages with
    | none => s.set i ((s.nodes i).spawn (.abort session.sessionId))
    | some all =>
      let transcript : Transcript := ⟨session.sessionId, session.keyRef, all⟩
      let envelopes := sealShares library i transcript session.round1Package
      match (s.nodes i).advanceToRound2 session.sessionId all transcript with
      | some node =>
        { s with genuine := s.genuine ++ envelopes }.set i node
          |>.answer i (.round2 session.sessionId transcript envelopes)
      | none => s
  | .finalize session envelopes =>
    match finalizeChecks library honest s.genuine i session envelopes with
    | none => s.set i ((s.nodes i).spawn (.abort session.sessionId))
    | some publicPackage =>
      match (s.nodes i).advanceToVerified session.sessionId publicPackage with
      | some node => s.set i node |>.answer i (.finalize session.sessionId publicPackage)
      | none => s
  | .abort sessionId => s.set i ((s.nodes i).abortSession sessionId)
  | .commit sessionId publicPackage =>
    match (s.nodes i).commitSession sessionId with
    | .committed node => s.set i node |>.answer i (.commit sessionId publicPackage)
    | .alreadyCommitted => s.answer i (.commit sessionId publicPackage)
    | .notVerified | .shareAlreadyInstalled => s

/-- A task is taken up. -/
def workOn (library : Library) (honest : Identifier → Bool) (s : World) (i : Identifier)
    (task : Task) : Option World :=
  if task ∈ (s.nodes i).tasks then
    let node := { s.nodes i with tasks := (s.nodes i).tasks.erase task }
    some (work library honest (s.set i node) i task)
  else none

/-- A request comes in. -/
def deliver (s : World) (i : Identifier) (request : Request) : Option World :=
  match (s.nodes i).receive request with
  | .ok task => some (s.set i ((s.nodes i).spawn task))
  | .error _ => none

/-- The process dies and comes back. -/
def restart (s : World) (i : Identifier) : World := s.set i { s.nodes i with tasks := [] }

def initial : World := ⟨fun _ => ⟨[], [], []⟩, 0, [], []⟩

end World

end AtlasCex.Mpc.Dkg
