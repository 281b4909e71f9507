import AtlasCex.Lib.Transition
/-!
# WebAuthn ceremonies

| here | there |
| --- | --- |
| `CeremonyRecord`, `State.store` | the challenge store (`auth/src/challenge/store.ts`); `consume` is `GETDEL` |
| `Label.beginLogin`, `beginStepUp`, `beginRegistration` | `begin` of the three services, `beginAuthentication`, `beginRegistration` (`auth/src/webauthn/service.ts:106-202`) |
| `Call.consume` … `Call.verify` | `finishAuthentication` (`:204-255`), with the caller's lookup (`State.lookup`) |
| `Call.reread` … `Call.succeed` | the rest of `finish` (`step-up.service.ts:72-92`, `login.service.ts:70-93`): the second lookup, the user of a login, the write, the session |
| `Call.register`, `Call.enroll` | `finishRegistration` (`:144-176`), `registration.service.ts:59-160` |
| `detectClone` | `auth/src/webauthn/clone-detection.ts` |
| `Library` | `@simplewebauthn/server`, with the relying party's origin and id |

Any number of calls is in flight; every await is a step, and a call may stop anywhere. Ceremony ids
and challenges are random: one that was issued is not issued again. `issued`, `consumed` and
`stamps` are histories: they are never read.

Emails, transports, device names, the audit trail and the lifetime of sessions are left out.
-/
namespace AtlasCex.Auth

abbrev UserId := String
abbrev CeremonyId := String
abbrev CredentialId := String
abbrev SessionId := Nat

inductive CeremonyKind where
  | registration
  | authentication
  | stepup
deriving DecidableEq, Repr

structure CeremonyRecord where
  kind : CeremonyKind
  challenge : String
  userId : Option UserId
deriving DecidableEq, Repr

structure Credential where
  id : Nat
  userId : UserId
  credentialId : CredentialId
  publicKey : String
  signCount : Nat
  revoked : Bool
deriving DecidableEq, Repr

structure Session where
  id : SessionId
  userId : UserId
deriving DecidableEq, Repr

structure Library (Response : Type) where
  /-- `response.id`. -/
  credentialId : Response → CredentialId
  /-- `verifyAuthenticationResponse`: the new counter, when verified. -/
  verifyAuthentication : (response : Response) → (challenge publicKey : String) →
    (signCount : Nat) → (requireUserVerification : Bool) → Option Nat
  /-- `verifyRegistrationResponse`: the new credential's id, key and counter, when verified. -/
  verifyRegistration : (response : Response) → (challenge : String) →
    (requireUserVerification : Bool) → Option (CredentialId × String × Nat)

/-- `true` when suspicious. -/
def detectClone (stored received : Nat) : Bool := stored ≠ 0 && received ≤ stored

/-- Which service called `finishAuthentication`. -/
inductive Flow where
  | login
  | stepUp (session : Session)
deriving DecidableEq, Repr

variable {Response : Type}

/-- A verified assertion, with what it was verified against. -/
structure Assertion (Response : Type) where
  ceremonyId : CeremonyId
  ceremony : CeremonyRecord
  response : Response
  stored : Credential
  requireUserVerification : Bool
  newSignCount : Nat
deriving DecidableEq

inductive Call (Response : Type) where
  | consume (flow : Flow) (id : CeremonyId) (response : Response)
  | lookup (flow : Flow) (id : CeremonyId) (ceremony : CeremonyRecord) (response : Response)
  | belongs (flow : Flow) (id : CeremonyId) (ceremony : CeremonyRecord) (response : Response)
      (stored : Credential)
  | verify (flow : Flow) (id : CeremonyId) (ceremony : CeremonyRecord) (response : Response)
      (stored : Credential)
  | reread (flow : Flow) (assertion : Assertion Response)
  | findUser (assertion : Assertion Response) (stored : Credential)
  | recordUse (flow : Flow) (assertion : Assertion Response) (stored : Credential)
  | succeed (flow : Flow) (assertion : Assertion Response)
  | register (id : CeremonyId) (response : Response) (userId : Option UserId)
  | enroll (userId : Option UserId) (credential : CredentialId × String × Nat)
deriving DecidableEq

/-- What a call is answered: fresh ids, and whether the user of a login is active. -/
structure Answer where
  fresh : Nat
  newUser : UserId
  active : Bool
deriving DecidableEq, Repr

/-- A ceremony with the call that began it: a step-up's user, or none. -/
structure Issue where
  steppingUp : Option UserId
  id : CeremonyId
  record : CeremonyRecord
deriving DecidableEq, Repr

structure Stamp (Response : Type) where
  session : Session
  assertion : Assertion Response
deriving DecidableEq

structure State (Response : Type) where
  store : List (CeremonyId × CeremonyRecord)
  credentials : List Credential
  sessions : List Session
  /-- The sessions with a `stepUpAt`. -/
  steppedUp : List SessionId
  calls : List (Call Response)
  issued : List Issue
  consumed : List CeremonyId
  stamps : List (Stamp Response)

inductive Label (Response : Type) where
  | beginLogin (id : CeremonyId) (challenge : String)
  | beginStepUp (session : Session) (id : CeremonyId) (challenge : String)
  | beginRegistration (userId : Option UserId) (id : CeremonyId) (challenge : String)
  | finishLogin (id : CeremonyId) (response : Response)
  | finishStepUp (session : Session) (id : CeremonyId) (response : Response)
  | finishRegistration (id : CeremonyId) (response : Response) (userId : Option UserId)
  | work (call : Call Response) (answer : Answer)
  | drop (call : Call Response)
  | expire (id : CeremonyId)
  | revokeCredential (id : Nat)
  | revokeSession (session : Session)
deriving DecidableEq

namespace State

def findCeremony (s : State Response) (id : CeremonyId) : Option CeremonyRecord :=
  (s.store.find? (·.1 = id)).map (·.2)

/-- `findWebAuthnByCredentialId`. -/
def findCredential (s : State Response) (credentialId : CredentialId) : Option Credential :=
  (s.credentials.find? (·.credentialId = credentialId)).filter (!·.revoked)

/-- The lookup each service passes: a step-up takes only a credential of the session's user. -/
def lookup (s : State Response) (flow : Flow) (credentialId : CredentialId) : Option Credential :=
  match flow with
  | .login => s.findCredential credentialId
  | .stepUp session => (s.findCredential credentialId).filter (·.userId = session.userId)

/-- `put`. -/
def put (s : State Response) (issue : Issue) : Option (State Response) :=
  if s.issued.all fun other =>
      other.id ≠ issue.id && other.record.challenge ≠ issue.record.challenge then
    some { s with
      store := (issue.id, issue.record) :: s.store
      issued := issue :: s.issued }
  else none

/-- `consume`: fetched and removed. -/
def take (s : State Response) (id : CeremonyId) : State Response :=
  { s with
    store := s.store.filter (·.1 ≠ id)
    consumed := if (s.findCeremony id).isSome then id :: s.consumed else s.consumed }

/-- `recordUse`. -/
def recordUse (s : State Response) (stored : Credential) (signCount : Nat) : State Response :=
  { s with credentials := s.credentials.map fun c =>
      if c.id = stored.id then { c with signCount } else c }

variable [DecidableEq Response]

/-- One step of a call: the state it leaves and where the call goes on; a call that throws ends. -/
def work (library : Library Response) (s : State Response) (answer : Answer) :
    Call Response → State Response × Option (Call Response)
  | .consume flow id response =>
    (s.take id, match s.findCeremony id with
      | none => none
      | some ceremony =>
        if ceremony.kind = .registration then none else some (.lookup flow id ceremony response))
  | .lookup flow id ceremony response =>
    (s, (s.lookup flow (library.credentialId response)).map fun stored =>
      if ceremony.userId.isSome && ceremony.kind = .stepup then
        .belongs flow id ceremony response stored
      else .verify flow id ceremony response stored)
  | .belongs flow id ceremony response stored =>
    (s, (s.lookup flow (library.credentialId response)).map fun _ =>
      .verify flow id ceremony response stored)
  | .verify flow id ceremony response stored =>
    let requireUserVerification := ceremony.kind = .stepup
    (s, (library.verifyAuthentication response ceremony.challenge stored.publicKey stored.signCount
        requireUserVerification).bind fun newSignCount =>
      if detectClone stored.signCount newSignCount then none
      else some (.reread flow
        ⟨id, ceremony, response, stored, requireUserVerification, newSignCount⟩))
  | .reread flow assertion =>
    (s, match flow, s.findCredential assertion.stored.credentialId with
      | .login, found => found.map (.findUser assertion)
      | .stepUp _, some stored => some (.recordUse flow assertion stored)
      -- a step-up goes on without a row
      | .stepUp _, none => some (.succeed flow assertion))
  | .findUser assertion stored =>
    (s, if answer.active then some (.recordUse .login assertion stored) else none)
  | .recordUse flow assertion stored =>
    (s.recordUse stored assertion.newSignCount, some (.succeed flow assertion))
  | .succeed .login assertion =>
    ({ s with
      sessions := ⟨answer.fresh, assertion.stored.userId⟩ :: s.sessions
      steppedUp := answer.fresh :: s.steppedUp }, none)
  | .succeed (.stepUp session) assertion =>
    ({ s with
      steppedUp := session.id :: s.steppedUp
      stamps := ⟨session, assertion⟩ :: s.stamps }, none)
  | .register id response userId =>
    (s.take id, (s.findCeremony id).bind fun ceremony =>
      if ceremony.kind = .registration then
        (library.verifyRegistration response ceremony.challenge false).map fun credential =>
          .enroll (userId.or ceremony.userId) credential
      else none)
  | .enroll userId (credentialId, publicKey, signCount) =>
    let owner := userId.getD answer.newUser
    let s := { s with credentials :=
      ⟨answer.fresh, owner, credentialId, publicKey, signCount, false⟩ :: s.credentials }
    (if userId.isSome then s
      else { s with
        sessions := ⟨answer.fresh, owner⟩ :: s.sessions
        steppedUp := answer.fresh :: s.steppedUp }, none)

def spawn (s : State Response) (call : Option (Call Response)) : State Response :=
  { s with calls := call.toList ++ s.calls }

def step (library : Library Response) (s : State Response) :
    Label Response → Option (State Response)
  | .beginLogin id challenge => s.put ⟨none, id, .authentication, challenge, none⟩
  | .beginStepUp session id challenge =>
    if session ∈ s.sessions then
      s.put ⟨some session.userId, id, .stepup, challenge, some session.userId⟩
    else none
  | .beginRegistration userId id challenge => s.put ⟨none, id, .registration, challenge, userId⟩
  | .finishLogin id response => some (s.spawn (some (.consume .login id response)))
  | .finishStepUp session id response =>
    if session ∈ s.sessions then some (s.spawn (some (.consume (.stepUp session) id response)))
    else none
  | .finishRegistration id response userId => some (s.spawn (some (.register id response userId)))
  | .work call answer =>
    if call ∈ s.calls then
      let next := work library { s with calls := s.calls.erase call } answer call
      some (next.1.spawn next.2)
    else none
  | .drop call => if call ∈ s.calls then some { s with calls := s.calls.erase call } else none
  | .expire id => some { s with store := s.store.filter (·.1 ≠ id) }
  | .revokeCredential id =>
    some { s with credentials := s.credentials.map fun c =>
      if c.id = id then { c with revoked := true } else c }
  | .revokeSession session => some { s with sessions := s.sessions.filter (· ≠ session) }

def initial : State Response where
  store := []
  credentials := []
  sessions := []
  steppedUp := []
  calls := []
  issued := []
  consumed := []
  stamps := []

end State

end AtlasCex.Auth
