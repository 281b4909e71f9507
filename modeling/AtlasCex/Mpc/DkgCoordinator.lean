import AtlasCex.Mpc.DkgAgreement
/-!
# Distributed key generation: the coordinator

| here | there |
| --- | --- |
| `CoordinatorSession`   | a row of `frost_dkg_coordinator_sessions` (`mpc/src/store.rs:817-910`) |
| `Run`, `Stage`         | a call of `run_dkg` that holds the lock of its key and waits for an answer (`mpc/src/threshold.rs:536-859`) |
| `start`                | `run_dkg` up to its first request |
| `hear`                 | one answer in `ceremony` or `commit_all` |
| `store`, `finish`      | the two writes of `complete` |
| `fail`                 | an error answer or a timeout, with what `run_dkg` records of it |
| `Label.drop`, `.crash` | the call is cancelled; the process restarts |
| `sent`                 | every request ever sent; each may arrive any number of times, at any later time |

All five participants are honest. The coordinator accepts an answer to a request it waits for whichever
copy of the request it answers. New session ids have not been used.
-/
namespace AtlasCex.Mpc.Dkg

inductive CoordinatorPhase where
  | round1
  | committing
  | finalized
  | aborted
deriving DecidableEq, Repr

structure CoordinatorSession where
  sessionId : SessionId
  keyRef : KeyRef
  idempotencyKey : String
  phase : CoordinatorPhase
  publicPackage : Option PublicPackage
deriving DecidableEq, Repr

/-- What a call waits for: the participant whose turn it is, and what it has so far. -/
inductive Stage where
  | round1 (packages : List Package)
  | round2 (all : Packages) (seen : Option Transcript) (inbox : List Envelope) (next : Nat)
  | finalize (all : Packages) (inbox : List Envelope) (next : Nat)
  | commit (publicPackage : PublicPackage) (next : Nat)
  /-- Every share is installed: write the group key. -/
  | store (publicPackage : PublicPackage)
  | finish
deriving DecidableEq

structure Run where
  sessionId : SessionId
  keyRef : KeyRef
  stage : Stage
deriving DecidableEq

structure Coordinator where
  rows : List CoordinatorSession
  groupKeys : List (KeyRef × PublicPackage)
  runs : List Run
  sent : List (Identifier × Request)

namespace Coordinator

/-- The session of a key created last. -/
def latest (c : Coordinator) (keyRef : KeyRef) : Option SessionId :=
  ((c.rows.filter (·.keyRef = keyRef)).getLast?).map (·.sessionId)

/-- The last of the key's sessions that are recorded as committing. -/
def resumable (c : Coordinator) (keyRef : KeyRef) : Option (SessionId × PublicPackage) :=
  ((c.rows.filter fun row => row.keyRef = keyRef ∧ row.phase = .committing).getLast?).bind fun row =>
    row.publicPackage.map fun publicPackage => (row.sessionId, publicPackage)

def update (c : Coordinator) (sessionId : SessionId)
    (f : CoordinatorSession → CoordinatorSession) : Coordinator :=
  { c with rows := c.rows.map fun row => if row.sessionId = sessionId then f row else row }

/-- The run goes on in another stage, with a request. -/
def advance (c : Coordinator) (run : Run) (stage : Stage) (to_ : Option Identifier)
    (request : Request) : Coordinator :=
  { c with
    runs := { run with stage := stage } :: c.runs.erase run
    sent := c.sent ++ (to_.map fun i => (i, request)).toList }

def ends (c : Coordinator) (run : Run) : Coordinator := { c with runs := c.runs.erase run }

/-- The `next`-th participant of the roster, `none` after the last. -/
def participant (next : Nat) : Option Identifier := (List.finRange 5)[next]?

/-- The packages of round 1, in the order of the roster. -/
def allOf (packages : List Package) : Packages := fun i => packages.getD i (.made 0)

/-- `run_dkg` under the lock of the key, to its first request. -/
def start (c : Coordinator) (keyRef : KeyRef) (idempotencyKey : String) (sessionId : SessionId) :
    Option Coordinator :=
  if isBlank keyRef = true ∨ 256 < keyRef.utf8ByteSize ∨ isBlank idempotencyKey = true ∨
      128 < idempotencyKey.utf8ByteSize ∨ c.runs.any (·.keyRef = keyRef) ∨
      c.groupKeys.any (·.1 = keyRef) then none
  else if (c.rows.find? (·.idempotencyKey = idempotencyKey)).any (·.keyRef ≠ keyRef) then none
  else
    match c.resumable keyRef with
    | some (resumed, publicPackage) =>
      some { c with
        runs := ⟨resumed, keyRef, .commit publicPackage 0⟩ :: c.runs
        sent := c.sent ++ [(0, .commit resumed keyRef publicPackage)] }
    | none =>
      if c.rows.any (·.sessionId = sessionId) then none
      else some { c with
        rows := c.rows ++ [⟨sessionId, keyRef, idempotencyKey, .round1, none⟩]
        runs := ⟨sessionId, keyRef, .round1 []⟩ :: c.runs
        sent := c.sent ++ [(0, .round1 sessionId keyRef 3 5)] }

/-- The envelopes the `next`-th participant is sent. -/
def inboxOf (inbox : List Envelope) (next : Nat) : List Envelope :=
  inbox.filter fun e => participant next = some e.recipient

/-- One envelope to each of the others, from this participant. -/
def routed (i : Identifier) (envelopes : List Envelope) : Bool :=
  envelopes.all (fun e => e.sender = i ∧ e.recipient ≠ i) ∧
    (envelopes.map (·.recipient)).Nodup ∧ envelopes.length = 4

/-- One answer of the participant whose turn it is. `none`: not an answer to what was asked, or one
that ends the call (`fail`). -/
def hear (library : Library) (c : Coordinator) (run : Run) (i : Identifier) (a : Answer) :
    Option Coordinator :=
  match run.stage, a with
  | .round1 packages, .round1 sessionId package =>
    if participant packages.length = some i ∧ sessionId = run.sessionId then
      let packages := packages ++ [package]
      if packages.length = 5 then
        some (c.advance run (.round2 (allOf packages) none [] 0) (some 0)
          (.round2 run.sessionId run.keyRef (some (allOf packages))))
      else
        some (c.advance run (.round1 packages) (participant packages.length)
          (.round1 run.sessionId run.keyRef 3 5))
    else none
  | .round2 all seen inbox next, .round2 sessionId transcript envelopes =>
    if participant next = some i ∧ sessionId = run.sessionId ∧ seen.all (· = transcript) ∧
        routed i envelopes then
      let inbox := inbox ++ envelopes
      if next + 1 = 5 then
        some (c.advance run (.finalize all inbox 0) (some 0)
          (.finalize run.sessionId run.keyRef (inboxOf inbox 0)))
      else
        some (c.advance run (.round2 all (some transcript) inbox (next + 1)) (participant (next + 1))
          (.round2 run.sessionId run.keyRef (some all)))
    else none
  | .finalize all inbox next, .finalize sessionId publicPackage =>
    -- what everyone derived must be what the public packages imply
    if participant next = some i ∧ sessionId = run.sessionId ∧
        publicPackage = library.publicPackage all then
      if next + 1 = 5 then
        some ((c.update run.sessionId fun row =>
            { row with phase := .committing, publicPackage := some publicPackage }).advance run
          (.commit publicPackage 0) (some 0) (.commit run.sessionId run.keyRef publicPackage))
      else
        some (c.advance run (.finalize all inbox (next + 1)) (participant (next + 1))
          (.finalize run.sessionId run.keyRef (inboxOf inbox (next + 1))))
    else none
  | .commit publicPackage next, .commit sessionId answered =>
    if participant next = some i ∧ sessionId = run.sessionId ∧ answered = publicPackage then
      if next + 1 = 5 then some (c.advance run (.store publicPackage) none
        (.commit run.sessionId run.keyRef publicPackage))
      else some (c.advance run (.commit publicPackage (next + 1)) (participant (next + 1))
        (.commit run.sessionId run.keyRef publicPackage))
    else none
  | _, _ => none

/-- First writer wins. -/
def storeGroupKey (groupKeys : List (KeyRef × PublicPackage)) (keyRef : KeyRef)
    (publicPackage : PublicPackage) : List (KeyRef × PublicPackage) :=
  if groupKeys.any (·.1 = keyRef) then groupKeys else groupKeys ++ [(keyRef, publicPackage)]

/-- The two writes of `complete`. -/
def complete (c : Coordinator) (run : Run) : Option Coordinator :=
  match run.stage with
  | .store publicPackage =>
    some { c with
      runs := { run with stage := .finish } :: c.runs.erase run
      groupKeys := storeGroupKey c.groupKeys run.keyRef publicPackage }
  | .finish => some ((c.update run.sessionId fun row => { row with phase := .finalized }).ends run)
  | _ => none

/-- A ceremony that fails is recorded as aborted, a failed commit leaves the session committing. -/
def fail (c : Coordinator) (run : Run) : Coordinator :=
  match run.stage with
  | .round1 .. | .round2 .. | .finalize .. =>
    (c.update run.sessionId fun row => { row with phase := .aborted }).ends run
  | _ => c.ends run

end Coordinator

/-! ## Both sides -/

structure System where
  world : World
  coordinator : Coordinator

namespace System

inductive Label where
  | start (keyRef : KeyRef) (idempotencyKey : String) (sessionId : SessionId)
  | hear (run : Run) (i : Identifier) (answer : Answer)
  | complete (run : Run)
  | fail (run : Run)
  | drop (run : Run)
  | crash
  | deliver (i : Identifier) (request : Request)
  | work (i : Identifier) (task : Task)
  | restart (i : Identifier)

def step (library : Library) (s : System) : Label → Option System
  | .start keyRef idempotencyKey sessionId =>
    (s.coordinator.start keyRef idempotencyKey sessionId).map fun c => { s with coordinator := c }
  | .hear run i answer =>
    if run ∈ s.coordinator.runs ∧ (i, answer) ∈ s.world.answers then
      (s.coordinator.hear library run i answer).map fun c => { s with coordinator := c }
    else none
  | .complete run =>
    if run ∈ s.coordinator.runs then
      (s.coordinator.complete run).map fun c => { s with coordinator := c }
    else none
  | .fail run =>
    if run ∈ s.coordinator.runs then some { s with coordinator := s.coordinator.fail run } else none
  | .drop run => some { s with coordinator := s.coordinator.ends run }
  | .crash => some { s with coordinator := { s.coordinator with runs := [] } }
  | .deliver i request =>
    if (i, request) ∈ s.coordinator.sent then
      (s.world.deliver i request).map fun w => { s with world := w }
    else none
  | .work i task => (s.world.workOn library everyone i task).map fun w => { s with world := w }
  | .restart i => some { s with world := s.world.restart i }

def initial : System := ⟨World.initial, ⟨[], [], [], []⟩⟩

end System

end AtlasCex.Mpc.Dkg
