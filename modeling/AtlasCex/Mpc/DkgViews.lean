import AtlasCex.Mpc.Dkg
import AtlasCex.Lib.Transition
/-!
# One view of a session

The coordinator is the adversary: it sends what it likes, to whom it likes, as often as it likes, and
the handlers of a participant interleave between their store calls. It cannot name a package before
it is sampled.

`Moved` is what a step of one participant can do: to each of its rows (`Session.Changed`), its shares
and its handlers, to what it has sealed and to what it has said. Everything that is proved of runs of the
participants is proved from it.

The coordinator may show each participant other round-1 packages. `Views` is what holds in every run,
whatever it sends: a row has its result because every honest participant computed round 2 with the
packages of that row (`RowSeen.result`), each with its own published package among them. A participant
has one row for a session and computes round 2 for it once, so the packages are the same at all of them
(`Views.agree`), and so is everything it has sealed (`Views.sealed`).

No assumption is made on how sessions of one key follow each other.
-/
namespace AtlasCex.Mpc.Dkg

open List
open Lib (exec exec_always)

attribute [ext] Transcript

inductive Label where
  | deliver (i : Identifier) (request : Request)
  | work (i : Identifier) (task : Task)
  | restart (i : Identifier)

/-- When a package was sampled. -/
def Package.number : Package → Option Nat
  | fresh n => some n
  | made _ => none

/-- Packages sampled so far, or packages of the adversary's own. -/
def Below (sampled : Nat) (all : Packages) : Prop := ∀ j, ∀ n ∈ (all j).number, n < sampled

instance (sampled : Nat) (all : Packages) : Decidable (Below sampled all) :=
  inferInstanceAs (Decidable (∀ j, ∀ n ∈ (all j).number, n < sampled))

/-- What can be sent at this point. -/
def sendable (s : World) : Request → Bool
  | .round2 _ _ (some all) => Below s.sampled all
  | _ => true

def step (library : Library) (honest : Identifier → Bool) (s : World) : Label → Option World
  | .deliver i request => if sendable s request then s.deliver i request else none
  | .work i task => s.workOn library honest i task
  | .restart i => some (s.restart i)

/-! ## Rows -/

namespace Session

/-- A row keeps its key and package, and its packages once it has them. -/
structure Kept (r r' : Session) : Prop where
  sessionId : r'.sessionId = r.sessionId
  keyRef : r'.keyRef = r.keyRef
  round1Package : r'.round1Package = r.round1Package
  round1Packages : ∀ all, r.round1Packages = some all → r'.round1Packages = some all
  transcript : ∀ t, r.transcript = some t → r'.transcript = some t

theorem Kept.refl (r : Session) : r.Kept r := ⟨rfl, rfl, rfl, fun _ h => h, fun _ h => h⟩

theorem Kept.trans {a b c : Session} (h : a.Kept b) (h' : b.Kept c) : a.Kept c :=
  ⟨h'.sessionId.trans h.sessionId, h'.keyRef.trans h.keyRef,
    h'.round1Package.trans h.round1Package,
    fun all hall => h'.round1Packages all (h.round1Packages all hall),
    fun t ht => h'.transcript t (h.transcript t ht)⟩

/-- A row keeps its result too. -/
structure Extends (r r' : Session) : Prop extends r.Kept r' where
  publicPackage : ∀ g, r.publicPackage = some g → r'.publicPackage = some g

theorem Extends.refl (r : Session) : r.Extends r := ⟨.refl r, fun _ h => h⟩

/-- Verified or committed. -/
def derived (r : Session) : Bool := r.phase = .verified ∨ r.phase = .committed

end Session

def Node.Has (node : Node) (session : Session) : Prop := ∃ r ∈ node.sessions, session.Kept r

def Node.Grows (node node' : Node) : Prop :=
  ∀ r ∈ node.sessions, ∃ r' ∈ node'.sessions, r.Extends r'

variable {library : Library} {honest : Identifier → Bool} {s t : World} {i : Identifier}
  {node node' : Node} {r q session : Session} {sessionId : SessionId} {keyRef : KeyRef}

theorem Node.Has.mono (h : node.Has session) (hext : node.Grows node') : node'.Has session := by
  obtain ⟨r, hr, hk⟩ := h
  obtain ⟨r', hr', hext⟩ := hext r hr
  exact ⟨r', hr', hk.trans hext.toKept⟩

/-- What a handler read is there still. -/
def TaskSeen (node : Node) : Task → Prop
  | .round2 session _ | .finalize session _ => node.Has session
  | _ => True

/-- A participant has computed round 2 of a session with these packages. -/
def Shows (s : World) (j : Identifier) (transcript : Transcript) : Prop :=
  ∃ r ∈ (s.nodes j).sessions, r.sessionId = transcript.sessionId ∧ r.keyRef = transcript.keyRef ∧
    r.round1Packages = some transcript.packages

/-- What a row says. -/
structure RowSeen (library : Library) (honest : Identifier → Bool) (s : World) (i : Identifier)
    (r : Session) : Prop where
  published : (i, .round1 r.sessionId r.round1Package) ∈ s.answers
  packages : ∀ all, r.round1Packages = some all →
    all i = r.round1Package ∧ r.transcript = some ⟨r.sessionId, r.keyRef, all⟩
  round1 : r.phase = .round1 → r.round1Packages = none ∧ r.transcript = none
  round2 : r.phase = .round2 → r.round1Packages.isSome = true
  early : r.phase = .round1 ∨ r.phase = .round2 → r.publicPackage = none
  reported : ∀ g, r.publicPackage = some g → (i, .finalize r.sessionId g) ∈ s.answers
  result : ∀ g, r.publicPackage = some g → ∃ all, r.round1Packages = some all ∧
    g = library.publicPackage all ∧
    ∀ j, honest j = true → Shows s j ⟨r.sessionId, r.keyRef, all⟩
  derived : r.derived = true → r.publicPackage.isSome = true

/-- What an answer says is so. -/
def AnswerSeen (s : World) : Identifier × Answer → Prop
  | (i, .round1 sessionId package) =>
    ∃ r ∈ (s.nodes i).sessions, r.sessionId = sessionId ∧ r.round1Package = package
  | (_, .round2 _ _ envelopes) => ∀ e ∈ envelopes, e ∈ s.genuine
  | (i, .finalize sessionId g) =>
    ∃ r ∈ (s.nodes i).sessions, r.sessionId = sessionId ∧ r.publicPackage = some g
  | _ => True

structure Views (library : Library) (honest : Identifier → Bool) (s : World) : Prop where
  ids : ∀ i, ((s.nodes i).sessions.map (·.sessionId)).Nodup
  rows : ∀ i, ∀ r ∈ (s.nodes i).sessions, RowSeen library honest s i r
  tasks : ∀ i, ∀ task ∈ (s.nodes i).tasks, TaskSeen (s.nodes i) task
  genuine : ∀ e ∈ s.genuine, e.sessionId = e.transcript.sessionId ∧ Shows s e.sender e.transcript
  answers : ∀ p ∈ s.answers, AnswerSeen s p

theorem Views.unique (h : Views library honest s) (hr : r ∈ (s.nodes i).sessions)
    (hq : q ∈ (s.nodes i).sessions) (heq : r.sessionId = q.sessionId) : r = q :=
  inj_on_of_nodup_map (h.ids i) hr hq heq

/-- The row under the id of what a handler read kept it. -/
theorem Views.kept (h : Views library honest s) (hhas : (s.nodes i).Has session)
    (hr : r ∈ (s.nodes i).sessions) (hid : r.sessionId = session.sessionId) : session.Kept r := by
  obtain ⟨q, hq, hkept⟩ := hhas
  obtain rfl := h.unique hr hq (hid.trans hkept.sessionId.symm)
  exact hkept

/-! ## Store calls -/

theorem mem_of_loadSession
    (h : node.loadSession sessionId = some r) : r ∈ node.sessions ∧ r.sessionId = sessionId :=
  ⟨mem_of_find?_eq_some h, by simpa using find?_some h⟩

theorem beginSession_some {package : Package}
    (h : node.beginSession sessionId keyRef package = some node') :
    (∀ r ∈ node.sessions, r.sessionId ≠ sessionId) ∧
      node' = { node with
        sessions := node.sessions.map (Node.supersede keyRef) ++
          [⟨sessionId, keyRef, .round1, package, none, none, none⟩] } := by
  simp only [Node.beginSession, Option.ite_none_left_eq_some, Node.loadSession, find?_isSome,
    decide_eq_true_eq, Option.some.injEq] at h
  exact ⟨fun r hr hid => h.1 ⟨r, hr, hid⟩, h.2.symm⟩

variable {all : Packages} {transcript : Transcript} {g : PublicPackage}

theorem advanceToRound2_some (h : node.advanceToRound2 sessionId all transcript = some node') :
    (∃ r ∈ node.sessions, r.sessionId = sessionId ∧ r.phase = .round1) ∧
      node' = node.update sessionId (· = .round1) fun session =>
        { session with
          phase := .round2, round1Packages := some all, transcript := some transcript } := by
  simp only [Node.advanceToRound2, Node.inPhase, any_eq_true, decide_eq_true_eq,
    Option.ite_none_right_eq_some, Option.some.injEq] at h
  exact ⟨h.1, h.2.symm⟩

theorem advanceToVerified_some (h : node.advanceToVerified sessionId g = some node') :
    (∃ r ∈ node.sessions, r.sessionId = sessionId ∧ r.phase = .round2) ∧
      node' = node.update sessionId (· = .round2) fun session =>
        { session with phase := .verified, publicPackage := some g } := by
  simp only [Node.advanceToVerified, Node.inPhase, any_eq_true, decide_eq_true_eq,
    Option.ite_none_right_eq_some, Option.some.injEq] at h
  exact ⟨h.1, h.2.symm⟩

/-- What a commit that goes through found and leaves. -/
theorem commitSession_committed (h : node.commitSession sessionId = .committed node') :
    ∃ r publicPackage, node.loadSession sessionId = some r ∧ r.phase = .verified ∧
      r.publicPackage = some publicPackage ∧ node.loadShare r.keyRef = none ∧
      node' = { node with
        sessions := node.sessions.map fun session =>
          if session.sessionId = sessionId then { session with phase := .committed } else session
        shares := node.shares ++ [⟨r.keyRef, sessionId, publicPackage⟩] } := by
  unfold Node.commitSession at h
  split at h
  · cases h
  · rename_i r hr
    split at h
    · cases h
    · rename_i publicPackage hphase hpublic
      split at h
      · cases h
      · rename_i hshare
        cases h
        refine ⟨r, publicPackage, hr, hphase, hpublic, by simpa using hshare, ?_⟩
        simp [Node.update]
    · cases h

theorem session_mem {phase : Phase} (h : node.session sessionId keyRef phase = .ok session) :
    session ∈ node.sessions ∧ session.sessionId = sessionId ∧ session.keyRef = keyRef ∧
      session.phase = phase := by
  simp only [Node.session, Lib.bind_eq_ok, Lib.require_eq_ok, Lib.refuse_eq_ok, Lib.pure_eq_ok,
    not_not] at h
  obtain ⟨-, -, r, hr, -, hkey, -, hphase, rfl⟩ := h
  obtain ⟨hmem, hid⟩ := mem_of_loadSession hr
  exact ⟨hmem, hid, hkey, hphase⟩

/-! ### Opening envelopes -/

theorem openAll_some {genuine : List Envelope} :
    ∀ {envelopes : List Envelope} {received out : List (Identifier × ShareValue)},
      openAll honest genuine i transcript received envelopes = some out →
      (received.map (·.1)).Nodup → received.map (·.1) ⊆ others i →
      (out.map (·.1)).Nodup ∧ out.map (·.1) ⊆ others i ∧
        out.length = received.length + envelopes.length ∧
        ∀ j ∈ out.map (·.1), j ∈ received.map (·.1) ∨
          ∃ e ∈ envelopes, e.sender = j ∧ opens honest genuine i transcript e = true
  | [], received, out, h, hnodup, hsub => by
    cases h
    exact ⟨hnodup, hsub, rfl, fun _ => .inl⟩
  | envelope :: rest, received, out, h, hnodup, hsub => by
    simp only [openAll, Option.ite_none_right_eq_some] at h
    obtain ⟨⟨hopens, hother, hfresh⟩, h⟩ := h
    obtain ⟨hout, hout', hlength, hfrom⟩ := openAll_some h
      (nodup_cons.2 ⟨hfresh, hnodup⟩) (cons_subset.2 ⟨hother, hsub⟩)
    refine ⟨hout, hout', by simp only [length_cons] at hlength ⊢; omega, fun j hj => ?_⟩
    obtain hj | ⟨e, he, hrest⟩ := hfrom j hj
    · obtain rfl | hj := mem_cons.1 hj
      · exact .inr ⟨envelope, mem_cons_self, rfl, hopens⟩
      · exact .inl hj
    · exact .inr ⟨e, mem_cons_of_mem _ he, hrest⟩

/-- Round 3 goes through with an envelope of every other participant. -/
theorem finalizeChecks_some {genuine : List Envelope} {envelopes : List Envelope}
    (h : finalizeChecks library honest genuine i session envelopes = some g) :
    ∃ all transcript, session.round1Packages = some all ∧ session.transcript = some transcript ∧
      g = library.publicPackage all ∧
      ∀ j, j ≠ i → ∃ e ∈ envelopes, e.sender = j ∧ opens honest genuine i transcript e = true := by
  simp only [finalizeChecks, Option.bind_eq_some_iff, Option.ite_none_right_eq_some,
    Option.some.injEq] at h
  obtain ⟨all, hall, transcript, htranscript, hcount, received, hopen, -, rfl⟩ := h
  refine ⟨all, transcript, hall, htranscript, rfl, fun j hj => ?_⟩
  obtain ⟨hnodup, hsub, hlength, hfrom⟩ := openAll_some hopen (by simp) (by simp)
  have hperm : (received.map (·.1)).Perm (others i) := by
    refine (hnodup.subperm hsub).perm_of_length_le ?_
    rw [length_map, hlength, hcount]
    simp
  have hmem : j ∈ others i := by simp [others, hj]
  obtain hnone | hfound := hfrom j (hperm.mem_iff.2 hmem)
  · cases hnone
  · exact hfound

/-! ## What a step does -/

/-- What makes a participant move. -/
inductive Cause where
  | request (request : Request)
  | task (task : Task)
  | restart

/-- What a step from `s` to `t` does to a row of participant `i`. -/
inductive Session.Changed (library : Library) (honest : Identifier → Bool) (s t : World)
    (i : Identifier) (r : Session) : Cause → Session → Prop where
  | same {cause : Cause} : Changed library honest s t i r cause r
  | superseded {sessionId : SessionId} (hne : r.sessionId ≠ sessionId)
      (hphase : r.phase ≠ .committed) :
      Changed library honest s t i r (.task (.round1Begin sessionId r.keyRef))
        { r with phase := .aborted }
  | round2 {session : Session} {packages : Option Packages} {all : Packages}
      (hkept : session.Kept r) (hphase : r.phase = .round1)
      (hchecks : round2Checks library i session packages = some all) :
      Changed library honest s t i r (.task (.round2 session packages)) { r with
        phase := .round2
        round1Packages := some all
        transcript := some ⟨r.sessionId, r.keyRef, all⟩ }
  | verified {session : Session} {envelopes : List Envelope} {g : PublicPackage}
      (hkept : session.Kept r) (hphase : r.phase = .round2)
      (hchecks : finalizeChecks library honest s.genuine i session envelopes = some g)
      (hanswer : (i, .finalize r.sessionId g) ∈ t.answers) :
      Changed library honest s t i r (.task (.finalize session envelopes))
        { r with phase := .verified, publicPackage := some g }
  | aborted (hphase : r.phase ≠ .committed) :
      Changed library honest s t i r (.task (.abort r.sessionId)) { r with phase := .aborted }
  | committed {g : PublicPackage} (hphase : r.phase = .verified) :
      Changed library honest s t i r (.task (.commit r.sessionId g)) { r with phase := .committed }

/-- What a handler has read when it starts. -/
inductive Node.Received (node : Node) : Request → Task → Prop where
  | round1 {sessionId : SessionId} {keyRef : KeyRef}
      (hvalid : validateSession sessionId keyRef = .ok ()) :
      Received node (.round1 sessionId keyRef 3 5) (.round1Session sessionId keyRef)
  | round2 {session : Session} {packages : Option Packages} (hmem : session ∈ node.sessions) :
      Received node (.round2 session.sessionId session.keyRef packages) (.round2 session packages)
  | finalize {session : Session} {envelopes : List Envelope} (hmem : session ∈ node.sessions)
      (hphase : session.phase = .round2) :
      Received node (.finalize session.sessionId session.keyRef envelopes)
        (.finalize session envelopes)
  | commit {r : Session} {g : PublicPackage} (hmem : r ∈ node.sessions)
      (hpublic : r.publicPackage = some g) :
      Received node (.commit r.sessionId r.keyRef g) (.commit r.sessionId g)

/-- The handlers a step starts. -/
inductive Spawned (library : Library) (honest : Identifier → Bool) (s : World) (i : Identifier) :
    Cause → Task → Prop where
  | received {request : Request} {task : Task} (h : (s.nodes i).Received request task) :
      Spawned library honest s i (.request request) task
  | begins {sessionId : SessionId} {keyRef : KeyRef} :
      Spawned library honest s i (.task (.round1Session sessionId keyRef))
        (.round1Begin sessionId keyRef)
  | round2 {session : Session} {packages : Option Packages}
      (hchecks : round2Checks library i session packages = none) :
      Spawned library honest s i (.task (.round2 session packages)) (.abort session.sessionId)
  | finalize {session : Session} {envelopes : List Envelope}
      (hchecks : finalizeChecks library honest s.genuine i session envelopes = none) :
      Spawned library honest s i (.task (.finalize session envelopes)) (.abort session.sessionId)

/-- A row that a step begins, where it does `g` to the others. -/
structure Begun (s t : World) (i : Identifier) (g : Session → Session) (cause : Cause) (r : Session) :
    Prop where
  cause : cause = .task (.round1Begin r.sessionId r.keyRef)
  row : r = ⟨r.sessionId, r.keyRef, .round1, .fresh s.sampled, none, none, none⟩
  sampled : t.sampled = s.sampled + 1
  fresh : ∀ q ∈ (s.nodes i).sessions, q.sessionId ≠ r.sessionId
  superseded : ∀ q ∈ (s.nodes i).sessions, q.keyRef = r.keyRef → q.phase ≠ .committed →
    (g q).phase = .aborted
  answered : (i, .round1 r.sessionId r.round1Package) ∈ t.answers

/-- A share that a step installs. -/
def Installs (s : World) (i : Identifier) (node : Node) (cause : Cause) (share : Installed) : Prop :=
  ∃ r ∈ (s.nodes i).sessions, (∃ g, cause = .task (.commit r.sessionId g)) ∧
    r.publicPackage = some share.publicPackage ∧
    share.sessionId = r.sessionId ∧ share.keyRef = r.keyRef ∧
    { r with phase := .committed } ∈ node.sessions

/-- Participant `i` takes a step, to `node`. -/
structure Moved (library : Library) (honest : Identifier → Bool) (s : World) (i : Identifier)
    (cause : Cause) (node : Node) (t : World) : Prop where
  nodes : t.nodes = Function.update s.nodes i node
  rows : ∃ (g : Session → Session) (new : Option Session),
    node.sessions = (s.nodes i).sessions.map g ++ new.toList ∧
    (∀ r ∈ (s.nodes i).sessions, r.Changed library honest s t i cause (g r)) ∧
    ∀ r ∈ new, Begun s t i g cause r
  shares : ∀ share ∈ node.shares, share ∈ (s.nodes i).shares ∨ Installs s i node cause share
  stay : (s.nodes i).shares ⊆ node.shares
  committed : ∀ r ∈ node.sessions, r.phase = .committed → r ∈ (s.nodes i).sessions ∨
    ∃ share ∈ node.shares, share.keyRef = r.keyRef
  tasks : ∀ task ∈ node.tasks, task ∈ (s.nodes i).tasks ∨ Spawned library honest s i cause task
  sampled : s.sampled ≤ t.sampled
  genuine : s.genuine ⊆ t.genuine
  sealed : ∀ e ∈ t.genuine, e ∈ s.genuine ∨
    e.sender = i ∧ e.sessionId = e.transcript.sessionId ∧ Shows t i e.transcript
  answers : s.answers ⊆ t.answers
  said : ∀ p ∈ t.answers, p ∈ s.answers ∨ AnswerSeen t p

section Moves
variable {cause : Cause} {tasks : List Task}

/-- The rows stay as they are. -/
theorem Moved.quiet
    (hnodes : t.nodes = Function.update s.nodes i { s.nodes i with tasks := tasks })
    (htasks : ∀ task ∈ tasks, task ∈ (s.nodes i).tasks ∨ Spawned library honest s i cause task)
    (hsampled : t.sampled = s.sampled) (hgenuine : t.genuine = s.genuine)
    (hanswers : s.answers ⊆ t.answers) (hsaid : ∀ p ∈ t.answers, p ∈ s.answers ∨ AnswerSeen t p) :
    Moved library honest s i cause { s.nodes i with tasks := tasks } t where
  nodes := hnodes
  rows := ⟨id, none, by simp, fun _ _ => .same, nofun⟩
  shares _ := .inl
  stay := List.Subset.refl _
  committed _ hr _ := .inl hr
  tasks := htasks
  sampled := hsampled.ge
  genuine := hgenuine ▸ List.Subset.refl _
  sealed e he := .inl (hgenuine ▸ he)
  answers := hanswers
  said := hsaid

/-- The rows of a session in one of the phases change, and none of them is committed. -/
theorem Moved.update {phases : Phase → Bool} {f : Session → Session}
    (hnode : node = ({ s.nodes i with tasks := tasks } : Node).update sessionId phases f)
    (hnodes : t.nodes = Function.update s.nodes i node)
    (hchanged : ∀ r ∈ (s.nodes i).sessions, r.sessionId = sessionId → phases r.phase = true →
      r.Changed library honest s t i cause (f r) ∧ (f r).phase ≠ .committed)
    (htasks : tasks ⊆ (s.nodes i).tasks) (hsampled : t.sampled = s.sampled)
    (hgenuine : s.genuine ⊆ t.genuine)
    (hsealed : ∀ e ∈ t.genuine, e ∈ s.genuine ∨
      e.sender = i ∧ e.sessionId = e.transcript.sessionId ∧ Shows t i e.transcript)
    (hanswers : s.answers ⊆ t.answers) (hsaid : ∀ p ∈ t.answers, p ∈ s.answers ∨ AnswerSeen t p) :
    Moved library honest s i cause node t := by
  subst hnode
  constructor
  case nodes => exact hnodes
  case rows =>
    refine ⟨_, none, (append_nil _).symm, fun r hr => ?_, nofun⟩
    split
    · rename_i hc
      exact (hchanged r hr hc.1 hc.2).1
    · exact .same
  case shares => exact fun _ => .inl
  case stay => exact List.Subset.refl _
  case committed =>
    intro r hr hphase
    obtain ⟨q, hq, rfl⟩ := mem_map.1 hr
    split at hphase
    · rename_i hc
      exact absurd hphase (hchanged q hq hc.1 hc.2).2
    · rename_i hc
      rw [if_neg hc]
      exact .inl hq
  case tasks => exact fun task htask => .inl (htasks htask)
  case sampled => exact hsampled.ge
  case genuine => exact hgenuine
  case sealed => exact hsealed
  case answers => exact hanswers
  case said => exact hsaid

end Moves

@[simp] theorem set_nodes_self (s : World) (i : Identifier) (node : Node) :
    (s.set i node).nodes i = node := by
  simp [World.set]

theorem Node.mem_update {phases : Phase → Bool} {f : Session → Session} (hr : r ∈ node.sessions)
    (hid : r.sessionId = sessionId) (hphase : phases r.phase = true) :
    f r ∈ (node.update sessionId phases f).sessions :=
  mem_map.2 ⟨r, hr, if_pos ⟨hid, hphase⟩⟩

theorem mem_append_singleton_or {α : Type} {P : α → Prop} {l : List α} {a : α} (ha : P a) :
    ∀ p ∈ l ++ [a], p ∈ l ∨ P p := by
  intro p hp
  obtain hp | hp := mem_append.1 hp
  · exact .inl hp
  · obtain rfl := mem_singleton.1 hp
    exact .inr ha

theorem Node.received {request : Request} {task : Task} (h : node.receive request = .ok task) :
    node.Received request task := by
  cases request with
  | round1 sessionId keyRef minSigners maxSigners =>
    simp only [Node.receive, Lib.bind_eq_ok, Lib.refuse_eq_ok, Lib.pure_eq_ok, not_or, not_not] at h
    obtain ⟨⟨⟩, hvalid, -, ⟨rfl, rfl⟩, -, -, rfl⟩ := h
    exact .round1 hvalid
  | round2 sessionId keyRef packages =>
    simp only [Node.receive, Lib.bind_eq_ok, Lib.pure_eq_ok] at h
    obtain ⟨session, hsession, rfl⟩ := h
    obtain ⟨hmem, rfl, rfl, -⟩ := session_mem hsession
    exact .round2 hmem
  | finalize sessionId keyRef envelopes =>
    simp only [Node.receive, Lib.bind_eq_ok, Lib.pure_eq_ok] at h
    obtain ⟨session, hsession, rfl⟩ := h
    obtain ⟨hmem, rfl, rfl, hphase⟩ := session_mem hsession
    exact .finalize hmem hphase
  | commit sessionId keyRef publicPackage =>
    simp only [Node.receive, Lib.bind_eq_ok, Lib.require_eq_ok, Lib.refuse_eq_ok, Lib.pure_eq_ok,
      not_not] at h
    obtain ⟨-, -, session, hload, -, rfl, derived, hpublic, -, rfl, rfl⟩ := h
    obtain ⟨hmem, rfl⟩ := mem_of_loadSession hload
    exact .commit hmem hpublic

theorem moved_deliver {request : Request} (hdeliver : s.deliver i request = some t) :
    ∃ node, Moved library honest s i (.request request) node t := by
  unfold World.deliver at hdeliver
  split at hdeliver
  · rename_i task hreceive
    cases hdeliver
    exact ⟨_, .quiet rfl (forall_mem_cons.2 ⟨.inr (.received (Node.received hreceive)), fun _ => .inl⟩) rfl rfl
      (List.Subset.refl _) fun _ => .inl⟩
  · cases hdeliver

theorem moved_restart : ∃ node, Moved library honest s i .restart node (s.restart i) :=
  ⟨_, .quiet rfl nofun rfl rfl (List.Subset.refl _) fun _ => .inl⟩

theorem supersede_changed (hne : r.sessionId ≠ sessionId) :
    r.Changed library honest s t i (.task (.round1Begin sessionId keyRef))
      (Node.supersede keyRef r) := by
  unfold Node.supersede
  split
  · rename_i hc
    obtain ⟨rfl, hphase⟩ := hc
    exact .superseded hne fun hcommitted => by simp [hcommitted, Node.supersedable] at hphase
  · exact .same

theorem supersede_aborts (hkey : r.keyRef = keyRef) (hphase : r.phase ≠ .committed) :
    (Node.supersede keyRef r).phase = .aborted := by
  unfold Node.supersede
  cases hp : r.phase <;> simp_all [Node.supersedable]

theorem moved_begin {tasks : List Task} (htasks : tasks ⊆ (s.nodes i).tasks)
    (hbegin : ({ s.nodes i with tasks := tasks } : Node).beginSession sessionId keyRef
      (.fresh s.sampled) = some node)
    (hnodes : t.nodes = Function.update s.nodes i node) (hsampled : t.sampled = s.sampled + 1)
    (hgenuine : t.genuine = s.genuine)
    (hanswers : t.answers = s.answers ++ [(i, .round1 sessionId (.fresh s.sampled))]) :
    Moved library honest s i (.task (.round1Begin sessionId keyRef)) node t := by
  obtain ⟨hfresh, rfl⟩ := beginSession_some hbegin
  constructor
  case nodes => exact hnodes
  case rows =>
    refine ⟨_, some _, rfl, fun r hr => supersede_changed (hfresh r hr), ?_⟩
    rintro _ ⟨⟩
    exact ⟨rfl, rfl, hsampled, hfresh, fun q _ => supersede_aborts, by simp [hanswers]⟩
  case shares => exact fun _ => .inl
  case stay => exact List.Subset.refl _
  case committed =>
    intro r hr hphase
    obtain hr | hr := mem_append.1 hr
    · obtain ⟨q, hq, rfl⟩ := mem_map.1 hr
      unfold Node.supersede at hphase ⊢
      split
      · rename_i hc
        simp [hc] at hphase
      · exact .inl hq
    · obtain rfl := mem_singleton.1 hr
      cases hphase
  case tasks => exact fun task htask => .inl (htasks htask)
  case sampled => omega
  case genuine => exact hgenuine ▸ List.Subset.refl _
  case sealed => exact fun e he => .inl (hgenuine ▸ he)
  case answers => exact hanswers ▸ subset_append_left ..
  case said =>
    rw [hanswers]
    refine mem_append_singleton_or ?_
    refine ⟨⟨sessionId, keyRef, .round1, .fresh s.sampled, none, none, none⟩, ?_, rfl, rfl⟩
    rw [hnodes, Function.update_self]
    exact mem_append_right _ (mem_singleton_self _)

theorem Views.moved_commit {tasks : List Task} {g : PublicPackage} (h : Views library honest s)
    (htasks : tasks ⊆ (s.nodes i).tasks)
    (hcommit : ({ s.nodes i with tasks := tasks } : Node).commitSession sessionId = .committed node)
    (hnodes : t.nodes = Function.update s.nodes i node) (hsampled : t.sampled = s.sampled)
    (hgenuine : t.genuine = s.genuine)
    (hanswers : t.answers = s.answers ++ [(i, .commit sessionId g)]) :
    Moved library honest s i (.task (.commit sessionId g)) node t := by
  obtain ⟨r, publicPackage, hload, hphase, hpublic, -, rfl⟩ := commitSession_committed hcommit
  obtain ⟨hr, rfl⟩ : r ∈ (s.nodes i).sessions ∧ r.sessionId = sessionId := mem_of_loadSession hload
  have hrow : ∀ q ∈ (s.nodes i).sessions, q.sessionId = r.sessionId → q = r :=
    fun q hq hid => h.unique hq hr hid
  constructor
  case nodes => exact hnodes
  case rows =>
    refine ⟨_, none, (append_nil _).symm, fun q hq => ?_, nofun⟩
    split
    · rename_i hid
      obtain rfl := hrow q hq hid
      exact .committed hphase
    · exact .same
  case shares =>
    refine mem_append_singleton_or ⟨r, hr, ⟨g, rfl⟩, hpublic, rfl, rfl, ?_⟩
    exact mem_map.2 ⟨r, hr, if_pos rfl⟩
  case stay => exact subset_append_left ..
  case committed =>
    intro q' hq' _
    obtain ⟨q, hq, rfl⟩ := mem_map.1 hq'
    split
    · rename_i hid
      obtain rfl := hrow q hq hid
      exact .inr ⟨_, mem_append_right _ (mem_singleton_self _), rfl⟩
    · exact .inl hq
  case tasks => exact fun task htask => .inl (htasks htask)
  case sampled => omega
  case genuine => exact hgenuine ▸ List.Subset.refl _
  case sealed => exact fun e he => .inl (hgenuine ▸ he)
  case answers => exact hanswers ▸ subset_append_left ..
  case said =>
    rw [hanswers]
    exact mem_append_singleton_or trivial

theorem Views.moved_work {task : Task} (h : Views library honest s)
    (hwork : s.workOn library honest i task = some t) :
    task ∈ (s.nodes i).tasks ∧ ∃ node, Moved library honest s i (.task task) node t := by
  simp only [World.workOn, Option.ite_none_right_eq_some, Option.some.injEq] at hwork
  obtain ⟨hmem, rfl⟩ := hwork
  refine ⟨hmem, ?_⟩
  have herase := (s.nodes i).tasks.erase_subset (a := task)
  have hseen := h.tasks i task hmem
  generalize (s.nodes i).tasks.erase task = tasks at herase
  have hidle : ∃ node, Moved library honest s i (.task task) node
      (s.set i { s.nodes i with tasks := tasks }) :=
    ⟨_, .quiet rfl (fun _ h => .inl (herase h)) rfl rfl (List.Subset.refl _) fun _ => .inl⟩
  have hspawn : ∀ new, Spawned library honest s i (.task task) new →
      ∃ node, Moved library honest s i (.task task) node
        ((s.set i { s.nodes i with tasks := tasks }).set i
          (({ s.nodes i with tasks := tasks } : Node).spawn new)) := by
    intro new hnew
    refine ⟨_, .quiet (Function.update_idem ..) (forall_mem_cons.2 ⟨.inr hnew, fun _ h => ?_⟩) rfl rfl
      (List.Subset.refl _) fun _ => .inl⟩
    exact .inl (herase h)
  have hanswer : ∀ a, AnswerSeen (s.set i { s.nodes i with tasks := tasks }) (i, a) →
      ∃ node, Moved library honest s i (.task task) node
        ((s.set i { s.nodes i with tasks := tasks }).answer i a) := by
    intro a ha
    exact ⟨_, .quiet rfl (fun _ h => .inl (herase h)) rfl rfl (subset_append_left ..)
      (mem_append_singleton_or ha)⟩
  cases task with
  | round1Session sessionId keyRef =>
    simp only [World.work, set_nodes_self]
    split
    · rename_i session hload
      split
      · obtain ⟨hr, hid⟩ := mem_of_loadSession hload
        exact hanswer _ ⟨session, by simpa using hr, hid, rfl⟩
      · exact hidle
    · exact hspawn _ .begins
  | round1Begin sessionId keyRef =>
    simp only [World.work, set_nodes_self]
    split
    · rename_i node hbegin
      exact ⟨node, moved_begin herase hbegin (Function.update_idem ..) rfl rfl rfl⟩
    · exact hidle
  | round2 session packages =>
    simp only [World.work, set_nodes_self]
    split
    · rename_i hchecks
      exact hspawn _ (.round2 hchecks)
    · rename_i all hchecks
      split
      · rename_i node hadvance
        obtain ⟨⟨r, hr, hid, hphase⟩, hnode⟩ := advanceToRound2_some hadvance
        refine ⟨node, .update hnode (Function.update_idem ..) (fun q hq hqid hqphase => ?_) herase rfl
          (subset_append_left ..) (fun e he => ?_) (subset_append_left ..)
          (mem_append_singleton_or fun e he => mem_append_right _ he)⟩
        · have hkept := h.kept hseen hq hqid
          refine ⟨?_, by simp⟩
          rw [← hkept.sessionId, ← hkept.keyRef]
          exact .round2 hkept (of_decide_eq_true hqphase) hchecks
        · refine (mem_append.1 he).imp_right fun he => ?_
          obtain ⟨recipient, -, rfl⟩ := mem_map.1 he
          refine ⟨rfl, rfl, { r with
            phase := .round2, round1Packages := some all,
            transcript := some ⟨session.sessionId, session.keyRef, all⟩ }, ?_, hid,
            (h.kept hseen hr hid).keyRef, rfl⟩
          change _ ∈ Node.sessions (Function.update (β := fun _ => Node) _ i node i)
          rw [Function.update_self, hnode]
          exact Node.mem_update hr hid (decide_eq_true hphase)
      · exact hidle
  | finalize session envelopes =>
    simp only [World.work, set_nodes_self]
    split
    · rename_i hchecks
      exact hspawn _ (.finalize hchecks)
    · rename_i g hchecks
      split
      · rename_i node hadvance
        obtain ⟨⟨r, hr, hid, hphase⟩, hnode⟩ := advanceToVerified_some hadvance
        refine ⟨node, .update hnode (Function.update_idem ..) (fun q hq hqid hqphase => ?_) herase rfl
          (List.Subset.refl _) (fun _ => .inl) (subset_append_left ..)
          (mem_append_singleton_or ?_)⟩
        · refine ⟨.verified (h.kept hseen hq hqid) (of_decide_eq_true hqphase) hchecks ?_, by simp⟩
          simp [World.answer, hqid]
        · refine ⟨{ r with phase := .verified, publicPackage := some g }, ?_, hid, rfl⟩
          change _ ∈ Node.sessions (Function.update (β := fun _ => Node) _ i node i)
          rw [Function.update_self, hnode]
          exact Node.mem_update hr hid (decide_eq_true hphase)
      · exact hidle
  | abort sessionId =>
    simp only [World.work, set_nodes_self]
    refine ⟨_, .update rfl (Function.update_idem ..) (fun r hr hid hphase => ?_) herase rfl
      (List.Subset.refl _) (fun _ => .inl) (List.Subset.refl _) fun _ => .inl⟩
    subst hid
    exact ⟨.aborted (by simpa using hphase), by simp⟩
  | commit sessionId g =>
    simp only [World.work, set_nodes_self]
    split
    · rename_i node hcommit
      exact ⟨node, h.moved_commit herase hcommit (Function.update_idem ..) rfl rfl rfl⟩
    · exact hanswer _ trivial
    · exact hidle
    · exact hidle

/-! ## What every run keeps -/

/-- Rows are kept, and what was sealed and said stays. -/
structure Later (s t : World) : Prop where
  nodes : ∀ j, (s.nodes j).Grows (t.nodes j)
  genuine : s.genuine ⊆ t.genuine
  answers : s.answers ⊆ t.answers

theorem Shows.later {j : Identifier} (h : Shows s j transcript) (hlater : Later s t) :
    Shows t j transcript := by
  obtain ⟨r, hr, hid, hkey, hall⟩ := h
  obtain ⟨r', hr', hext⟩ := hlater.nodes j r hr
  exact ⟨r', hr', hext.sessionId.trans hid, hext.keyRef.trans hkey, hext.round1Packages _ hall⟩

theorem RowSeen.later (h : RowSeen library honest s i r) (hlater : Later s t) :
    RowSeen library honest t i r where
  published := hlater.answers h.published
  packages := h.packages
  round1 := h.round1
  round2 := h.round2
  early := h.early
  reported g hg := hlater.answers (h.reported g hg)
  result g hg := by
    obtain ⟨all, hall, hpublic, hshows⟩ := h.result g hg
    exact ⟨all, hall, hpublic, fun j hj => (hshows j hj).later hlater⟩
  derived := h.derived

theorem TaskSeen.grows {task : Task} (h : TaskSeen node task) (hgrows : node.Grows node') :
    TaskSeen node' task := by
  cases task with
  | round2 session packages => exact Node.Has.mono h hgrows
  | finalize session envelopes => exact Node.Has.mono h hgrows
  | round1Session | round1Begin | abort | commit => trivial

theorem AnswerSeen.later {p : Identifier × Answer} (h : AnswerSeen s p) (hlater : Later s t) :
    AnswerSeen t p := by
  obtain ⟨i, a⟩ := p
  cases a with
  | round1 sessionId package =>
    obtain ⟨r, hr, hid, hpackage⟩ := h
    obtain ⟨r', hr', hext⟩ := hlater.nodes i r hr
    exact ⟨r', hr', hext.sessionId.trans hid, hext.round1Package.trans hpackage⟩
  | round2 sessionId transcript envelopes => exact fun e he => hlater.genuine (h e he)
  | finalize sessionId g =>
    obtain ⟨r, hr, hid, hg⟩ := h
    obtain ⟨r', hr', hext⟩ := hlater.nodes i r hr
    exact ⟨r', hr', hext.sessionId.trans hid, hext.publicPackage _ hg⟩
  | commit => trivial

section Step
variable {cause : Cause} {r' : Session}

theorem Session.Changed.extends (h : r.Changed library honest s t i cause r')
    (hrow : RowSeen library honest s i r) : r.Extends r' := by
  cases h with
  | same => exact .refl r
  | superseded | aborted | committed =>
    exact ⟨⟨rfl, rfl, rfl, fun _ h => h, fun _ h => h⟩, fun _ h => h⟩
  | round2 _ hphase =>
    obtain ⟨hnone, hnone'⟩ := hrow.round1 hphase
    exact ⟨⟨rfl, rfl, rfl, by simp [hnone], by simp [hnone']⟩, fun _ h => h⟩
  | verified _ hphase =>
    exact ⟨⟨rfl, rfl, rfl, fun _ h => h, fun _ h => h⟩, by simp [hrow.early (.inr hphase)]⟩

theorem Session.Changed.committed_stays (h : r.Changed library honest s t i cause r')
    (hphase : r.phase = .committed) : r' = r := by
  cases h with
  | same => rfl
  | superseded _ hne | aborted hne => exact absurd hphase hne
  | round2 _ h | verified _ h | committed h =>
    rw [hphase] at h
    cases h

namespace Moved

theorem self (hm : Moved library honest s i cause node t) : t.nodes i = node := by
  rw [hm.nodes, Function.update_self]

/-- Every row was there, or is new. -/
theorem row (hm : Moved library honest s i cause node t) (hr : r' ∈ node.sessions) :
    (∃ r ∈ (s.nodes i).sessions, r.Changed library honest s t i cause r') ∨
      ∃ g, Begun s t i g cause r' := by
  obtain ⟨g, new, hsessions, hchanged, hbegun⟩ := hm.rows
  rw [hsessions] at hr
  refine (mem_append.1 hr).imp (fun hr => ?_) fun hr => ⟨g, hbegun _ (Option.mem_toList.1 hr)⟩
  obtain ⟨r, hmem, rfl⟩ := mem_map.1 hr
  exact ⟨r, hmem, hchanged r hmem⟩

theorem committed_mem (hm : Moved library honest s i cause node t)
    (hr : r ∈ (s.nodes i).sessions) (hphase : r.phase = .committed) : r ∈ node.sessions := by
  obtain ⟨g, new, hsessions, hchanged, -⟩ := hm.rows
  rw [hsessions, ← (hchanged r hr).committed_stays hphase]
  exact mem_append_left _ (mem_map_of_mem hr)

variable (hm : Moved library honest s i cause node t) (h : Views library honest s)
include hm h

theorem grows : (s.nodes i).Grows node := by
  obtain ⟨g, new, hsessions, hchanged, -⟩ := hm.rows
  intro r hr
  refine ⟨g r, ?_, (hchanged r hr).extends (h.rows i r hr)⟩
  rw [hsessions]
  exact mem_append_left _ (mem_map_of_mem hr)

theorem later : Later s t := by
  refine ⟨?_, hm.genuine, hm.answers⟩
  rw [hm.nodes]
  exact (Function.forall_update_iff s.nodes fun j (n : Node) => (s.nodes j).Grows n).2
    ⟨hm.grows h, fun j _ r hr => ⟨r, hr, .refl r⟩⟩

theorem ids : (node.sessions.map (·.sessionId)).Nodup := by
  obtain ⟨g, new, hsessions, hchanged, hbegun⟩ := hm.rows
  have hids : ((s.nodes i).sessions.map g).map (·.sessionId) =
      (s.nodes i).sessions.map (·.sessionId) := by
    rw [map_map]
    exact map_congr_left fun r hr => ((hchanged r hr).extends (h.rows i r hr)).sessionId
  rw [hsessions, map_append, hids]
  cases new with
  | none => simpa using h.ids i
  | some r =>
    have hfresh := (hbegun r rfl).fresh
    simpa [nodup_append, h.ids i] using hfresh

end Moved

/-- A participant that comes to a result has an envelope of every other one. -/
theorem Views.result (h : Views library honest s) {envelopes : List Envelope}
    (hkept : session.Kept r) (hr : r ∈ (s.nodes i).sessions)
    (hchecks : finalizeChecks library honest s.genuine i session envelopes = some g) :
    ∃ all, r.round1Packages = some all ∧ g = library.publicPackage all ∧
      ∀ j, honest j = true → Shows s j ⟨r.sessionId, r.keyRef, all⟩ := by
  obtain ⟨all, transcript, hall, htranscript, hg, hfrom⟩ := finalizeChecks_some hchecks
  have hall' := hkept.round1Packages all hall
  have hsame : transcript = ⟨r.sessionId, r.keyRef, all⟩ := Option.some.inj
    ((hkept.transcript _ htranscript).symm.trans ((h.rows i r hr).packages all hall').2)
  refine ⟨all, hall', hg, fun j hj => ?_⟩
  by_cases hij : j = i
  · subst hij
    exact ⟨r, hr, rfl, rfl, hall'⟩
  · obtain ⟨e, -, rfl, hopens⟩ := hfrom j hij
    simp only [opens, decide_eq_true_eq] at hopens
    obtain ⟨-, hgenuine, -, -, hsealed⟩ := hopens
    have hshows := (h.genuine e (hgenuine hj)).2
    rwa [hsealed, hsame] at hshows

theorem round2Checks_own {packages : Option Packages}
    (hchecks : round2Checks library i session packages = some all) : all i = session.round1Package := by
  simp only [round2Checks, Option.filter_eq_some_iff, decide_eq_true_eq] at hchecks
  exact hchecks.2.1

theorem Session.Changed.seen (hchanged : r.Changed library honest s t i cause r')
    (h : Views library honest s) (hr : r ∈ (s.nodes i).sessions) (hlater : Later s t) :
    RowSeen library honest t i r' := by
  have hrow := (h.rows i r hr).later hlater
  cases hchanged with
  | same => exact hrow
  | superseded | aborted =>
    exact ⟨hrow.published, hrow.packages, nofun, nofun, nofun, hrow.reported, hrow.result, nofun⟩
  | committed hphase =>
    exact ⟨hrow.published, hrow.packages, nofun, nofun, nofun, hrow.reported, hrow.result,
      fun _ => hrow.derived (by simp [Session.derived, hphase])⟩
  | round2 hkept hphase hchecks =>
    have hnone := hrow.early (.inl hphase)
    refine ⟨hrow.published, ?_, nofun, fun _ => rfl, fun _ => hnone, hrow.reported, ?_, nofun⟩
    · rintro _ ⟨⟩
      exact ⟨(round2Checks_own hchecks).trans hkept.round1Package.symm, rfl⟩
    · simp [hnone]
  | verified hkept hphase hchecks hanswer =>
    refine ⟨hrow.published, hrow.packages, nofun, nofun, nofun, ?_, ?_, fun _ => rfl⟩
    · rintro _ ⟨⟩
      exact hanswer
    · rintro _ ⟨⟩
      obtain ⟨all, hall, hg, hshows⟩ := h.result hkept hr hchecks
      exact ⟨all, hall, hg, fun j hj => (hshows j hj).later hlater⟩

theorem Begun.seen {f : Session → Session} (h : Begun s t i f cause r) :
    RowSeen library honest t i r := by
  have hanswered := h.answered
  rw [h.row] at hanswered ⊢
  exact ⟨hanswered, nofun, fun _ => ⟨rfl, rfl⟩, nofun, fun _ => rfl, nofun, nofun, nofun⟩

theorem Spawned.seen {task : Task} (h : Spawned library honest s i cause task) :
    TaskSeen (s.nodes i) task := by
  cases h with
  | received h =>
    cases h with
    | round2 hmem | finalize hmem => exact ⟨_, hmem, .refl _⟩
    | round1 | commit => trivial
  | begins | round2 | finalize => trivial

theorem Views.moved (h : Views library honest s) (hm : Moved library honest s i cause node t) :
    Views library honest t := by
  have hlater := hm.later h
  have hself := hm.self
  have hne : ∀ j, j ≠ i → t.nodes j = s.nodes j := fun j hj => by
    rw [hm.nodes, Function.update_of_ne hj]
  constructor
  case ids =>
    intro j
    by_cases hj : j = i
    · rw [hj, hself]
      exact hm.ids h
    · rw [hne j hj]
      exact h.ids j
  case rows =>
    intro j r hr
    by_cases hj : j = i
    · rw [hj, hself] at hr
      rw [hj]
      obtain ⟨q, hq, hchanged⟩ | ⟨f, hbegun⟩ := hm.row hr
      · exact hchanged.seen h hq hlater
      · exact hbegun.seen
    · rw [hne j hj] at hr
      exact (h.rows j r hr).later hlater
  case tasks =>
    intro j task htask
    by_cases hj : j = i
    · rw [hj, hself] at htask ⊢
      have hgrows := hm.grows h
      obtain hold | hnew := hm.tasks task htask
      · exact (h.tasks i task hold).grows hgrows
      · exact hnew.seen.grows hgrows
    · rw [hne j hj] at htask ⊢
      exact h.tasks j task htask
  case genuine =>
    intro e he
    obtain hold | ⟨hsender, hid, hshows⟩ := hm.sealed e he
    · exact (h.genuine e hold).imp_right fun hshows => hshows.later hlater
    · exact ⟨hid, hsender ▸ hshows⟩
  case answers =>
    intro p hp
    obtain hold | hnew := hm.said p hp
    · exact (h.answers p hold).later hlater
    · exact hnew

end Step

/-! ## Runs -/

theorem Views.step_moved {label : Label} (h : Views library honest s)
    (hstep : step library honest s label = some t) :
    ∃ i cause node, Moved library honest s i cause node t := by
  cases label with
  | deliver i request =>
    simp only [Dkg.step, Option.ite_none_right_eq_some] at hstep
    exact ⟨i, _, moved_deliver hstep.2⟩
  | work i task => exact ⟨i, _, (h.moved_work hstep).2⟩
  | restart i =>
    cases hstep
    exact ⟨i, _, moved_restart⟩

theorem Views.step {label : Label} (h : Views library honest s)
    (hstep : step library honest s label = some t) : Views library honest t := by
  obtain ⟨i, cause, node, hm⟩ := h.step_moved hstep
  exact h.moved hm

theorem Views.initial : Views library honest World.initial := by
  constructor <;> simp [World.initial]

theorem Views.run {labels : List Label}
    (hrun : exec (Dkg.step library honest) World.initial labels = some t) : Views library honest t :=
  exec_always Views.initial (fun _ _ _ h hstep => h.step hstep) hrun

/-- The packages with which one participant came to a result are those of the other's row. -/
theorem Views.agree (h : Views library honest s) {j : Identifier} (hj : honest j = true)
    (hr : r ∈ (s.nodes i).sessions) (hq : q ∈ (s.nodes j).sessions)
    (hid : r.sessionId = q.sessionId) (hg : r.publicPackage = some g) :
    ∃ all, r.round1Packages = some all ∧ q.round1Packages = some all ∧ q.keyRef = r.keyRef ∧
      g = library.publicPackage all := by
  obtain ⟨all, hall, hpublic, hshows⟩ := (h.rows i r hr).result g hg
  obtain ⟨q', hq', hqid, hqkey, hqall⟩ := hshows j hj
  obtain rfl : q' = q := h.unique hq' hq (hqid.trans hid)
  exact ⟨all, hall, hqall, hqkey, hpublic⟩

/-- The packages of a result hold what each honest participant published for the session. -/
theorem Views.published (h : Views library honest s) {k : Identifier} (hk : honest k = true)
    (hr : r ∈ (s.nodes i).sessions) (hg : r.publicPackage = some g)
    (hall : r.round1Packages = some all) :
    (k, .round1 r.sessionId (all k)) ∈ s.answers ∧
      ∀ package, (k, .round1 r.sessionId package) ∈ s.answers → package = all k := by
  obtain ⟨all', hall', -, hshows⟩ := (h.rows i r hr).result g hg
  obtain rfl : all' = all := Option.some.inj (hall'.symm.trans hall)
  obtain ⟨q, hq, hqid, -, hqall⟩ := hshows k hk
  have hrow := h.rows k q hq
  have hown := (hrow.packages _ hqall).1
  have hpublished := hrow.published
  rw [hqid, ← hown] at hpublished
  refine ⟨hpublished, fun package hpackage => ?_⟩
  obtain ⟨q', hq', hid', rfl⟩ := h.answers _ hpackage
  obtain rfl : q' = q := h.unique hq' hq (hid'.trans hqid.symm)
  exact hown.symm

/-- All that a participant has sealed in a session is for one set of packages. -/
theorem Views.sealed (h : Views library honest s) {e e' : Envelope} (he : e ∈ s.genuine)
    (he' : e' ∈ s.genuine) (hsender : e'.sender = e.sender) (hid : e'.sessionId = e.sessionId) :
    e'.transcript = e.transcript := by
  obtain ⟨heid, r, hr, hrid, hrkey, hrall⟩ := h.genuine e he
  obtain ⟨heid', q, hq, hqid, hqkey, hqall⟩ := h.genuine e' he'
  rw [hsender] at hq
  have hsame : e'.transcript.sessionId = e.transcript.sessionId := by rw [← heid', ← heid, hid]
  obtain rfl : q = r := h.unique hq hr (by rw [hqid, hrid, hsame])
  rw [hrall] at hqall
  exact Transcript.ext hsame (hqkey.symm.trans hrkey) (Option.some.inj hqall).symm

/-- Once envelopes of a session are out, its row is past round 1. -/
theorem Views.past (h : Views library honest s) {e : Envelope} (he : e ∈ s.genuine) :
    (s.nodes e.sender).inPhase e.sessionId .round1 = false := by
  obtain ⟨heid, r, hr, hrid, -, hrall⟩ := h.genuine e he
  rw [Bool.eq_false_iff]
  intro hin
  obtain ⟨q, hq, hphase⟩ := any_eq_true.1 hin
  rw [decide_eq_true_eq] at hphase
  obtain rfl : q = r := h.unique hq hr (by rw [hphase.1, hrid, heid])
  rw [((h.rows _ q hq).round1 hphase.2).1] at hrall
  cases hrall

end AtlasCex.Mpc.Dkg
