import AtlasCex.Lib.Format
import AtlasCex.Mpc.Callers
import AtlasCex.Mpc.DkgAgreement
/-!
# The transcript in bytes

| here | there |
| --- | --- |
| `absorb`                     | `absorb`, and the loop of `envelope_context` (`mpc/src/dkg.rs:288-292`, `:340-346`) |
| `transcriptInput`, `hash`    | `transcript_hash` (`mpc/src/dkg.rs:240-258`) |
| `context`                    | `envelope_context` (`mpc/src/dkg.rs:314-346`) |
| `Encoding.opens`, `openAll`  | `open_share` and the loop of `finalize` (`mpc/src/dkg.rs:428-480`, `:720-760`) |
| `Encoding.step`              | the participants of `Dkg.lean` with the checks made on bytes |

`Dkg.lean` compares transcripts; the code compares the hashes it binds into the associated data of an
envelope. For session ids and key references a participant accepts, and packages of the length that
packages have, equal associated data is an equal transcript (`opens_eq`), so the runs of `Encoding.step`
are runs of `step` (`exec_refines`). SHA-256 is collision-free here; postcard tells packages apart.

An envelope's `transcript_hash` field, which is compared first, is the adversary's to choose and is not
modelled. Neither are the key derivation and the nonce: an envelope opens under the associated data it
was sealed with.
-/
namespace AtlasCex.Mpc.Dkg

open List
open Lib (exec Format)

/-! ## Parts with their length before them -/

/-- A part, after its length in four bytes. -/
def part : Format Bytes := .bytes (.uintBE 4)

def absorb (parts : List Bytes) : Bytes := parts.flatMap part.put

instance (b : Bytes) : Decidable (part.Fits b) := inferInstanceAs (Decidable (b.length < 256 ^ 4))

theorem absorb_inj {parts parts' : List Bytes} {rest rest' : Bytes}
    (hlength : parts'.length = parts.length) (hfits : ∀ p ∈ parts, part.Fits p)
    (hfits' : ∀ p ∈ parts', part.Fits p) (h : absorb parts ++ rest = absorb parts' ++ rest') :
    parts = parts' ∧ rest = rest' :=
  (part.times parts.length).put_inj ⟨rfl, hfits⟩ ⟨hlength, hfits'⟩ h

/-- The last part ends where the bytes end, whatever its length. -/
theorem part_inj {a b : Bytes} (h : part.put a = part.put b) : a = b := by
  have hlength : ((Format.uintBE 4).put a.length).length = ((Format.uintBE 4).put b.length).length := by
    simp only [Format.uintBE, length_reverse, Format.length_putUint]
  exact (append_inj h hlength).2

/-! ## The hash and the associated data -/

structure Encoding where
  sha256 : Bytes → Bytes
  /-- `Identifier::serialize`. -/
  identifier : Identifier → Bytes
  /-- `encode_postcard` of a round-1 package. -/
  package : Package → Bytes
  /-- The transport key of each member of the roster. -/
  transport : Identifier → Bytes
  ephemeral : Envelope → Bytes
  sha256_inj : Function.Injective sha256
  package_inj : Function.Injective package
  identifier_length : ∀ i, (identifier i).length = 32
  transport_length : ∀ i, (transport i).length = 32
  ephemeral_length : ∀ e, (ephemeral e).length = 32

def dkgProtocol : String := "atlas-wallet/frost-ed25519-dkg/v1"

namespace Encoding

variable (encoding : Encoding)

/-- The packages in the order of the roster, each after its owner. -/
def packageParts (all : Packages) : List Bytes :=
  (List.finRange 5).flatMap fun i => [encoding.identifier i, encoding.package (all i)]

def transcriptInput (transcript : Transcript) : Bytes :=
  absorb [asBytes dkgProtocol, asBytes "round1-transcript", asBytes transcript.sessionId,
      asBytes transcript.keyRef] ++
    ((Format.uintBE 2).put 3 ++ (Format.uintBE 2).put 5 ++ (Format.uintBE 4).put 5 ++
      absorb (encoding.packageParts transcript.packages))

def hash (transcript : Transcript) : Bytes := encoding.sha256 (encoding.transcriptInput transcript)

def context (sessionId : SessionId) (keyRef : KeyRef) (sender recipient : Identifier)
    (ephemeral transcriptHash : Bytes) : Bytes :=
  absorb [asBytes dkgProtocol, asBytes "share-envelope", asBytes sessionId, asBytes keyRef,
      encoding.identifier sender, encoding.identifier recipient, encoding.transport sender,
      encoding.transport recipient, ephemeral] ++
    part.put transcriptHash

/-- Packages of the length that packages have. -/
def PackagesFit (all : Packages) : Prop := ∀ i, part.Fits (encoding.package (all i))

def Fits (transcript : Transcript) : Prop :=
  part.Fits (asBytes transcript.sessionId) ∧ part.Fits (asBytes transcript.keyRef) ∧
    encoding.PackagesFit transcript.packages

variable {encoding} {transcript transcript' : Transcript}

theorem fits_of_length {b : Bytes} {n : Nat} (h : b.length = n) (hn : n < 256 ^ 4) : part.Fits b := by
  show b.length < 256 ^ 4
  rw [h]
  exact hn

variable {all : Packages}

theorem packageParts_inj {all' : Packages}
    (h : encoding.packageParts all = encoding.packageParts all') : all = all' := by
  funext i
  have hpair := Lib.flatMap_eq_flatMap (fun _ => by rfl) h i (mem_finRange i)
  exact encoding.package_inj (List.cons.inj (List.cons.inj hpair).2).1

theorem packageParts_fit (h : encoding.PackagesFit all) :
    ∀ p ∈ encoding.packageParts all, part.Fits p := by
  intro p hp
  obtain ⟨i, -, hp⟩ := mem_flatMap.1 hp
  rcases mem_pair.1 hp with rfl | rfl
  · exact fits_of_length (encoding.identifier_length i) (by decide)
  · exact h i

/-- Equal hashes are of equal views. -/
theorem hash_inj (hfits : encoding.Fits transcript) (hfits' : encoding.Fits transcript')
    (h : encoding.hash transcript = encoding.hash transcript') : transcript = transcript' := by
  have hhead : ∀ {t : Transcript}, encoding.Fits t → ∀ p ∈ [asBytes dkgProtocol,
      asBytes "round1-transcript", asBytes t.sessionId, asBytes t.keyRef], part.Fits p := by
    intro t ht
    simp only [forall_mem_cons, not_mem_nil, false_imp_iff, implies_true, and_true]
    exact ⟨by decide, by decide, ht.1, ht.2.1⟩
  have hinput : encoding.transcriptInput transcript = encoding.transcriptInput transcript' :=
    encoding.sha256_inj h
  obtain ⟨hids, hrest⟩ := absorb_inj (by rfl) (hhead hfits) (hhead hfits') hinput
  simp only [List.cons.injEq, true_and, and_true] at hids
  have hlast := append_cancel_left hrest
  have hparts := (absorb_inj (by rfl) (packageParts_fit hfits.2.2)
    (packageParts_fit hfits'.2.2) (congrArg (· ++ []) hlast)).1
  exact Transcript.ext (asBytes_inj hids.1) (asBytes_inj hids.2) (packageParts_inj hparts)

/-! ## Opening envelopes -/

section Open

variable (encoding : Encoding) (honest : Identifier → Bool) (genuine : List Envelope) (i : Identifier)

/-- Addressed here, and sealed by its sender's key under the associated data the recipient computes. -/
def opens (transcript : Transcript) (e : Envelope) : Bool :=
  e.recipient = i ∧ (honest e.sender = true → e ∈ genuine) ∧
    encoding.context e.sessionId e.keyRef e.sender e.recipient (encoding.ephemeral e)
        (encoding.hash e.transcript) =
      encoding.context transcript.sessionId transcript.keyRef e.sender i (encoding.ephemeral e)
        (encoding.hash transcript)

def openAll (transcript : Transcript) :
    List (Identifier × ShareValue) → List Envelope → Option (List (Identifier × ShareValue))
  | received, [] => some received
  | received, e :: rest =>
    if encoding.opens honest genuine i transcript e ∧ e.sender ∈ others i ∧
        e.sender ∉ received.map (·.1) then
      openAll transcript ((e.sender, e.share) :: received) rest
    else none

def finalizeChecks (library : Library) (session : Session) (envelopes : List Envelope) :
    Option PublicPackage :=
  session.round1Packages.bind fun all =>
    session.transcript.bind fun transcript =>
      if envelopes.length = (others i).length then
        (encoding.openAll honest genuine i transcript [] envelopes).bind fun received =>
          if library.part3 i all received = true then some (library.publicPackage all) else none
      else none

/-- An envelope sealed for ids and packages of the length they have. -/
def EnvelopeFits (e : Envelope) : Prop :=
  part.Fits (asBytes e.sessionId) ∧ part.Fits (asBytes e.keyRef) ∧ encoding.Fits e.transcript

end Open

variable {honest : Identifier → Bool} {genuine : List Envelope} {i : Identifier} {library : Library}

variable {sessionId : SessionId} {keyRef : KeyRef}

/-- Equal associated data is an equal session, key and view. -/
theorem context_inj {sessionId' : SessionId} {keyRef' : KeyRef}
    {sender recipient : Identifier} {ephemeral hash hash' : Bytes} (hephemeral : ephemeral.length = 32)
    (hid : part.Fits (asBytes sessionId)) (hid' : part.Fits (asBytes sessionId'))
    (hkey : part.Fits (asBytes keyRef)) (hkey' : part.Fits (asBytes keyRef'))
    (h : encoding.context sessionId keyRef sender recipient ephemeral hash =
      encoding.context sessionId' keyRef' sender recipient ephemeral hash') :
    sessionId = sessionId' ∧ keyRef = keyRef' ∧ hash = hash' := by
  have hparts : ∀ {id key : String}, part.Fits (asBytes id) → part.Fits (asBytes key) →
      ∀ p ∈ [asBytes dkgProtocol, asBytes "share-envelope", asBytes id, asBytes key,
        encoding.identifier sender, encoding.identifier recipient, encoding.transport sender,
        encoding.transport recipient, ephemeral], part.Fits p := by
    intro id key hid hkey
    simp only [forall_mem_cons, not_mem_nil, false_imp_iff, implies_true, and_true]
    exact ⟨by decide, by decide, hid, hkey,
      fits_of_length (encoding.identifier_length _) (by decide),
      fits_of_length (encoding.identifier_length _) (by decide),
      fits_of_length (encoding.transport_length _) (by decide),
      fits_of_length (encoding.transport_length _) (by decide),
      fits_of_length hephemeral (by decide)⟩
  obtain ⟨hhead, hlast⟩ := absorb_inj (by rfl) (hparts hid hkey) (hparts hid' hkey') h
  simp only [List.cons.injEq, true_and, and_true] at hhead
  exact ⟨asBytes_inj hhead.1, asBytes_inj hhead.2, part_inj hlast⟩

theorem opens_eq {e : Envelope} (hfits : encoding.Fits transcript) (he : encoding.EnvelopeFits e) :
    encoding.opens honest genuine i transcript e = Dkg.opens honest genuine i transcript e := by
  unfold opens Dkg.opens
  refine decide_eq_decide.2 (and_congr_right fun hrecipient => and_congr_right fun _ => ?_)
  constructor
  · intro h
    rw [hrecipient] at h
    obtain ⟨hid, hkey, hhash⟩ :=
      context_inj (encoding.ephemeral_length e) he.1 hfits.1 he.2.1 hfits.2.1 h
    exact ⟨hid, hkey, hash_inj he.2.2 hfits hhash⟩
  · rintro ⟨hid, hkey, htranscript⟩
    rw [hrecipient, hid, hkey, htranscript]

theorem openAll_eq (hfits : encoding.Fits transcript) :
    ∀ {envelopes : List Envelope} (received : List (Identifier × ShareValue)),
      (∀ e ∈ envelopes, encoding.EnvelopeFits e) →
      encoding.openAll honest genuine i transcript received envelopes =
        Dkg.openAll honest genuine i transcript received envelopes
  | [], _, _ => rfl
  | e :: rest, received, h => by
    rw [openAll, Dkg.openAll, opens_eq hfits (h e mem_cons_self),
      openAll_eq hfits _ fun e' he' => h e' (mem_cons_of_mem e he')]

theorem finalizeChecks_eq {session : Session} {envelopes : List Envelope}
    (hfits : ∀ transcript, session.transcript = some transcript → encoding.Fits transcript)
    (henvelopes : ∀ e ∈ envelopes, encoding.EnvelopeFits e) :
    encoding.finalizeChecks honest genuine i library session envelopes =
      Dkg.finalizeChecks library honest genuine i session envelopes := by
  unfold finalizeChecks Dkg.finalizeChecks
  cases htranscript : session.transcript with
  | none => rfl
  | some transcript =>
    simp only [Option.bind_some, openAll_eq (hfits transcript htranscript) [] henvelopes]

/-! ## The participants, with their checks on bytes -/

section Step

variable (encoding : Encoding) (library : Library) (honest : Identifier → Bool)

def work (s : World) (i : Identifier) : Task → World
  | .finalize session envelopes =>
    match encoding.finalizeChecks honest s.genuine i library session envelopes with
    | none => s.set i ((s.nodes i).spawn (.abort session.sessionId))
    | some publicPackage =>
      match (s.nodes i).advanceToVerified session.sessionId publicPackage with
      | some node => s.set i node |>.answer i (.finalize session.sessionId publicPackage)
      | none => s
  | task => s.work library honest i task

/-- What there are bytes for. -/
def Sends : Request → Prop
  | .round2 _ _ packages => ∀ all ∈ packages, encoding.PackagesFit all
  | .finalize _ _ envelopes => ∀ e ∈ envelopes, encoding.EnvelopeFits e
  | _ => True

instance (all : Packages) : Decidable (encoding.PackagesFit all) :=
  inferInstanceAs (Decidable (∀ i, part.Fits (encoding.package (all i))))

instance (transcript : Transcript) : Decidable (encoding.Fits transcript) :=
  inferInstanceAs (Decidable (_ ∧ _ ∧ _))

instance (e : Envelope) : Decidable (encoding.EnvelopeFits e) :=
  inferInstanceAs (Decidable (_ ∧ _ ∧ _))

instance : ∀ request, Decidable (encoding.Sends request)
  | .round2 _ _ packages => inferInstanceAs (Decidable (∀ all ∈ packages, _))
  | .finalize _ _ envelopes => inferInstanceAs (Decidable (∀ e ∈ envelopes, _))
  | .round1 .. | .commit .. => isTrue trivial

def step (s : World) : Label → Option World
  | .deliver i request =>
    if sendable s request ∧ encoding.Sends request then s.deliver i request else none
  | .work i task =>
    if task ∈ (s.nodes i).tasks then
      let node := { s.nodes i with tasks := (s.nodes i).tasks.erase task }
      some (encoding.work library honest (s.set i node) i task)
    else none
  | .restart i => some (s.restart i)

end Step

/-! ## Every run on bytes is a run on transcripts -/

/-- A row of a session that was accepted; its view has the length views have. -/
structure RowFits (encoding : Encoding) (r : Session) : Prop where
  valid : validateSession r.sessionId r.keyRef = .ok ()
  transcript : ∀ transcript, r.transcript = some transcript → encoding.Fits transcript

def TaskFits (encoding : Encoding) : Task → Prop
  | .round1Session sessionId keyRef | .round1Begin sessionId keyRef =>
    validateSession sessionId keyRef = .ok ()
  | .round2 session packages => encoding.RowFits session ∧ ∀ all ∈ packages, encoding.PackagesFit all
  | .finalize session envelopes =>
    encoding.RowFits session ∧ ∀ e ∈ envelopes, encoding.EnvelopeFits e
  | .abort _ | .commit .. => True

structure NodeFits (encoding : Encoding) (node : Node) : Prop where
  rows : ∀ r ∈ node.sessions, encoding.RowFits r
  tasks : ∀ task ∈ node.tasks, encoding.TaskFits task

/-- Bytes for everything the participants hold. -/
def WorldFits (encoding : Encoding) (s : World) : Prop := ∀ i, encoding.NodeFits (s.nodes i)

variable {s t : World} {node : Node}

theorem fits_of_valid (h : validateSession sessionId keyRef = .ok ()) :
    part.Fits (asBytes sessionId) ∧ part.Fits (asBytes keyRef) := by
  have hlength : ∀ text : String, (asBytes text).length = text.utf8ByteSize := fun _ => rfl
  simp only [validateSession, Lib.bind_eq_ok] at h
  obtain ⟨_, hid, hkey⟩ := h
  rw [Lib.refuse_eq_ok, validSessionId, Bool.not_eq_false, decide_eq_true_eq] at hid
  rw [Lib.refuse_eq_ok, not_or, not_lt] at hkey
  replace hid := hid.2.1
  replace hkey := hkey.2
  exact ⟨fits_of_length (hlength _) (hid.trans_lt (by decide)),
    fits_of_length (hlength _) (hkey.trans_lt (by decide))⟩

variable {task : Task} {cause : Cause} {r r' : Session}

theorem RowFits.changed (h : encoding.RowFits r)
    (htask : ∀ session packages, cause = .task (.round2 session packages) →
      ∀ all ∈ packages, encoding.PackagesFit all)
    (hchanged : r.Changed library honest s t i cause r') : encoding.RowFits r' := by
  cases hchanged with
  | same | superseded | verified | aborted | committed => exact ⟨h.valid, h.transcript⟩
  | round2 hkept hphase hchecks =>
    have hids := fits_of_valid h.valid
    have hall := htask _ _ rfl _ (Option.filter_eq_some_iff.1 hchecks).1
    refine ⟨h.valid, ?_⟩
    rintro _ ⟨⟩
    exact ⟨hids.1, hids.2, hall⟩

/-- One participant takes a step, by a request there are bytes for or by one of its handlers. -/
theorem WorldFits.moved (h : encoding.WorldFits s) (hm : Moved library honest s i cause node t)
    (hsends : ∀ request, cause = .request request → encoding.Sends request)
    (hmem : ∀ task, cause = .task task → task ∈ (s.nodes i).tasks) : encoding.WorldFits t := by
  unfold WorldFits
  rw [hm.nodes]
  refine (Function.forall_update_iff s.nodes fun _ (n : Node) => encoding.NodeFits n).2
    ⟨⟨fun r hr => ?_, fun task htask => ?_⟩, fun j _ => h j⟩
  · obtain ⟨q, hq, hchanged⟩ | ⟨g, hbegun⟩ := hm.row hr
    · refine ((h i).rows q hq).changed ?_ hchanged
      intro session packages hcause
      exact ((h i).tasks _ (hmem _ hcause)).2
    · have hvalid := (h i).tasks _ (hmem _ hbegun.cause)
      rw [hbegun.row]
      exact ⟨hvalid, nofun⟩
  · obtain hold | hnew := hm.tasks task htask
    · exact (h i).tasks task hold
    · cases hnew with
      | received hreceived =>
        have hbytes := hsends _ rfl
        cases hreceived with
        | round1 hvalid => exact hvalid
        | round2 hr | finalize hr => exact ⟨(h i).rows _ hr, hbytes⟩
        | commit => trivial
      | begins =>
        have hvalid := (h i).tasks _ (hmem _ rfl)
        exact hvalid
      | round2 | finalize => trivial

theorem work_eq (htask : encoding.TaskFits task) :
    encoding.work library honest s i task = s.work library honest i task := by
  cases task with
  | finalize session envelopes =>
    cases hchecks : Dkg.finalizeChecks library honest s.genuine i session envelopes with
    | none => simp only [work, World.work, finalizeChecks_eq htask.1.transcript htask.2, hchecks]
    | some g =>
      cases hadvance : (s.nodes i).advanceToVerified session.sessionId g <;>
        simp only [work, World.work, finalizeChecks_eq htask.1.transcript htask.2, hchecks, hadvance]
  | round1Session | round1Begin | round2 | abort | commit => rfl

/-- A step on bytes is a step on transcripts. -/
theorem step_refines {label : Label} (hv : Views library honest s) (h : encoding.WorldFits s)
    (hstep : encoding.step library honest s label = some t) :
    Dkg.step library honest s label = some t ∧ encoding.WorldFits t := by
  cases label with
  | deliver i request =>
    simp only [step, Option.ite_none_right_eq_some] at hstep
    obtain ⟨⟨hsend, hsends⟩, hdeliver⟩ := hstep
    obtain ⟨node, hm⟩ : ∃ node, Moved library honest s i _ node t := moved_deliver hdeliver
    refine ⟨by simp only [Dkg.step, if_pos hsend, hdeliver], h.moved hm ?_ (by simp)⟩
    rintro _ ⟨⟩
    exact hsends
  | work i task =>
    simp only [step, Option.ite_none_right_eq_some, Option.some.injEq] at hstep
    obtain ⟨hmem, hstep⟩ := hstep
    rw [work_eq ((h i).tasks task hmem)] at hstep
    have hwork : s.workOn library honest i task = some t := by
      simp only [World.workOn, if_pos hmem, hstep]
    obtain ⟨-, node, hm⟩ := hv.moved_work hwork
    refine ⟨hwork, h.moved hm (by simp) ?_⟩
    rintro _ ⟨⟩
    exact hmem
  | restart i =>
    cases hstep
    obtain ⟨node, hm⟩ : ∃ node, Moved library honest s i _ node _ := moved_restart
    exact ⟨rfl, h.moved hm (by simp) (by simp)⟩

theorem exec_refines {labels : List Label} (hv : Views library honest s) (h : encoding.WorldFits s)
    (hrun : exec (encoding.step library honest) s labels = some t) :
    exec (Dkg.step library honest) s labels = some t := by
  induction labels generalizing s with
  | nil => exact hrun
  | cons label labels ih =>
    obtain ⟨u, hu, hrest⟩ := Option.bind_eq_some_iff.1 hrun
    obtain ⟨hstep, hfits⟩ := step_refines hv h hu
    exact Option.bind_eq_some_iff.2 ⟨u, hstep, ih (hv.step hstep) hfits hrest⟩

theorem WorldFits.initial : encoding.WorldFits World.initial :=
  fun _ => ⟨fun _ hr => absurd hr not_mem_nil, fun _ ht => absurd ht not_mem_nil⟩

/-! ## Agreement -/

/-- Participant `i` came to a result with these packages. -/
def Accepted (s : World) (i : Identifier) (sessionId : SessionId) (all : Packages)
    (g : PublicPackage) : Prop :=
  ∃ r ∈ (s.nodes i).sessions, r.sessionId = sessionId ∧ r.round1Packages = some all ∧
    r.publicPackage = some g

/-- What honest participants have in common. A participant has been in `verified` with a session if its
answer to `finalize` is out. -/
structure Agreement (honest : Identifier → Bool) (s : World) : Prop where
  verified : ∀ i, honest i = true → ∀ r ∈ (s.nodes i).sessions, r.phase = .verified →
    ∃ g, r.publicPackage = some g ∧ (i, .finalize r.sessionId g) ∈ s.answers
  accepted : ∀ i j, honest i = true → honest j = true → ∀ sessionId g g',
    (i, .finalize sessionId g) ∈ s.answers → (j, .finalize sessionId g') ∈ s.answers →
    g' = g ∧ ∃ all, Accepted s i sessionId all g ∧ Accepted s j sessionId all g ∧
      ∀ k, honest k = true → (k, .round1 sessionId (all k)) ∈ s.answers ∧
        ∀ package, (k, .round1 sessionId package) ∈ s.answers → package = all k
  /-- All evaluations that have left a participant in a session are for one set of packages. -/
  released : ∀ e ∈ s.genuine, ∀ e' ∈ s.genuine, honest e.sender = true → e'.sender = e.sender →
    e'.sessionId = e.sessionId → e'.transcript = e.transcript

theorem agreement_of_views (h : Views library honest s) : Agreement honest s where
  verified i hi r hr hphase := by
    have hrow := h.rows i r hr
    obtain ⟨g, hg⟩ := Option.isSome_iff_exists.1 (hrow.derived (by simp [Session.derived, hphase]))
    exact ⟨g, hg, hrow.reported g hg⟩
  accepted i j hi hj sessionId g g' hanswer hanswer' := by
    obtain ⟨r, hr, rfl, hg⟩ := h.answers _ hanswer
    obtain ⟨q, hq, hid, hg'⟩ := h.answers _ hanswer'
    obtain ⟨all, hall, hall', -, hpublic⟩ := h.agree hj hr hq hid.symm hg
    obtain ⟨all'', hall'', -, -, hpublic'⟩ := h.agree hi hq hr hid hg'
    obtain rfl : all'' = all := Option.some.inj (hall''.symm.trans hall')
    obtain rfl : g' = g := hpublic'.trans hpublic.symm
    exact ⟨rfl, all'', ⟨r, hr, rfl, hall, hg⟩, ⟨q, hq, hid, hall', hg'⟩,
      fun k hk => h.published hk hr hg hall⟩
  released e he e' he' _ hsender hid := h.sealed he he' hsender hid

/-- The participant, session and packages a step evaluates the participant's polynomial for. -/
def evaluated (library : Library) : Label → Option (Identifier × SessionId × Packages)
  | .work i (.round2 session packages) =>
    (round2Checks library i session packages).map fun all => (i, session.sessionId, all)
  | _ => none

/-- An evaluation that comes after envelopes of its session are out is dropped. -/
theorem stale_dropped (h : Views library honest s) {session : Session} {packages : Option Packages}
    (hmem : .round2 session packages ∈ (s.nodes i).tasks)
    (hchecks : round2Checks library i session packages = some all) {e : Envelope} (he : e ∈ s.genuine)
    (hsender : e.sender = i) (hid : e.sessionId = session.sessionId) :
    encoding.step library honest s (.work i (.round2 session packages)) =
      some (s.set i { s.nodes i with tasks := (s.nodes i).tasks.erase (.round2 session packages) }) := by
  have hpast := h.past he
  rw [hsender, hid] at hpast
  have hadvance : ∀ tasks transcript, ({ s.nodes i with tasks := tasks } : Node).advanceToRound2
      session.sessionId all transcript = none :=
    fun tasks transcript => if_neg (by rw [Bool.not_eq_true]; exact hpast)
  simp only [step, if_pos hmem, work, World.work, hchecks, set_nodes_self, hadvance]

/-- **Agreement within a session**, on bytes and against every coordinator. -/
theorem verified_agree (encoding : Encoding) (library : Library) (honest : Identifier → Bool)
    {labels : List Label} {s : World}
    (hrun : exec (encoding.step library honest) World.initial labels = some s) :
    Agreement honest s ∧
      ∀ i, honest i = true → ∀ session packages all,
        .round2 session packages ∈ (s.nodes i).tasks →
        evaluated library (.work i (.round2 session packages)) = some (i, session.sessionId, all) →
        (∃ e ∈ s.genuine, e.sender = i ∧ e.sessionId = session.sessionId) →
        encoding.step library honest s (.work i (.round2 session packages)) =
          some (s.set i { s.nodes i with
            tasks := (s.nodes i).tasks.erase (.round2 session packages) }) := by
  have hviews : Views library honest s := .run (exec_refines .initial .initial hrun)
  refine ⟨agreement_of_views hviews, ?_⟩
  rintro i hi session packages all hmem hevaluated ⟨e, he, hsender, hid⟩
  obtain ⟨all', hchecks, -⟩ := Option.map_eq_some_iff.1 hevaluated
  exact stale_dropped hviews hmem hchecks he hsender hid

section Runs

def unary : Package → Bytes
  | .fresh n => List.replicate (2 * n) 0
  | .made n => List.replicate (2 * n + 1) 0

theorem unary_injective : Function.Injective unary := by
  intro p q h
  have hlength := congrArg List.length h
  cases p <;> cases q <;> simp only [unary, length_replicate] at hlength
  · rw [Nat.eq_of_mul_eq_mul_left (by decide) hlength]
  · omega
  · omega
  · rw [Nat.eq_of_mul_eq_mul_left (by decide) (Nat.succ.inj hlength)]

def numbered (i : Identifier) : Bytes := List.replicate 32 (UInt8.ofNat i)

theorem length_numbered (i : Identifier) : (numbered i).length = 32 := length_replicate ..

/-- A hash that keeps its input, and packages written in unary. -/
def plain : Encoding where
  sha256 := id
  identifier := numbered
  package := unary
  transport := numbered
  ephemeral := fun _ => numbered 0
  sha256_inj := Function.injective_id
  package_inj := unary_injective
  identifier_length := length_numbered
  transport_length := length_numbered
  ephemeral_length := fun _ => length_numbered 0

/-- One ceremony that two participants have verified. -/
theorem verified_agree_ceremony :
    ∃ s, exec (plain.step sampleLibrary everyone) World.initial
        (ceremony "s1" firstPackages ++ installed "s1" firstPackages 0 ++
          installed "s1" firstPackages 1) = some s ∧
      (0, .finalize "s1" 0) ∈ s.answers ∧ (1, .finalize "s1" 0) ∈ s.answers ∧
      ∃ all, Accepted s 0 "s1" all 0 ∧ Accepted s 1 "s1" all 0 := by
  obtain ⟨s, hs, hfirst, hsecond⟩ : ∃ s, exec (plain.step sampleLibrary everyone) World.initial
      (ceremony "s1" firstPackages ++ installed "s1" firstPackages 0 ++
        installed "s1" firstPackages 1) = some s ∧
      (0, .finalize "s1" 0) ∈ s.answers ∧ (1, .finalize "s1" 0) ∈ s.answers :=
    Lib.exec_reaches (by decide +kernel)
  obtain ⟨-, all, haccepted, haccepted', -⟩ :=
    (verified_agree plain sampleLibrary everyone hs).1.accepted 0 1 rfl rfl "s1" 0 0 hfirst hsecond
  exact ⟨s, hs, hfirst, hsecond, all, haccepted, haccepted'⟩

/-- The packages of the roster with another in the place of participant 1's. -/
def shownOther : Packages := Function.update firstPackages 1 (.made 7)

/-- Both requests for round 2 find the session in round 1. -/
def twoViews : List Label :=
  roster.flatMap (fun i => asked "s1" i ++ [begun "s1" i]) ++
    [.deliver 0 (.round2 "s1" "user:1" (some firstPackages)),
      .deliver 0 (.round2 "s1" "user:1" (some shownOther)),
      .work 0 (.round2 (row "s1" firstPackages 0) (some firstPackages)),
      .work 0 (.round2 (row "s1" firstPackages 0) (some shownOther))]

/-- An honest participant evaluates its polynomial for two sets of packages; the second evaluation is
dropped. -/
theorem evaluated_twice :
    ∃ s, exec (plain.step sampleLibrary everyone) World.initial twoViews = some s ∧
      (∃ label ∈ twoViews, evaluated sampleLibrary label = some (0, "s1", firstPackages)) ∧
      (∃ label ∈ twoViews, evaluated sampleLibrary label = some (0, "s1", shownOther)) ∧
      firstPackages ≠ shownOther := by
  obtain ⟨s, hs, -⟩ : ∃ s, exec (plain.step sampleLibrary everyone) World.initial twoViews = some s ∧
      True := Lib.exec_reaches (by decide +kernel)
  exact ⟨s, hs, ⟨.work 0 (.round2 (row "s1" firstPackages 0) (some firstPackages)), by simp [twoViews],
    by decide +kernel⟩, ⟨.work 0 (.round2 (row "s1" firstPackages 0) (some shownOther)),
    by simp [twoViews], by decide +kernel⟩, by decide +kernel⟩

end Runs

end Encoding
end AtlasCex.Mpc.Dkg
