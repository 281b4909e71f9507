import AtlasCex.Mpc.DkgCoordinator
/-!
# A participant under an honest coordinator

`NodeInv` is what a participant's store says when all it ever receives was sent by the coordinator:
every row is where it is by requests that were sent, and a handler about to abort a session failed a
check on such a request. One session is sent one set of packages and one inbox for each participant
(`Consistent`), so a check that passed once does not fail later, and a row that has been verified is
not aborted by its own session.
-/
namespace AtlasCex.Mpc.Dkg

def Request.sessionId : Request → SessionId
  | .round1 sessionId _ _ _ | .round2 sessionId _ _ | .finalize sessionId _ _
  | .commit sessionId _ _ => sessionId

def Request.keyRef : Request → KeyRef
  | .round1 _ keyRef _ _ | .round2 _ keyRef _ | .finalize _ keyRef _ | .commit _ keyRef _ => keyRef

/-! ## Checks that do not change -/

/-- Round 3 as it comes out when every envelope is genuine. -/
def verifies (library : Library) (i : Identifier) (session : Session) (envelopes : List Envelope) :
    Option PublicPackage :=
  finalizeChecks library (fun _ => false) [] i session envelopes

theorem openAll_genuine {genuine : List Envelope} {transcript : Transcript} :
    ∀ {envelopes : List Envelope} {received : List (Identifier × ShareValue)},
      (∀ e ∈ envelopes, e ∈ genuine) →
      openAll everyone genuine i transcript received envelopes =
        openAll (fun _ => false) [] i transcript received envelopes
  | [], _, _ => rfl
  | e :: rest, received, h => by
    have hopens : opens everyone genuine i transcript e = opens (fun _ => false) [] i transcript e := by
      simp [opens, h e List.mem_cons_self]
    simp only [openAll, hopens]
    split
    · exact openAll_genuine fun e he => h e (List.mem_cons_of_mem _ he)
    · rfl

variable {session : Session} {envelopes : List Envelope}

theorem finalizeChecks_genuine {genuine : List Envelope} (h : ∀ e ∈ envelopes, e ∈ genuine) :
    finalizeChecks library everyone genuine i session envelopes =
      verifies library i session envelopes := by
  simp only [verifies, finalizeChecks, openAll_genuine h]

variable {r : Session}

/-- A row that kept what a handler read passes and fails with it. -/
theorem Session.Kept.verifies_eq (h : session.Kept r) (hall : session.round1Packages.isSome = true)
    (htranscript : session.transcript.isSome = true) (envelopes : List Envelope) :
    verifies library i r envelopes = verifies library i session envelopes := by
  obtain ⟨all, hall⟩ := Option.isSome_iff_exists.1 hall
  obtain ⟨transcript, htranscript⟩ := Option.isSome_iff_exists.1 htranscript
  simp only [verifies, finalizeChecks, hall, htranscript, h.round1Packages _ hall,
    h.transcript _ htranscript]

theorem Session.Kept.round2Checks_eq (h : session.Kept r) (packages : Option Packages) :
    round2Checks library i r packages = round2Checks library i session packages := by
  simp only [round2Checks, h.round1Package]

/-! ## A participant under an honest coordinator -/

section Participant

variable (library : Library) (sent : List (Identifier × Request)) (i : Identifier)

/-- Where a row is, and by which requests. -/
structure RowInv (r : Session) : Prop where
  asked : (i, .round1 r.sessionId r.keyRef 3 5) ∈ sent
  valid : validateSession r.sessionId r.keyRef = .ok ()
  packages : ∀ all, r.round1Packages = some all →
    (i, .round2 r.sessionId r.keyRef (some all)) ∈ sent ∧ round2Checks library i r (some all) = some all
  result : ∀ g, r.publicPackage = some g → ∃ envelopes,
    (i, .finalize r.sessionId r.keyRef envelopes) ∈ sent ∧ verifies library i r envelopes = some g

/-- By which request a handler runs. -/
def TaskInv (node : Node) : Task → Prop
  | .round1Session sessionId keyRef | .round1Begin sessionId keyRef =>
    (i, .round1 sessionId keyRef 3 5) ∈ sent ∧ validateSession sessionId keyRef = .ok ()
  | .round2 session packages =>
    (i, .round2 session.sessionId session.keyRef packages) ∈ sent
  | .finalize session envelopes =>
    (i, .finalize session.sessionId session.keyRef envelopes) ∈ sent ∧
      session.round1Packages.isSome = true ∧ session.transcript.isSome = true
  | .abort sessionId => ∃ session, session.sessionId = sessionId ∧ node.Has session ∧
      ((∃ packages, (i, .round2 sessionId session.keyRef packages) ∈ sent ∧
          round2Checks library i session packages = none) ∨
        session.round1Packages.isSome = true ∧ session.transcript.isSome = true ∧
        ∃ envelopes, (i, .finalize sessionId session.keyRef envelopes) ∈ sent ∧
          verifies library i session envelopes = none)
  | .commit sessionId publicPackage => ∃ keyRef, (i, .commit sessionId keyRef publicPackage) ∈ sent ∧
      ∃ r ∈ node.sessions, r.sessionId = sessionId ∧ r.keyRef = keyRef ∧
        r.publicPackage = some publicPackage

structure NodeInv (node : Node) : Prop where
  rows : ∀ r ∈ node.sessions, RowInv library sent i r
  tasks : ∀ task ∈ node.tasks, TaskInv library sent i node task
  /-- A share is there by a commit that was sent. -/
  shares : ∀ share ∈ node.shares, ∃ r ∈ node.sessions, r.sessionId = share.sessionId ∧
    r.phase = .committed ∧ (i, .commit share.sessionId share.keyRef share.publicPackage) ∈ sent

end Participant

variable {library : Library} {sent sent' : List (Identifier × Request)} {i : Identifier}
  {node node' : Node} {task : Task}

theorem RowInv.mono (h : RowInv library sent i r) (hsub : sent ⊆ sent') :
    RowInv library sent' i r where
  asked := hsub h.asked
  valid := h.valid
  packages all hall := (h.packages all hall).imp_left fun hmem => hsub hmem
  result g hg := by
    obtain ⟨envelopes, hsent, hok⟩ := h.result g hg
    exact ⟨envelopes, hsub hsent, hok⟩

theorem TaskInv.mono (h : TaskInv library sent i node task) (hsub : sent ⊆ sent')
    (hext : node.Grows node') : TaskInv library sent' i node' task := by
  cases task with
  | round1Session sessionId keyRef | round1Begin sessionId keyRef => exact ⟨hsub h.1, h.2⟩
  | round2 session packages => exact hsub h
  | finalize session envelopes => exact ⟨hsub h.1, h.2⟩
  | abort sessionId =>
    obtain ⟨session, hid, hhas, hcheck⟩ := h
    refine ⟨session, hid, hhas.mono hext, ?_⟩
    obtain ⟨packages, hsent, hnone⟩ | ⟨hall, htranscript, envelopes, hsent, hnone⟩ := hcheck
    · exact .inl ⟨packages, hsub hsent, hnone⟩
    · exact .inr ⟨hall, htranscript, envelopes, hsub hsent, hnone⟩
  | commit sessionId publicPackage =>
    obtain ⟨keyRef, hsent, r, hr, hid, hkey, hpublic⟩ := h
    obtain ⟨r', hr', hext⟩ := hext r hr
    exact ⟨keyRef, hsub hsent, r', hr', hext.sessionId.trans hid, hext.keyRef.trans hkey,
      hext.publicPackage _ hpublic⟩

theorem NodeInv.mono (h : NodeInv library sent i node) (hsub : sent ⊆ sent') :
    NodeInv library sent' i node where
  rows r hr := (h.rows r hr).mono hsub
  tasks task htask := (h.tasks task htask).mono hsub fun r hr => ⟨r, hr, .refl r⟩
  shares share hshare := by
    obtain ⟨r, hr, hid, hphase, hsent⟩ := h.shares share hshare
    exact ⟨r, hr, hid, hphase, hsub hsent⟩

/-! ### One step -/

/-- The coordinator sends what is genuine, and a participant moves by what was sent to it. -/
structure Sent (library : Library) (sent : List (Identifier × Request)) (w : World) (i : Identifier)
    (cause : Cause) : Prop where
  genuine : ∀ i sessionId keyRef envelopes, (i, Request.finalize sessionId keyRef envelopes) ∈ sent →
    ∀ e ∈ envelopes, e ∈ w.genuine
  request : ∀ request, cause = .request request → (i, request) ∈ sent
  task : ∀ task, cause = .task task → task ∈ (w.nodes i).tasks

variable {w w' : World} {cause : Cause} {r' : Session}

theorem RowInv.changed (h : RowInv library sent i r) (hn : NodeInv library sent i (w.nodes i))
    (hrow : RowSeen library everyone w i r) (hsent : Sent library sent w i cause)
    (hchanged : r.Changed library everyone w w' i cause r') : RowInv library sent i r' := by
  cases hchanged with
  | same | superseded | aborted | committed => exact ⟨h.asked, h.valid, h.packages, h.result⟩
  | round2 hkept hphase hchecks =>
    obtain rfl := (Option.filter_eq_some_iff.1 hchecks).1
    have htask := hn.tasks _ (hsent.task _ rfl)
    refine ⟨h.asked, h.valid, ?_, by simp [hrow.early (.inl hphase)]⟩
    rintro _ ⟨⟩
    refine ⟨?_, (hkept.round2Checks_eq _).trans hchecks⟩
    rw [TaskInv, ← hkept.sessionId, ← hkept.keyRef] at htask
    exact htask
  | verified hkept hphase hchecks hanswer =>
    obtain ⟨htask, hall, htranscript⟩ := hn.tasks _ (hsent.task _ rfl)
    rw [finalizeChecks_genuine (hsent.genuine _ _ _ _ htask)] at hchecks
    refine ⟨h.asked, h.valid, h.packages, ?_⟩
    rintro _ ⟨⟩
    rw [← hkept.sessionId, ← hkept.keyRef] at htask
    exact ⟨_, htask, (hkept.verifies_eq hall htranscript _).trans hchecks⟩

theorem NodeInv.spawned (h : NodeInv library sent i (w.nodes i)) (hv : Views library everyone w)
    (hsent : Sent library sent w i cause) (hspawned : Spawned library everyone w i cause task) :
    TaskInv library sent i (w.nodes i) task := by
  cases hspawned with
  | received hreceived =>
    have hrequest := hsent.request _ rfl
    cases hreceived with
    | round1 hvalid => exact ⟨hrequest, hvalid⟩
    | round2 hmem => exact hrequest
    | finalize hmem hphase =>
      have hrow := hv.rows i _ hmem
      obtain ⟨all, hall⟩ := Option.isSome_iff_exists.1 (hrow.round2 hphase)
      exact ⟨hrequest, by rw [hall]; rfl, by rw [(hrow.packages all hall).2]; rfl⟩
    | commit hmem hpublic => exact ⟨_, hrequest, _, hmem, rfl, rfl, hpublic⟩
  | begins =>
    have htask := h.tasks _ (hsent.task _ rfl)
    exact ⟨htask.1, htask.2⟩
  | round2 hchecks =>
    have htask := hsent.task _ rfl
    exact ⟨_, rfl, hv.tasks i _ htask, .inl ⟨_, h.tasks _ htask, hchecks⟩⟩
  | finalize hchecks =>
    have htask := hsent.task _ rfl
    obtain ⟨hfinalize, hall, htranscript⟩ := h.tasks _ htask
    rw [finalizeChecks_genuine (hsent.genuine _ _ _ _ hfinalize)] at hchecks
    exact ⟨_, rfl, hv.tasks i _ htask, .inr ⟨hall, htranscript, _, hfinalize, hchecks⟩⟩

theorem NodeInv.moved (h : NodeInv library sent i (w.nodes i)) (hv : Views library everyone w)
    (hsent : Sent library sent w i cause) (hm : Moved library everyone w i cause node w') :
    NodeInv library sent i node := by
  constructor
  case rows =>
    intro r hr
    obtain ⟨q, hq, hchanged⟩ | ⟨g, hbegun⟩ := hm.row hr
    · exact (h.rows q hq).changed h (hv.rows i q hq) hsent hchanged
    · obtain ⟨hasked, hvalid⟩ := h.tasks _ (hsent.task _ hbegun.cause)
      rw [hbegun.row]
      exact ⟨hasked, hvalid, nofun, nofun⟩
  case tasks =>
    intro task htask
    obtain hold | hnew := hm.tasks task htask
    · exact (h.tasks task hold).mono (List.Subset.refl _) (hm.grows hv)
    · exact (h.spawned hv hsent hnew).mono (List.Subset.refl _) (hm.grows hv)
  case shares =>
    intro share hshare
    obtain hold | ⟨r, hr, ⟨g, hcause⟩, hpublic, hid, hkey, hmem⟩ := hm.shares share hshare
    · obtain ⟨r, hr, hid, hphase, hcommit⟩ := h.shares share hold
      exact ⟨r, hm.committed_mem hr hphase, hid, hphase, hcommit⟩
    · obtain ⟨keyRef, hcommit, q, hq, hqid, rfl, hqpublic⟩ := h.tasks _ (hsent.task _ hcause)
      obtain rfl : q = r := hv.unique hq hr hqid
      obtain rfl : g = share.publicPackage := Option.some.inj (hqpublic.symm.trans hpublic)
      rw [hid, hkey]
      exact ⟨_, hmem, rfl, rfl, hcommit⟩

/-- One set of packages a session, one inbox for each participant. -/
structure Consistent (sent : List (Identifier × Request)) : Prop where
  round2 : ∀ i j sessionId keyRef keyRef' packages packages',
    (i, .round2 sessionId keyRef packages) ∈ sent → (j, .round2 sessionId keyRef' packages') ∈ sent →
    packages = packages'
  finalize : ∀ i sessionId keyRef keyRef' envelopes envelopes',
    (i, .finalize sessionId keyRef envelopes) ∈ sent →
    (i, .finalize sessionId keyRef' envelopes') ∈ sent → envelopes = envelopes'

/-- A session with a result has no handler about to abort it. -/
theorem NodeInv.not_abort (h : NodeInv library sent i (w.nodes i)) (hv : Views library everyone w)
    (hsent : Consistent sent) (hr : r ∈ (w.nodes i).sessions)
    (hpublic : r.publicPackage.isSome = true) :
    ¬TaskInv library sent i (w.nodes i) (.abort r.sessionId) := by
  rintro ⟨session, hid, hhas, hcheck⟩
  have hkept := hv.kept hhas hr hid.symm
  obtain ⟨g, hg⟩ := Option.isSome_iff_exists.1 hpublic
  obtain ⟨envelopes, henvelopes, hverifies⟩ := (h.rows r hr).result g hg
  obtain ⟨packages, hpackages, hnone⟩ | ⟨hall, htranscript, envelopes', henvelopes', hnone⟩ := hcheck
  · obtain ⟨all, -, hall, -⟩ := finalizeChecks_some hverifies
    obtain ⟨hround2, hok⟩ := (h.rows r hr).packages all hall
    obtain rfl := hsent.round2 _ _ _ _ _ _ _ hround2 hpackages
    rw [hkept.round2Checks_eq, hnone] at hok
    cases hok
  · obtain rfl := hsent.finalize _ _ _ _ _ _ henvelopes henvelopes'
    rw [hkept.verifies_eq hall htranscript, hnone] at hverifies
    cases hverifies

end AtlasCex.Mpc.Dkg
