import AtlasCex.Mpc.DkgOrderly
/-!
# A session recorded as committing can be finished

A row that has been verified is not aborted by its own session (`NodeInv.not_abort`). What is left is
another session of the key that begins: `BeginsLatest`.
-/
namespace AtlasCex.Mpc.Dkg

open Lib (exec Along exec_inv)

variable {library : Library} {i : Identifier}

structure Inv (library : Library) (s : System) : Prop where
  coordinator : Orderly library s.world.answers s.world.genuine s.coordinator
  views : Views library everyone s.world
  nodes : ∀ i, NodeInv library s.coordinator.sent i (s.world.nodes i)
  /-- A session with a result that is the last of its key is verified or committed. -/
  live : ∀ i, ∀ r ∈ (s.world.nodes i).sessions, r.publicPackage.isSome = true →
    s.coordinator.latest r.keyRef = some r.sessionId → r.derived = true

variable {s t : System} {w : World} {node : Node} {task : Task} {a : Answer}
  {sessionId : SessionId} {keyRef : KeyRef}

/-! ## Participants -/

/-- A participant begins a session only while it is the last the coordinator created for its key. -/
def BeginsLatest (s : System) : System.Label → Prop
  | .work _ (.round1Begin sessionId keyRef) => s.coordinator.latest keyRef = some sessionId
  | _ => True

instance (s : System) : DecidablePred (BeginsLatest s)
  | .work _ (.round1Begin _ _) => inferInstanceAs (Decidable (_ = _))
  | .work _ (.round1Session _ _) | .work _ (.round2 _ _) | .work _ (.finalize _ _)
  | .work _ (.abort _) | .work _ (.commit _ _) | .start .. | .hear .. | .complete _ | .fail _
  | .drop _ | .crash | .deliver .. | .restart _ => isTrue trivial

/-- What makes a participant move: something that was sent to it, and no session that is not the last. -/
structure Inv.Allows (s : System) (i : Identifier) (cause : Cause) : Prop where
  request : ∀ request, cause = .request request → (i, request) ∈ s.coordinator.sent
  task : ∀ task, cause = .task task → task ∈ (s.world.nodes i).tasks
  latest : ∀ sessionId keyRef, cause = .task (.round1Begin sessionId keyRef) →
    s.coordinator.latest keyRef = some sessionId

variable {cause : Cause}

/-- A begin supersedes the other sessions of its key, and none of them is the last. -/
theorem Inv.live_changed {r r' : Session} (h : Inv library s) (hok : Inv.Allows s i cause)
    (hr : r ∈ (s.world.nodes i).sessions)
    (hchanged : r.Changed library everyone s.world w i cause r')
    (hpublic : r'.publicPackage.isSome = true)
    (hlatest : s.coordinator.latest r'.keyRef = some r'.sessionId) : r'.derived = true := by
  cases hchanged with
  | same => exact h.live i r hr hpublic hlatest
  | superseded hne =>
    rw [hok.latest _ _ rfl] at hlatest
    exact absurd (Option.some.inj hlatest).symm hne
  | round2 _ hphase =>
    simp only [(h.views.rows i r hr).early (.inl hphase)] at hpublic
    cases hpublic
  | verified | committed => simp [Session.derived]
  | aborted =>
    have htask := (h.nodes i).tasks _ (hok.task _ rfl)
    exact absurd htask ((h.nodes i).not_abort h.views h.coordinator.consistent hr hpublic)

theorem Inv.moved (h : Inv library s) (hm : Moved library everyone s.world i cause node w)
    (hok : Inv.Allows s i cause) : Inv library { s with world := w } where
  coordinator := h.coordinator.mono hm.answers hm.genuine
  views := h.views.moved hm
  nodes := by
    show ∀ j, NodeInv library _ j (w.nodes j)
    rw [hm.nodes]
    refine (Function.forall_update_iff s.world.nodes fun j (n : Node) =>
      NodeInv library s.coordinator.sent j n).2 ⟨?_, fun j _ => h.nodes j⟩
    exact (h.nodes i).moved h.views ⟨fun _ _ _ _ => h.coordinator.sealed, hok.request, hok.task⟩ hm
  live := by
    show ∀ j, ∀ r ∈ (w.nodes j).sessions, _
    rw [hm.nodes]
    refine (Function.forall_update_iff s.world.nodes fun j (n : Node) => ∀ r ∈ n.sessions,
      r.publicPackage.isSome = true → s.coordinator.latest r.keyRef = some r.sessionId →
        r.derived = true).2 ⟨fun r hr hpublic => ?_, fun j _ => h.live j⟩
    obtain ⟨q, hq, hchanged⟩ | ⟨g, hbegun⟩ := hm.row hr
    · exact h.live_changed hok hq hchanged hpublic
    · rw [hbegun.row] at hpublic
      cases hpublic

/-! ## The coordinator -/

variable {c' : Coordinator}

/-- A step of the coordinator. A new session has an id no participant has heard of. -/
theorem Inv.coordinate (h : Inv library s)
    (hc : Orderly library s.world.answers s.world.genuine c' ∧ s.coordinator.Extends c') :
    Inv library { s with coordinator := c' } ∧ s.coordinator.Extends c' := by
  obtain ⟨horderly, hext⟩ := hc
  refine ⟨⟨horderly, h.views, fun i => (h.nodes i).mono hext.sent, ?_⟩, hext⟩
  intro i r hr hpublic hlatest
  obtain hsame | ⟨sessionId, hnew, hunknown⟩ := hext.latest r.keyRef
  · exact h.live i r hr hpublic (hsame.symm.trans hlatest)
  · obtain ⟨row, hrow, hid, -⟩ := h.coordinator.known _ ((h.nodes i).rows r hr).asked
    obtain rfl := Option.some.inj (hlatest.symm.trans hnew)
    exact absurd hid (hunknown row hrow)

/-! ## Runs -/

theorem Inv.initial : Inv library System.initial where
  coordinator := {
    ids := List.nodup_nil
    locks := List.nodup_nil
    runs := nofun
    known := nofun
    planned := ⟨fun _ => (fun _ => .made 0, []), nofun, nofun⟩
    recorded := nofun
    finalized := nofun }
  views := .initial
  nodes _ := ⟨nofun, nofun, nofun⟩
  live := nofun

theorem Inv.routed (h : Inv library s) : Routed s.world.answers s.world.genuine :=
  fun _ _ _ _ hanswer => h.views.answers _ hanswer

theorem Inv.step {label : System.Label} (h : Inv library s) (hok : BeginsLatest s label)
    (hstep : s.step library label = some t) :
    Inv library t ∧ s.coordinator.Extends t.coordinator := by
  have hself : s.coordinator.Extends s.coordinator := .of_rows rfl (List.Subset.refl _)
  cases label with
  | start keyRef idempotencyKey sessionId =>
    obtain ⟨c', hstart, rfl⟩ := Option.map_eq_some_iff.1 hstep
    exact h.coordinate (h.coordinator.start hstart)
  | hear run i answer =>
    simp only [System.step, Option.ite_none_right_eq_some, Option.map_eq_some_iff] at hstep
    obtain ⟨⟨hrun, hanswer⟩, c', hhear, rfl⟩ := hstep
    exact h.coordinate (h.coordinator.hear h.routed hrun hanswer hhear)
  | complete run =>
    simp only [System.step, Option.ite_none_right_eq_some, Option.map_eq_some_iff] at hstep
    obtain ⟨hrun, c', hcomplete, rfl⟩ := hstep
    exact h.coordinate (h.coordinator.complete hrun hcomplete)
  | fail run =>
    obtain ⟨hrun, ⟨⟩⟩ := Option.ite_none_right_eq_some.1 hstep
    exact h.coordinate (h.coordinator.fail hrun)
  | drop run =>
    cases hstep
    exact h.coordinate ⟨h.coordinator.ends run, .of_rows rfl (List.Subset.refl _)⟩
  | crash =>
    cases hstep
    exact h.coordinate ⟨h.coordinator.fewer (List.nil_sublist _), .of_rows rfl (List.Subset.refl _)⟩
  | deliver i request =>
    simp only [System.step, Option.ite_none_right_eq_some, Option.map_eq_some_iff] at hstep
    obtain ⟨hsent, w, hdeliver, rfl⟩ := hstep
    obtain ⟨node, hm⟩ := moved_deliver hdeliver
    refine ⟨h.moved hm ⟨?_, nofun, nofun⟩, hself⟩
    rintro _ ⟨⟩
    exact hsent
  | work i task =>
    obtain ⟨w, hwork, rfl⟩ := Option.map_eq_some_iff.1 hstep
    obtain ⟨hmem, node, hm⟩ := h.views.moved_work hwork
    refine ⟨h.moved hm ⟨nofun, ?_, ?_⟩, hself⟩
    · rintro _ ⟨⟩
      exact hmem
    · rintro sessionId keyRef ⟨⟩
      exact hok
  | restart i =>
    cases hstep
    obtain ⟨node, hm⟩ := moved_restart
    exact ⟨h.moved hm ⟨nofun, nofun, nofun⟩, hself⟩

/-- A session recorded with a result. -/
def RecordedAs (s : System) (sessionId : SessionId) (keyRef : KeyRef) (g : PublicPackage) : Prop :=
  ∃ row ∈ s.coordinator.rows, row.sessionId = sessionId ∧ row.keyRef = keyRef ∧
    row.recorded = true ∧ row.publicPackage = some g

theorem RecordedAs.mono {g : PublicPackage}
    (h : RecordedAs s sessionId keyRef g) (hext : s.coordinator.Extends t.coordinator) :
    RecordedAs t sessionId keyRef g := by
  obtain ⟨row, hrow, hid, hkey, hrec, hg⟩ := h
  obtain ⟨row', hrow', hid', hkey', hrec', hg'⟩ := hext.recorded row hrow hrec
  exact ⟨row', hrow', hid'.trans hid, hkey'.trans hkey, hrec', hg'.trans hg⟩

section Recorded

variable {sessionId : SessionId} {keyRef : KeyRef} {g : PublicPackage}

/-- Everyone has the result, in a session that is verified or committed. -/
theorem Inv.recorded_row (h : Inv library s) (hrec : RecordedAs s sessionId keyRef g)
    (i : Identifier) : ∃ r ∈ (s.world.nodes i).sessions, r.sessionId = sessionId ∧
      r.keyRef = keyRef ∧ r.publicPackage = some g ∧ r.derived = true := by
  obtain ⟨row, hrow, rfl, rfl, hrec, hg⟩ := hrec
  obtain ⟨hlatest, g', hg', hheard⟩ := h.coordinator.recorded row hrow hrec
  obtain rfl := Option.some.inj (hg.symm.trans hg')
  obtain ⟨r, hr, hid, hpublic⟩ := h.views.answers _ (hheard i)
  obtain ⟨row', hrow', hid', hkey', -⟩ := h.coordinator.known _ ((h.nodes i).rows r hr).asked
  obtain rfl := h.coordinator.row_unique hrow hrow' (hid.symm.trans hid'.symm)
  have hkey : r.keyRef = row.keyRef := hkey'.symm
  refine ⟨r, hr, hid, hkey, hpublic, h.live i r hr (by rw [hpublic]; rfl) ?_⟩
  rw [hkey, hid, hlatest]

variable {r : Session}

/-- The only share of the key there can be is of this session. -/
theorem Inv.share_committed (h : Inv library s) (hrec : RecordedAs s sessionId keyRef g)
    {i : Identifier} (hr : r ∈ (s.world.nodes i).sessions) (hid : r.sessionId = sessionId)
    (hshare : ((s.world.nodes i).loadShare keyRef).isSome = true) : r.phase = .committed := by
  simp only [Node.loadShare, List.find?_isSome, decide_eq_true_eq] at hshare
  obtain ⟨share, hmem, hkey⟩ := hshare
  obtain ⟨q, hq, hqid, hphase, hsent⟩ := (h.nodes i).shares share hmem
  obtain ⟨row', hrow', hid', hkey', hrec'⟩ := h.coordinator.known _ hsent
  obtain ⟨row, hrow, hrowid, hrowkey, hrec, -⟩ := hrec
  -- both are the last session of the key
  have hlast := (h.coordinator.recorded row hrow hrec).1
  have hlast' := (h.coordinator.recorded row' hrow' (hrec' rfl)).1
  rw [hrowkey, hrowid] at hlast
  simp only [hkey', hid', Request.keyRef, Request.sessionId, hkey, hlast] at hlast'
  obtain rfl := h.views.unique hr hq (hid.trans ((Option.some.inj hlast').trans hqid.symm))
  exact hphase

theorem Views.loadSession (h : Views library everyone w) (hr : r ∈ (w.nodes i).sessions) :
    (w.nodes i).loadSession r.sessionId = some r := by
  have hsome : ((w.nodes i).loadSession r.sessionId).isSome = true := by
    simp only [Node.loadSession, List.find?_isSome, decide_eq_true_eq]
    exact ⟨r, hr, rfl⟩
  obtain ⟨q, hq⟩ := Option.isSome_iff_exists.1 hsome
  obtain ⟨hmem, hid⟩ := mem_of_loadSession hq
  rw [hq, h.unique hmem hr hid]

theorem commitSession_goes {node : Node} (hload : node.loadSession sessionId = some r)
    (hpublic : r.publicPackage = some g) (hderived : r.derived = true)
    (hshare : (node.loadShare r.keyRef).isSome = true → r.phase = .committed) :
    (∃ node', node.commitSession sessionId = .committed node') ∨
      node.commitSession sessionId = .alreadyCommitted := by
  simp only [Session.derived, decide_eq_true_eq] at hderived
  obtain hphase | hphase := hderived
  · have hnone : ¬(node.loadShare r.keyRef).isSome = true := fun hsome => by
      rw [hshare hsome] at hphase
      cases hphase
    simp only [Node.commitSession, hload, hphase, hpublic, if_neg hnone]
    exact .inl ⟨_, rfl⟩
  · exact .inr (by simp only [Node.commitSession, hload, hphase])

/-- A participant that a resumed commit finds verified or committed, and that answers it with the same
group key. -/
structure Ready (library : Library) (s : System) (sessionId : SessionId) (keyRef : KeyRef)
    (g : PublicPackage) (i : Identifier) : Prop where
  row : ∃ r ∈ (s.world.nodes i).sessions, r.sessionId = sessionId ∧
    (r.phase = .verified ∨ r.phase = .committed) ∧ r.publicPackage = some g
  answers : ∃ w w' task, s.world.deliver i (.commit sessionId keyRef g) = some w ∧
    w.workOn library everyone i task = some w' ∧ (i, .commit sessionId g) ∈ w'.answers

theorem Inv.ready (h : Inv library s) (hrec : RecordedAs s sessionId keyRef g) (i : Identifier) :
    Ready library s sessionId keyRef g i := by
  obtain ⟨r, hr, rfl, rfl, hpublic, hderived⟩ := h.recorded_row hrec i
  have hload := h.views.loadSession hr
  have hreceive : (s.world.nodes i).receive (.commit r.sessionId r.keyRef g) =
      .ok (.commit r.sessionId g) := by
    simp only [Node.receive, Lib.bind_eq_ok, Lib.require_eq_ok, Lib.refuse_eq_ok, Lib.pure_eq_ok,
      not_not]
    exact ⟨(), ((h.nodes i).rows r hr).valid, r, hload, (), rfl, g, hpublic, (), rfl, rfl⟩
  refine ⟨⟨r, hr, rfl, by simpa [Session.derived] using hderived, hpublic⟩, ?_⟩
  have hdeliver : s.world.deliver i (.commit r.sessionId r.keyRef g) =
      some (s.world.set i ((s.world.nodes i).spawn (.commit r.sessionId g))) := by
    simp only [World.deliver, hreceive]
  refine ⟨_, _, .commit r.sessionId g, hdeliver, if_pos (by simp [Node.spawn]), ?_⟩
  simp only [set_nodes_self, Node.spawn, List.erase_cons_head, World.work]
  obtain ⟨node', hcommit⟩ | hcommit := commitSession_goes hload hpublic hderived
    (h.share_committed hrec hr rfl)
  · simp [hcommit, World.answer]
  · simp [hcommit, World.answer]

/-- A call for the key resumes the session. -/
theorem Inv.resumes (h : Inv library s) {row : CoordinatorSession} (hrow : row ∈ s.coordinator.rows)
    (hphase : row.phase = .committing) (hg : row.publicPackage = some g) :
    s.coordinator.resumable row.keyRef = some (row.sessionId, g) := by
  have hmem : row ∈ s.coordinator.rows.filter fun other =>
      other.keyRef = row.keyRef ∧ other.phase = .committing := by simp [hrow, hphase]
  obtain ⟨last, hlast⟩ := Option.isSome_iff_exists.1
    (List.getLast?_isSome.2 (List.ne_nil_of_mem hmem))
  obtain ⟨hlastmem, hcond⟩ := List.mem_filter.1 (List.mem_of_getLast? hlast)
  simp only [decide_eq_true_eq] at hcond
  have hrecorded := (h.coordinator.recorded row hrow (by simp [CoordinatorSession.recorded, hphase])).1
  have hrecorded' :=
    (h.coordinator.recorded last hlastmem (by simp [CoordinatorSession.recorded, hcond.2])).1
  rw [hcond.1, hrecorded] at hrecorded'
  obtain rfl := h.coordinator.row_unique hrow hlastmem (Option.some.inj hrecorded')
  simp only [Coordinator.resumable, hlast, Option.bind_some, hg, Option.map_some]

end Recorded

theorem committing_stays_ready (library : Library) {pre post : List System.Label} {t u : System}
    (hpre : exec (System.step library) System.initial pre = some t)
    (hpost : exec (System.step library) t post = some u)
    (hok : Along (System.step library) BeginsLatest System.initial (pre ++ post))
    {row : CoordinatorSession} (hrow : row ∈ t.coordinator.rows) (hphase : row.phase = .committing) :
    ∃ g, row.publicPackage = some g ∧
      (∃ row' ∈ u.coordinator.rows, row'.sessionId = row.sessionId ∧ row'.publicPackage = some g ∧
        (row'.phase = .finalized ∨ row'.phase = .committing ∧
          u.coordinator.resumable row.keyRef = some (row.sessionId, g))) ∧
      ∀ i, Ready library u row.sessionId row.keyRef g i := by
  have ht : Inv library t := exec_inv Inv.initial (fun _ _ _ h hok hstep => (h.step hok hstep).1)
    hok.of_append hpre
  have hrecorded : row.recorded = true := by simp [CoordinatorSession.recorded, hphase]
  obtain ⟨-, g, hg, -⟩ := ht.coordinator.recorded row hrow hrecorded
  have hkept : Inv library u ∧ RecordedAs u row.sessionId row.keyRef g := by
    refine exec_inv (I := fun s => Inv library s ∧ RecordedAs s row.sessionId row.keyRef g)
      ⟨ht, row, hrow, rfl, rfl, hrecorded, hg⟩ ?_ (hok.of_exec hpre) hpost
    rintro s label s' ⟨hs, hrec⟩ hlabel hstep
    obtain ⟨hs', hext⟩ := hs.step hlabel hstep
    exact ⟨hs', hrec.mono hext⟩
  obtain ⟨hu, hrec⟩ := hkept
  refine ⟨g, hg, ?_, hu.ready hrec⟩
  obtain ⟨row', hrow', hid, hkey, hrec', hg'⟩ := hrec
  simp only [CoordinatorSession.recorded, decide_eq_true_eq] at hrec'
  refine ⟨row', hrow', hid, hg', hrec'.symm.imp id fun hcommitting => ⟨hcommitting, ?_⟩⟩
  rw [← hid, ← hkey]
  exact hu.resumes hrow' hcommitting hg'

/-! ### A ceremony -/

/-- As the coordinator puts them together. -/
def ceremonyPackages : Packages :=
  Coordinator.allOf [.fresh 0, .fresh 1, .fresh 2, .fresh 3, .fresh 4]

def sampleRun (sessionId : SessionId) (stage : Stage) : Run := ⟨sessionId, "user:1", stage⟩

/-- The envelopes of the first `n` participants. -/
def sealedBy (transcript : Transcript) (n : Nat) : List Envelope :=
  (roster.take n).flatMap fun i => sealShares sampleLibrary i transcript (transcript.packages i)

/-- One ceremony with `ceremonyPackages`, to the record that everyone has verified. -/
def verifiedBy (sessionId : SessionId) : List System.Label :=
  let transcript : Transcript := ⟨sessionId, "user:1", ceremonyPackages⟩
  let inbox := sealedBy transcript 5
  roster.flatMap (fun i =>
    [.deliver i (.round1 sessionId "user:1" 3 5), .work i (.round1Session sessionId "user:1"),
      .work i (.round1Begin sessionId "user:1"),
      .hear (sampleRun sessionId (.round1 ((roster.take i).map ceremonyPackages))) i
        (.round1 sessionId (ceremonyPackages i))]) ++
  roster.flatMap (fun i =>
    [.deliver i (.round2 sessionId "user:1" (some ceremonyPackages)),
      .work i (.round2 (row sessionId ceremonyPackages i) (some ceremonyPackages)),
      .hear (sampleRun sessionId (.round2 ceremonyPackages (if i = 0 then none else some transcript)
          (sealedBy transcript i) i)) i
        (.round2 sessionId transcript (sealShares sampleLibrary i transcript (ceremonyPackages i)))]) ++
  roster.flatMap fun i =>
    [.deliver i (.finalize sessionId "user:1" (Coordinator.inboxOf inbox i)),
      .work i (.finalize { row sessionId ceremonyPackages i with
        phase := .round2, round1Packages := some ceremonyPackages, transcript := some transcript }
        (Coordinator.inboxOf inbox i)),
      .hear (sampleRun sessionId (.finalize ceremonyPackages inbox i)) i (.finalize sessionId 0)]

/-- The first session is given up before its first request arrives. -/
def secondCommitting : List System.Label :=
  [.start "user:1" "first" "s1", .fail (sampleRun "s1" (.round1 [])), .start "user:1" "second" "s2"] ++
    verifiedBy "s2"

/-- The request arrives after the second session is recorded as committing. -/
def lateRequest : List System.Label :=
  [.deliver 0 (.round1 "s1" "user:1" 3 5), .work 0 (.round1Session "s1" "user:1"),
    .work 0 (.round1Begin "s1" "user:1")]

theorem committing_aborted :
    ∃ t, exec (System.step sampleLibrary) System.initial secondCommitting = some t ∧
      (∃ row ∈ t.coordinator.rows, row.sessionId = "s2" ∧ row.phase = .committing) ∧
      ∃ u, exec (System.step sampleLibrary) t lateRequest = some u ∧
        ∃ r ∈ (u.world.nodes 0).sessions, r.sessionId = "s2" ∧ r.phase = .aborted := by
  have hlong : ∃ u, exec (System.step sampleLibrary) System.initial (secondCommitting ++ lateRequest) =
      some u ∧ ∃ r ∈ (u.world.nodes 0).sessions, r.sessionId = "s2" ∧ r.phase = .aborted :=
    Lib.exec_reaches (by decide +kernel)
  obtain ⟨t, ht, hrow⟩ : ∃ t, exec (System.step sampleLibrary) System.initial secondCommitting = some t ∧
      ∃ row ∈ t.coordinator.rows, row.sessionId = "s2" ∧ row.phase = .committing :=
    Lib.exec_reaches (by decide +kernel)
  obtain ⟨u, hu, haborted⟩ := hlong
  rw [Lib.exec_append, ht] at hu
  exact ⟨t, ht, hrow, u, hu, haborted⟩

/-- The coordinator dies, a participant restarts, and the commit has reached one participant. -/
def interrupted : List System.Label :=
  [.crash, .restart 1, .deliver 0 (.commit "s2" "user:1" 0), .work 0 (.commit "s2" 0)]

theorem committing_stays_ready_interrupted :
    ∃ u, exec (System.step sampleLibrary) System.initial (secondCommitting ++ interrupted) = some u ∧
      u.coordinator.resumable "user:1" = some ("s2", 0) ∧
      ∀ i, Ready sampleLibrary u "s2" "user:1" 0 i := by
  obtain ⟨t, ht, hmem⟩ : ∃ t, exec (System.step sampleLibrary) System.initial secondCommitting = some t ∧
      (⟨"s2", "user:1", "second", .committing, some 0⟩ : CoordinatorSession) ∈ t.coordinator.rows :=
    Lib.exec_reaches (by decide +kernel)
  obtain ⟨u, hu, hresume⟩ : ∃ u, exec (System.step sampleLibrary) System.initial
      (secondCommitting ++ interrupted) = some u ∧
      u.coordinator.resumable "user:1" = some ("s2", 0) := Lib.exec_reaches (by decide +kernel)
  have hpost := hu
  rw [Lib.exec_append, ht] at hpost
  obtain ⟨g, hg, -, hready⟩ :=
    committing_stays_ready sampleLibrary ht hpost (by decide +kernel) hmem rfl
  cases hg
  exact ⟨u, hu, hresume, hready⟩

end AtlasCex.Mpc.Dkg
