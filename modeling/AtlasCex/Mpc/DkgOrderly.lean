import AtlasCex.Mpc.DkgStored
/-!
# What the coordinator has sent

`Orderly`: a run is of the last session of its key, it has sent nothing beyond its stage, and a session
is recorded as committing when each participant has answered with the result.
-/
namespace AtlasCex.Mpc.Dkg
open List

variable {library : Library} {sent sent' : List (Identifier × Request)} {i : Identifier}

def Request.level : Request → Nat
  | .round1 .. => 0
  | .round2 .. => 1
  | .finalize .. => 2
  | .commit .. => 3

def Stage.level : Stage → Nat
  | .round1 .. => 0
  | .round2 .. => 1
  | .finalize .. => 2
  | .commit .. | .store .. | .finish => 3

/-- Verified by everyone, as far as the coordinator wrote down. -/
def CoordinatorSession.recorded (row : CoordinatorSession) : Bool :=
  row.phase = .committing ∨ row.phase = .finalized

theorem Request.level_le (request : Request) : request.level ≤ 3 := by
  cases request <;> simp [Request.level]

theorem Stage.level_le (stage : Stage) : stage.level ≤ 3 := by
  cases stage <;> simp [Stage.level]

section Coordinator

variable (library : Library) (answers : List (Identifier × Answer)) (genuine : List Envelope)
  (c : Coordinator)

/-- The row of a run in a stage. -/
def StageRow (keyRef : KeyRef) (row : CoordinatorSession) : Stage → Prop
  | .round1 .. | .round2 .. | .finalize .. => row.phase = .round1
  | .commit publicPackage _ | .store publicPackage =>
    row.phase = .committing ∧ row.publicPackage = some publicPackage
  | .finish => row.phase = .committing ∧ c.groupKeys.any (·.1 = keyRef) = true

structure RunInv (run : Run) : Prop where
  latest : c.latest run.keyRef = some run.sessionId
  row : ∃ row ∈ c.rows, row.sessionId = run.sessionId ∧ row.keyRef = run.keyRef ∧
    StageRow c run.keyRef row run.stage
  reached : ∀ p ∈ c.sent, p.2.sessionId = run.sessionId → p.2.level ≤ run.stage.level

/-- What a session is sent: one set of packages, and out of one set of envelopes each participant's. -/
def Planned (x : Packages × List Envelope) : Identifier × Request → Prop
  | (_, .round2 _ _ packages) => packages = some x.1
  | (i, .finalize _ _ envelopes) =>
    envelopes = Coordinator.inboxOf x.2 i ∧ ∀ e ∈ x.2, e ∈ genuine
  | _ => True

/-- What a run is to send, and what was heard for its session. -/
def StageInv (x : Packages × List Envelope) (sessionId : SessionId) : Stage → Prop
  | .round2 all _ inbox _ => all = x.1 ∧ ∀ e ∈ inbox, e ∈ genuine
  | .finalize all inbox next => inbox = x.2 ∧ (∀ e ∈ inbox, e ∈ genuine) ∧ next < 5 ∧
      ∀ i : Identifier, i.val < next → (i, .finalize sessionId (library.publicPackage all)) ∈ answers
  | _ => True

structure Orderly : Prop where
  ids : (c.rows.map (·.sessionId)).Nodup
  locks : (c.runs.map (·.keyRef)).Nodup
  runs : ∀ run ∈ c.runs, RunInv c run
  known : ∀ p ∈ c.sent, ∃ row ∈ c.rows, row.sessionId = p.2.sessionId ∧ row.keyRef = p.2.keyRef ∧
    (p.2.level = 3 → row.recorded = true)
  planned : ∃ plan : SessionId → Packages × List Envelope,
    (∀ p ∈ c.sent, Planned genuine (plan p.2.sessionId) p) ∧
      ∀ run ∈ c.runs, StageInv library answers genuine (plan run.sessionId) run.sessionId run.stage
  recorded : ∀ row ∈ c.rows, row.recorded = true → c.latest row.keyRef = some row.sessionId ∧
    ∃ g, row.publicPackage = some g ∧ ∀ i, (i, .finalize row.sessionId g) ∈ answers
  finalized : ∀ row ∈ c.rows, row.phase = .finalized → c.groupKeys.any (·.1 = row.keyRef) = true

end Coordinator

variable {answers answers' : List (Identifier × Answer)} {genuine genuine' : List Envelope}
  {c c' : Coordinator} {run : Run} {row : CoordinatorSession} {x : Packages × List Envelope}
  {sessionId : SessionId} {keyRef : KeyRef} {stage : Stage}

theorem Planned.mono {p : Identifier × Request} (h : Planned genuine x p)
    (hgenuine : genuine ⊆ genuine') : Planned genuine' x p := by
  obtain ⟨i, request⟩ := p
  cases request with
  | finalize => exact ⟨h.1, fun e he => hgenuine (h.2 e he)⟩
  | round1 | round2 | commit => exact h

theorem StageInv.mono (h : StageInv library answers genuine x sessionId stage)
    (hanswers : answers ⊆ answers') (hgenuine : genuine ⊆ genuine') :
    StageInv library answers' genuine' x sessionId stage := by
  cases stage with
  | round2 => exact ⟨h.1, fun e he => hgenuine (h.2 e he)⟩
  | finalize =>
    obtain ⟨hinbox, hsealed, hnext, hheard⟩ := h
    exact ⟨hinbox, fun e he => hgenuine (hsealed e he), hnext, fun i hi => hanswers (hheard i hi)⟩
  | round1 | commit | store | finish => trivial

theorem StageRow.recorded (h : StageRow c keyRef row stage) (hlevel : stage.level = 3) :
    row.recorded = true := by
  cases stage with
  | commit | store | finish => simp [CoordinatorSession.recorded, h.1]
  | round1 | round2 | finalize => simp [Stage.level] at hlevel

namespace Orderly

variable (h : Orderly library answers genuine c)
include h

/-- More is answered, more is sealed. -/
theorem mono (hanswers : answers ⊆ answers') (hgenuine : genuine ⊆ genuine') :
    Orderly library answers' genuine' c where
  ids := h.ids
  locks := h.locks
  runs := h.runs
  known := h.known
  planned := by
    obtain ⟨plan, hsent, hruns⟩ := h.planned
    exact ⟨plan, fun p hp => (hsent p hp).mono hgenuine,
      fun run hrun => (hruns run hrun).mono hanswers hgenuine⟩
  recorded row hrow hrec := by
    obtain ⟨hlatest, g, hg, hheard⟩ := h.recorded row hrow hrec
    exact ⟨hlatest, g, hg, fun i => hanswers (hheard i)⟩
  finalized := h.finalized

theorem consistent : Consistent c.sent := by
  obtain ⟨plan, hsent, -⟩ := h.planned
  constructor
  · intro i j sessionId keyRef keyRef' packages packages' hp hp'
    exact Eq.trans (hsent _ hp) (Eq.symm (hsent _ hp'))
  · intro i sessionId keyRef keyRef' envelopes envelopes' hp hp'
    exact (hsent _ hp).1.trans (hsent _ hp').1.symm

theorem sealed {envelopes : List Envelope} (hp : (i, .finalize sessionId keyRef envelopes) ∈ c.sent) :
    ∀ e ∈ envelopes, e ∈ genuine := by
  obtain ⟨plan, hsent, -⟩ := h.planned
  obtain ⟨henvelopes, hgenuine⟩ := hsent _ hp
  rw [henvelopes]
  exact fun e he => hgenuine e (mem_of_mem_filter he)

theorem row_unique {row' : CoordinatorSession} (hrow : row ∈ c.rows) (hrow' : row' ∈ c.rows)
    (heq : row.sessionId = row'.sessionId) : row = row' :=
  inj_on_of_nodup_map h.ids hrow hrow' heq

/-- Runs of different keys are of different sessions. -/
theorem run_session_ne (hrun : run ∈ c.runs) (hrow : row ∈ c.rows)
    (hne : run.keyRef ≠ row.keyRef) : run.sessionId ≠ row.sessionId := by
  intro heq
  obtain ⟨row', hrow', hid, hkey, -⟩ := (h.runs run hrun).row
  obtain rfl := h.row_unique hrow hrow' (heq.symm.trans hid.symm)
  exact hne hkey.symm

/-! ### Runs end and go on -/

theorem fewer {runs : List Run} (hsub : runs.Sublist c.runs) :
    Orderly library answers genuine { c with runs := runs } where
  ids := h.ids
  locks := h.locks.sublist (hsub.map _)
  runs run hrun := by
    have hr := h.runs run (hsub.subset hrun)
    exact ⟨hr.latest, hr.row, hr.reached⟩
  known := h.known
  planned := by
    obtain ⟨plan, hsent, hruns⟩ := h.planned
    exact ⟨plan, hsent, fun run hrun => hruns run (hsub.subset hrun)⟩
  recorded := h.recorded
  finalized := h.finalized

theorem ends (run : Run) : Orderly library answers genuine (c.ends run) :=
  h.fewer erase_sublist

section Push
variable (run : Run) (to_ : Option Identifier) (request : Request)
  (hlock : ∀ other ∈ c.runs, other.keyRef ≠ run.keyRef)
  (hlatest : c.latest run.keyRef = some run.sessionId)
  (hrow : ∃ row ∈ c.rows, row.sessionId = run.sessionId ∧ row.keyRef = run.keyRef ∧
    StageRow c run.keyRef row run.stage)
  (hid : request.sessionId = run.sessionId) (hkey : request.keyRef = run.keyRef)
  (hlevel : request.level ≤ run.stage.level)
  (hreached : ∀ p ∈ c.sent, p.2.sessionId = run.sessionId → p.2.level ≤ run.stage.level)
include hlock hlatest hrow hid hkey hlevel hreached

/-- A run takes the lock of its key, in some stage, and sends a request. What its session is sent may
be decided here, if nothing that was sent goes against it. -/
theorem push {plan : SessionId → Packages × List Envelope}
    (hsent : ∀ p ∈ c.sent, Planned genuine (plan p.2.sessionId) p)
    (hruns : ∀ run ∈ c.runs,
      StageInv library answers genuine (plan run.sessionId) run.sessionId run.stage)
    (hold : ∀ p ∈ c.sent, p.2.sessionId = run.sessionId → Planned genuine x p)
    (hnew : ∀ i ∈ to_, Planned genuine x (i, request))
    (hstage : StageInv library answers genuine x run.sessionId run.stage) :
    Orderly library answers genuine { c with
      runs := run :: c.runs, sent := c.sent ++ (to_.map fun i => (i, request)).toList } := by
  obtain ⟨row, hmem, hrowid, hrowkey, hstagerow⟩ := hrow
  have hne : ∀ other ∈ c.runs, other.sessionId ≠ run.sessionId := by
    intro other hother
    rw [← hrowid]
    exact h.run_session_ne hother hmem (hrowkey ▸ hlock other hother)
  -- Everything that is sent was sent before, or is the request.
  have hcases : ∀ p ∈ c.sent ++ (to_.map fun i => (i, request)).toList,
      p ∈ c.sent ∨ p.1 ∈ to_ ∧ p.2 = request := by
    intro p hp
    refine (mem_append.1 hp).imp_right fun hp => ?_
    rw [Option.mem_toList, Option.map_eq_some_iff] at hp
    obtain ⟨i, hi, rfl⟩ := hp
    exact ⟨hi, rfl⟩
  refine ⟨h.ids, ?_, ?_, ?_, ⟨Function.update plan run.sessionId x, ?_, ?_⟩, h.recorded, h.finalized⟩
  · simpa [h.locks] using hlock
  · refine forall_mem_cons.2 ⟨⟨hlatest, ⟨row, hmem, hrowid, hrowkey, hstagerow⟩, ?_⟩, ?_⟩
    · intro p hp heq
      obtain hp | ⟨hto, rfl⟩ := hcases p hp
      · exact hreached p hp heq
      · exact hlevel
    · intro other hother
      have hr := h.runs other hother
      refine ⟨hr.latest, hr.row, fun p hp heq => ?_⟩
      obtain hp | ⟨hto, rfl⟩ := hcases p hp
      · exact hr.reached p hp heq
      · exact absurd (heq.symm.trans hid) (hne other hother)
  · intro p hp
    obtain hp | ⟨hto, rfl⟩ := hcases p hp
    · exact h.known p hp
    · refine ⟨row, hmem, hrowid.trans hid.symm, hrowkey.trans hkey.symm, fun hcommit => ?_⟩
      refine hstagerow.recorded ?_
      have := run.stage.level_le
      omega
  · intro p hp
    by_cases heq : p.2.sessionId = run.sessionId
    · rw [heq, Function.update_self]
      obtain hp | ⟨hto, rfl⟩ := hcases p hp
      · exact hold p hp heq
      · exact hnew p.1 hto
    · rw [Function.update_of_ne heq]
      obtain hp | ⟨hto, rfl⟩ := hcases p hp
      · exact hsent p hp
      · exact absurd hid heq
  · refine forall_mem_cons.2 ⟨by rwa [Function.update_self], fun other hother => ?_⟩
    rw [Function.update_of_ne (hne other hother)]
    exact hruns other hother

/-- The same with nothing to decide. -/
theorem push_plain (hnew : ∀ x i, Planned genuine x (i, request))
    (hstage : ∀ x, StageInv library answers genuine x run.sessionId run.stage) :
    Orderly library answers genuine { c with
      runs := run :: c.runs, sent := c.sent ++ (to_.map fun i => (i, request)).toList } := by
  obtain ⟨plan, hsent, hruns⟩ := h.planned
  exact h.push run to_ request hlock hlatest hrow hid hkey hlevel hreached hsent hruns
    (fun p hp heq => heq ▸ hsent p hp) (fun i _ => hnew _ i) (hstage _)

end Push

end Orderly

/-! ### Rows -/

variable {f : CoordinatorSession → CoordinatorSession}

theorem updated_names (hf : ∀ row, (f row).sessionId = row.sessionId ∧ (f row).keyRef = row.keyRef)
    (row : CoordinatorSession) :
    (if row.sessionId = sessionId then f row else row).sessionId = row.sessionId ∧
      (if row.sessionId = sessionId then f row else row).keyRef = row.keyRef := by
  split
  · exact hf row
  · exact ⟨rfl, rfl⟩

theorem latest_update
    (hf : ∀ row, (f row).sessionId = row.sessionId ∧ (f row).keyRef = row.keyRef) (keyRef : KeyRef) :
    (c.update sessionId f).latest keyRef = c.latest keyRef := by
  simp only [Coordinator.latest, Coordinator.update, filter_map, getLast?_map,
    Option.map_map, Function.comp_def, updated_names hf]

/-- The row of a session without a run is rewritten. -/
theorem Orderly.update (h : Orderly library answers genuine c)
    (hf : ∀ row, (f row).sessionId = row.sessionId ∧ (f row).keyRef = row.keyRef)
    (hfree : ∀ run ∈ c.runs, run.sessionId ≠ sessionId)
    (hrow : ∀ row ∈ c.rows, row.sessionId = sessionId →
      (row.recorded = true → (f row).recorded = true) ∧
      ((f row).recorded = true → c.latest row.keyRef = some row.sessionId ∧
        ∃ g, (f row).publicPackage = some g ∧ ∀ i, (i, .finalize row.sessionId g) ∈ answers) ∧
      ((f row).phase = .finalized → c.groupKeys.any (·.1 = row.keyRef) = true)) :
    Orderly library answers genuine (c.update sessionId f) := by
  refine ⟨?_, h.locks, fun run hrun => ?_, fun p hp => ?_, h.planned, ?_, ?_⟩
  · simpa only [Coordinator.update, map_map, Function.comp_def, updated_names hf] using h.ids
  · have hr := h.runs run hrun
    obtain ⟨row, hmem, hid, hrest⟩ := hr.row
    refine ⟨(latest_update hf _).trans hr.latest, ⟨row, ?_, hid, hrest⟩, hr.reached⟩
    exact mem_map.2 ⟨row, hmem, if_neg (hid ▸ hfree run hrun)⟩
  · obtain ⟨row, hmem, hid, hkey, hrec⟩ := h.known p hp
    refine ⟨_, mem_map_of_mem hmem, (updated_names hf row).1.trans hid, (updated_names hf row).2.trans hkey,
      fun hlevel => ?_⟩
    split
    · rename_i heq
      exact (hrow row hmem heq).1 (hrec hlevel)
    · exact hrec hlevel
  · intro row' hrow' hrec
    obtain ⟨row, hmem, rfl⟩ := mem_map.1 hrow'
    rw [(updated_names hf row).1, (updated_names hf row).2, latest_update hf]
    split at hrec
    · rename_i heq
      rw [if_pos heq]
      exact (hrow row hmem heq).2.1 hrec
    · rename_i heq
      rw [if_neg heq]
      exact h.recorded row hmem hrec
  · intro row' hrow' hphase
    obtain ⟨row, hmem, rfl⟩ := mem_map.1 hrow'
    rw [(updated_names hf row).2]
    split at hphase
    · rename_i heq
      exact (hrow row hmem heq).2.2 hphase
    · exact h.finalized row hmem hphase

/-! ### Steps of the coordinator -/

/-- What a step of the coordinator keeps: what it sent, the last session of each key unless it is a new
one, and what is recorded. -/
structure Coordinator.Extends (c c' : Coordinator) : Prop where
  sent : c.sent ⊆ c'.sent
  latest : ∀ keyRef, c'.latest keyRef = c.latest keyRef ∨
    ∃ sessionId, c'.latest keyRef = some sessionId ∧ ∀ row ∈ c.rows, row.sessionId ≠ sessionId
  recorded : ∀ row ∈ c.rows, row.recorded = true → ∃ row' ∈ c'.rows,
    row'.sessionId = row.sessionId ∧ row'.keyRef = row.keyRef ∧ row'.recorded = true ∧
      row'.publicPackage = row.publicPackage

theorem Coordinator.Extends.of_rows (hrows : c'.rows = c.rows) (hsent : c.sent ⊆ c'.sent) :
    c.Extends c' where
  sent := hsent
  latest keyRef := .inl (by simp only [Coordinator.latest, hrows])
  recorded row hrow hrec := ⟨row, hrows ▸ hrow, rfl, rfl, hrec, rfl⟩

/-- The row of a run changes its phase, and what is recorded stays. -/
theorem Coordinator.Extends.of_update (hrows : c'.rows = (c.update sessionId f).rows)
    (hsent : c.sent ⊆ c'.sent)
    (hf : ∀ row, (f row).sessionId = row.sessionId ∧ (f row).keyRef = row.keyRef)
    (hrec : ∀ row ∈ c.rows, row.sessionId = sessionId → row.recorded = true →
      (f row).recorded = true ∧ (f row).publicPackage = row.publicPackage) : c.Extends c' where
  sent := hsent
  latest keyRef := by
    have hsame : (c.update sessionId f).latest keyRef = c.latest keyRef := latest_update hf keyRef
    exact .inl (by simpa only [Coordinator.latest, hrows] using hsame)
  recorded row hrow hrow' := by
    rw [hrows]
    refine ⟨_, mem_map_of_mem hrow, ?_⟩
    split
    · rename_i hid
      exact ⟨(hf row).1, (hf row).2, hrec row hrow hid hrow'⟩
    · exact ⟨rfl, rfl, hrow', rfl⟩

variable {next : Nat}

theorem participant_some (h : Coordinator.participant next = some i) :
    i.val = next := by
  obtain ⟨hlt, heq⟩ := List.getElem?_eq_some_iff.1 h
  rw [← heq]
  simp

theorem Orderly.lock (h : Orderly library answers genuine c) (hrun : run ∈ c.runs) :
    ∀ other ∈ (c.ends run).runs, other.keyRef ≠ run.keyRef := by
  intro other hother heq
  have hnodup : c.runs.Nodup := h.locks.of_map
  obtain rfl := inj_on_of_nodup_map h.locks (mem_of_mem_erase hother) hrun heq
  exact hnodup.not_mem_erase hother

theorem Orderly.free (h : Orderly library answers genuine c) (hrun : run ∈ c.runs) :
    ∀ other ∈ (c.ends run).runs, other.sessionId ≠ run.sessionId := by
  intro other hother
  obtain ⟨row, hmem, hid, hkey, -⟩ := (h.runs run hrun).row
  rw [← hid]
  refine h.run_session_ne (mem_of_mem_erase hother) hmem ?_
  rw [hkey]
  exact h.lock hrun other hother

/-- A run goes on to a stage no lower, with a request of its session. -/
theorem Orderly.advance (h : Orderly library answers genuine c) (hrun : run ∈ c.runs)
    {to_ : Option Identifier} {request : Request}
    (hrow : ∀ row, StageRow c run.keyRef row run.stage → StageRow c run.keyRef row stage)
    (hlevel : run.stage.level ≤ stage.level)
    (hid : request.sessionId = run.sessionId) (hkey : request.keyRef = run.keyRef)
    (hrequest : request.level ≤ stage.level)
    (hplan : ∀ x, StageInv library answers genuine x run.sessionId run.stage →
      (∀ p ∈ c.sent, p.2.sessionId = run.sessionId → Planned genuine x p) →
      ∃ y, (∀ p ∈ c.sent, p.2.sessionId = run.sessionId → Planned genuine y p) ∧
        (∀ i ∈ to_, Planned genuine y (i, request)) ∧
        StageInv library answers genuine y run.sessionId stage) :
    Orderly library answers genuine (c.advance run stage to_ request) := by
  have hr := h.runs run hrun
  obtain ⟨plan, hsent, hruns⟩ := h.planned
  obtain ⟨row, hmem, hrowid, hrowkey, hstagerow⟩ := hr.row
  obtain ⟨y, hold, hnew, hstage⟩ := hplan _ (hruns run hrun) fun p hp heq => heq ▸ hsent p hp
  exact (h.ends run).push { run with stage := stage } to_ request (h.lock hrun) hr.latest
    ⟨row, hmem, hrowid, hrowkey, hrow row hstagerow⟩ hid hkey hrequest
    (fun p hp heq => (hr.reached p hp heq).trans hlevel) hsent
    (fun other hother => hruns other (mem_of_mem_erase hother)) hold hnew hstage

variable {all : Packages} {inbox : List Envelope}

theorem Orderly.hearRound1 (h : Orderly library answers genuine c) (hrun : run ∈ c.runs)
    {packages : List Package} (hs : run.stage = .round1 packages) (all : Packages)
    (more : List Package) (to_ : Option Identifier) :
    Orderly library answers genuine
        (c.advance run (.round1 more) to_ (.round1 run.sessionId run.keyRef 3 5)) ∧
      Orderly library answers genuine (c.advance run (.round2 all none [] 0) (some 0)
        (.round2 run.sessionId run.keyRef (some all))) := by
  have hreached := (h.runs run hrun).reached
  constructor
  · refine h.advance hrun (fun row hrow => ?_) (by rw [hs]; rfl) rfl rfl le_rfl
      fun x _ hold => ⟨x, hold, fun _ _ => trivial, trivial⟩
    rwa [hs] at hrow
  · refine h.advance hrun (fun row hrow => ?_) (by simp [hs, Stage.level]) rfl rfl le_rfl fun x _ _ =>
      ⟨(all, []), fun p hp heq => ?_, fun _ _ => rfl, rfl, nofun⟩
    · rwa [hs] at hrow
    · -- Nothing but round 1 has been sent for the session.
      have hlow := hreached p hp heq
      obtain ⟨i, request⟩ := p
      cases request with
      | round1 => trivial
      | round2 | finalize | commit => simp [hs, Request.level, Stage.level] at hlow

theorem Orderly.hearRound2 (h : Orderly library answers genuine c) (hrun : run ∈ c.runs)
    {seen : Option Transcript} {envelopes : List Envelope}
    (hs : run.stage = .round2 all seen inbox next) (henvelopes : ∀ e ∈ envelopes, e ∈ genuine)
    (seen' : Option Transcript) (next' : Nat) (to_ : Option Identifier) :
    Orderly library answers genuine (c.advance run (.round2 all seen' (inbox ++ envelopes) next') to_
        (.round2 run.sessionId run.keyRef (some all))) ∧
      Orderly library answers genuine (c.advance run (.finalize all (inbox ++ envelopes) 0) (some 0)
        (.finalize run.sessionId run.keyRef (Coordinator.inboxOf (inbox ++ envelopes) 0))) := by
  have hreached := (h.runs run hrun).reached
  constructor
  · refine h.advance hrun (fun row hrow => ?_) (by rw [hs]; rfl) rfl rfl le_rfl fun x hx hold => ?_
    · rwa [hs] at hrow
    · rw [hs] at hx
      obtain ⟨rfl, hinbox⟩ := hx
      exact ⟨x, hold, fun _ _ => rfl, rfl, forall_mem_append.2 ⟨hinbox, henvelopes⟩⟩
  · refine h.advance hrun (fun row hrow => ?_) (by simp [hs, Stage.level]) rfl rfl le_rfl
      fun x hx hold => ?_
    · rwa [hs] at hrow
    · rw [hs] at hx
      obtain ⟨rfl, hinbox⟩ := hx
      have hgenuine := forall_mem_append.2 ⟨hinbox, henvelopes⟩
      refine ⟨(x.1, inbox ++ envelopes), fun p hp heq => ?_, ?_, rfl, hgenuine, by decide,
        fun i hi => absurd hi (Nat.not_lt_zero _)⟩
      swap
      · rintro _ ⟨⟩
        exact ⟨rfl, hgenuine⟩
      -- No inbox has been sent for the session.
      have hlow := hreached p hp heq
      have hplanned := hold p hp heq
      obtain ⟨i, request⟩ := p
      cases request with
      | round1 => trivial
      | round2 => exact hplanned
      | finalize | commit => simp [hs, Request.level, Stage.level] at hlow

/-- The participants heard, with the one that answers now. -/
theorem heard_next (hheard : ∀ i : Identifier, i.val < next →
      (i, .finalize sessionId (library.publicPackage all)) ∈ answers)
    (hnext : Coordinator.participant next = some i)
    (hnow : (i, .finalize sessionId (library.publicPackage all)) ∈ answers) :
    ∀ j : Identifier, j.val < next + 1 →
      (j, .finalize sessionId (library.publicPackage all)) ∈ answers := by
  intro j hj
  obtain hlt | heq := Nat.lt_succ_iff_lt_or_eq.1 hj
  · exact hheard j hlt
  · obtain rfl : j = i := Fin.ext (heq.trans (participant_some hnext).symm)
    exact hnow

theorem Orderly.hearFinalize (h : Orderly library answers genuine c) (hrun : run ∈ c.runs)
    (hs : run.stage = .finalize all inbox next) (hnext : Coordinator.participant next = some i)
    (hnow : (i, .finalize run.sessionId (library.publicPackage all)) ∈ answers)
    (hlast : next + 1 ≠ 5) :
    Orderly library answers genuine (c.advance run (.finalize all inbox (next + 1))
      (Coordinator.participant (next + 1))
      (.finalize run.sessionId run.keyRef (Coordinator.inboxOf inbox (next + 1)))) := by
  refine h.advance hrun (fun row hrow => ?_) (by rw [hs]; rfl) rfl rfl le_rfl fun x hx hold => ?_
  · rwa [hs] at hrow
  · rw [hs] at hx
    obtain ⟨rfl, hinbox, hlt, hheard⟩ := hx
    refine ⟨x, hold, fun j hj => ⟨?_, hinbox⟩, rfl, hinbox, by omega, heard_next hheard hnext hnow⟩
    rw [participant_some hj]

/-- The last participant is heard: the session is recorded and the commits begin. -/
theorem Orderly.hearLast (h : Orderly library answers genuine c) (hrun : run ∈ c.runs)
    (hs : run.stage = .finalize all inbox next) (hnext : Coordinator.participant next = some i)
    (hnow : (i, .finalize run.sessionId (library.publicPackage all)) ∈ answers) (hlast : next + 1 = 5) :
    let c' := (c.update run.sessionId fun row =>
        { row with phase := .committing, publicPackage := some (library.publicPackage all) }).advance run
      (.commit (library.publicPackage all) 0) (some 0)
      (.commit run.sessionId run.keyRef (library.publicPackage all))
    Orderly library answers genuine c' ∧ c.Extends c' := by
  have hr := h.runs run hrun
  obtain ⟨plan, -, hruns⟩ := h.planned
  have hstage := hruns run hrun
  rw [hs] at hstage
  have hall := heard_next hstage.2.2.2 hnext hnow
  obtain ⟨row, hmem, hid, hkey, hrow⟩ := hr.row
  rw [hs] at hrow
  let f := fun row : CoordinatorSession =>
    { row with phase := .committing, publicPackage := some (library.publicPackage all) }
  have hf : ∀ row, (f row).sessionId = row.sessionId ∧ (f row).keyRef = row.keyRef := fun _ => ⟨rfl, rfl⟩
  have hupdated : Orderly library answers genuine ((c.ends run).update run.sessionId f) := by
    refine (h.ends run).update hf (h.free hrun) fun row' hrow' hid' => ⟨fun _ => rfl, fun _ => ?_, nofun⟩
    obtain rfl := h.row_unique hmem hrow' (hid.trans hid'.symm)
    rw [hkey, hid]
    exact ⟨hr.latest, _, rfl, fun j => hall j (by omega)⟩
  refine ⟨hupdated.push_plain { run with stage := .commit (library.publicPackage all) 0 } _ _
    (h.lock hrun) ((latest_update hf _).trans hr.latest)
    ⟨f row, mem_map.2 ⟨row, hmem, if_pos hid⟩, hid, hkey, rfl, rfl⟩ rfl rfl le_rfl
    (fun p _ _ => p.2.level_le) (fun _ _ => trivial) fun _ => trivial, ?_⟩
  refine .of_update rfl (subset_append_left ..) hf fun row' hrow' hid' hrec => ?_
  obtain rfl := h.row_unique hmem hrow' (hid.trans hid'.symm)
  exact absurd hrec (by simp [CoordinatorSession.recorded, show row.phase = .round1 from hrow])

theorem Orderly.hearCommit (h : Orderly library answers genuine c) (hrun : run ∈ c.runs)
    {g : PublicPackage} (hs : run.stage = .commit g next)
    (hstage : (∃ next', stage = .commit g next') ∨ stage = .store g) (to_ : Option Identifier) :
    Orderly library answers genuine
      (c.advance run stage to_ (.commit run.sessionId run.keyRef g)) := by
  have hlevel : stage.level = 3 := by
    obtain ⟨next', rfl⟩ | rfl := hstage <;> rfl
  refine h.advance hrun (fun row hrow => ?_) (by rw [hs, hlevel]; rfl) rfl rfl hlevel.ge
    fun x _ hold => ⟨x, hold, fun _ _ => trivial, ?_⟩
  · rw [hs] at hrow
    obtain ⟨next', rfl⟩ | rfl := hstage <;> exact hrow
  · obtain ⟨next', rfl⟩ | rfl := hstage <;> trivial

/-- The envelopes a participant answered with are sealed by it. -/
def Routed (answers : List (Identifier × Answer)) (genuine : List Envelope) : Prop :=
  ∀ i sessionId transcript envelopes, (i, .round2 sessionId transcript envelopes) ∈ answers →
    ∀ e ∈ envelopes, e ∈ genuine

theorem Orderly.hear {a : Answer}
    (h : Orderly library answers genuine c) (hrouted : Routed answers genuine) (hrun : run ∈ c.runs)
    (hanswer : (i, a) ∈ answers) (hhear : c.hear library run i a = some c') :
    Orderly library answers genuine c' ∧ c.Extends c' := by
  have hsent : ∀ stage to_ request, c.Extends (c.advance run stage to_ request) := fun _ _ _ =>
    .of_rows rfl (subset_append_left ..)
  unfold Coordinator.hear at hhear
  split at hhear
  · rename_i packages sessionId package hs
    simp only [Option.ite_none_right_eq_some] at hhear
    obtain ⟨-, hhear⟩ := hhear
    split at hhear
    · cases hhear
      exact ⟨(h.hearRound1 hrun hs _ [] none).2, hsent ..⟩
    · cases hhear
      exact ⟨(h.hearRound1 hrun hs (fun _ => package) _ _).1, hsent ..⟩
  · rename_i all seen inbox next sessionId transcript envelopes hs
    simp only [Option.ite_none_right_eq_some] at hhear
    obtain ⟨-, hhear⟩ := hhear
    have henvelopes := hrouted i sessionId transcript envelopes hanswer
    split at hhear
    · cases hhear
      exact ⟨(h.hearRound2 hrun hs henvelopes none 0 none).2, hsent ..⟩
    · cases hhear
      exact ⟨(h.hearRound2 hrun hs henvelopes _ _ _).1, hsent ..⟩
  · rename_i all inbox next sessionId publicPackage hs
    simp only [Option.ite_none_right_eq_some] at hhear
    obtain ⟨⟨hnext, rfl, rfl⟩, hhear⟩ := hhear
    split at hhear
    · rename_i hlast
      cases hhear
      exact h.hearLast hrun hs hnext hanswer hlast
    · rename_i hlast
      cases hhear
      exact ⟨h.hearFinalize hrun hs hnext hanswer hlast, hsent ..⟩
  · rename_i publicPackage next sessionId answered hs
    simp only [Option.ite_none_right_eq_some] at hhear
    obtain ⟨-, hhear⟩ := hhear
    split at hhear
    · cases hhear
      exact ⟨h.hearCommit hrun hs (.inr rfl) none, hsent ..⟩
    · cases hhear
      exact ⟨h.hearCommit hrun hs (.inl ⟨_, rfl⟩) _, hsent ..⟩
  · cases hhear

theorem Orderly.fail (h : Orderly library answers genuine c) (hrun : run ∈ c.runs) :
    Orderly library answers genuine (c.fail run) ∧ c.Extends (c.fail run) := by
  obtain ⟨row, hmem, hid, -, hrow⟩ := (h.runs run hrun).row
  have habort : row.phase = .round1 →
      let c' := (c.update run.sessionId fun row => { row with phase := .aborted }).ends run
      Orderly library answers genuine c' ∧ c.Extends c' := by
    intro hphase
    -- A ceremony's row is not recorded, so nothing recorded is lost.
    have hnot : ∀ row' ∈ c.rows, row'.sessionId = run.sessionId → ¬row'.recorded = true := by
      intro row' hrow' hid'
      obtain rfl := h.row_unique hmem hrow' (hid.trans hid'.symm)
      simp [CoordinatorSession.recorded, hphase]
    exact ⟨(h.ends run).update (fun _ => ⟨rfl, rfl⟩) (h.free hrun) fun row' hrow' hid' =>
      ⟨fun hrec => absurd hrec (hnot row' hrow' hid'), nofun, nofun⟩, .of_update rfl
      (List.Subset.refl _) (fun _ => ⟨rfl, rfl⟩) fun row' hrow' hid' hrec =>
        absurd hrec (hnot row' hrow' hid')⟩
  unfold Coordinator.fail
  cases hs : run.stage with
  | round1 | round2 | finalize =>
    rw [hs] at hrow
    exact habort hrow
  | commit | store | finish => exact ⟨h.ends run, .of_rows rfl (List.Subset.refl _)⟩

theorem any_storeGroupKey {groupKeys : List (KeyRef × PublicPackage)} {key : KeyRef}
    {publicPackage : PublicPackage} (h : groupKeys.any (·.1 = key) = true ∨ key = keyRef) :
    (Coordinator.storeGroupKey groupKeys keyRef publicPackage).any (·.1 = key) = true := by
  unfold Coordinator.storeGroupKey
  split
  · obtain h | rfl := h
    · exact h
    · assumption
  · obtain h | rfl := h
    · rw [any_append, h, Bool.true_or]
    · simp

theorem Orderly.stored (h : Orderly library answers genuine c)
    (groupKeys : List (KeyRef × PublicPackage))
    (hmore : ∀ keyRef, c.groupKeys.any (·.1 = keyRef) = true →
      groupKeys.any (·.1 = keyRef) = true) :
    Orderly library answers genuine { c with groupKeys := groupKeys } where
  ids := h.ids
  locks := h.locks
  runs run hrun := by
    have hr := h.runs run hrun
    obtain ⟨row, hmem, hid, hkey, hrow⟩ := hr.row
    refine ⟨hr.latest, ⟨row, hmem, hid, hkey, ?_⟩, hr.reached⟩
    cases hs : run.stage <;> rw [hs] at hrow
    case finish => exact ⟨hrow.1, hmore _ hrow.2⟩
    all_goals exact hrow
  known := h.known
  planned := h.planned
  recorded := h.recorded
  finalized row hrow hphase := hmore _ (h.finalized row hrow hphase)

theorem Orderly.complete (h : Orderly library answers genuine c)
    (hrun : run ∈ c.runs) (hcomplete : c.complete run = some c') :
    Orderly library answers genuine c' ∧ c.Extends c' := by
  have hr := h.runs run hrun
  obtain ⟨row, hmem, hid, hkey, hrow⟩ := hr.row
  unfold Coordinator.complete at hcomplete
  split at hcomplete
  · rename_i publicPackage hs
    cases hcomplete
    rw [hs] at hrow
    have hstored := (h.ends run).stored
      (Coordinator.storeGroupKey c.groupKeys run.keyRef publicPackage) fun keyRef hany =>
        any_storeGroupKey (.inl hany)
    have hpushed := hstored.push_plain { run with stage := .finish } none
      (.commit run.sessionId run.keyRef publicPackage) (h.lock hrun) hr.latest
      ⟨row, hmem, hid, hkey, hrow.1, any_storeGroupKey (.inr rfl)⟩ rfl rfl le_rfl
      (fun p _ _ => p.2.level_le) (fun _ _ => trivial) fun _ => trivial
    exact ⟨by simpa [Coordinator.ends] using hpushed, .of_rows rfl (List.Subset.refl _)⟩
  · rename_i hs
    cases hcomplete
    rw [hs] at hrow
    have hrecorded := h.recorded row hmem (by simp [CoordinatorSession.recorded, hrow.1])
    refine ⟨(h.ends run).update (fun _ => ⟨rfl, rfl⟩) (h.free hrun) fun row' hrow' hid' =>
      ⟨fun _ => rfl, fun _ => ?_, fun _ => ?_⟩, .of_update rfl (List.Subset.refl _)
        (fun _ => ⟨rfl, rfl⟩) fun _ _ _ _ => ⟨rfl, rfl⟩⟩
    all_goals obtain rfl := h.row_unique hmem hrow' (hid.trans hid'.symm)
    · exact hrecorded
    · rw [hkey]
      exact hrow.2
  · cases hcomplete

/-! ### Starting a call -/

theorem resumable_some {g : PublicPackage} (h : c.resumable keyRef = some (sessionId, g)) :
    ∃ row ∈ c.rows, row.sessionId = sessionId ∧ row.keyRef = keyRef ∧ row.phase = .committing ∧
      row.publicPackage = some g := by
  simp only [Coordinator.resumable, Option.bind_eq_some_iff, Option.map_eq_some_iff,
    Prod.mk.injEq] at h
  obtain ⟨row, hlast, _, hg, rfl, rfl⟩ := h
  have hmem := mem_of_getLast? hlast
  simp only [mem_filter, decide_eq_true_eq] at hmem
  exact ⟨row, hmem.1, rfl, hmem.2.1, hmem.2.2, hg⟩

/-- With nothing to resume and no group key, nothing of the key is recorded. -/
theorem Orderly.unrecorded (h : Orderly library answers genuine c)
    (hresume : c.resumable keyRef = none) (hgroup : c.groupKeys.any (·.1 = keyRef) = false)
    (hrow : row ∈ c.rows) (hkey : row.keyRef = keyRef) :
    row.recorded = false := by
  by_contra hrec
  simp only [CoordinatorSession.recorded, Bool.not_eq_false, decide_eq_true_eq] at hrec
  obtain hphase | hphase := hrec
  · have hmem : row ∈ c.rows.filter fun row => row.keyRef = keyRef ∧ row.phase = .committing := by
      simp [hrow, hkey, hphase]
    cases hlast : (c.rows.filter fun row => row.keyRef = keyRef ∧ row.phase = .committing).getLast? with
    | none =>
      rw [getLast?_eq_none_iff] at hlast
      rw [hlast] at hmem
      cases hmem
    | some last =>
      have hlast' := mem_of_getLast? hlast
      simp only [mem_filter, decide_eq_true_eq] at hlast'
      obtain ⟨-, g, hg, -⟩ := h.recorded last hlast'.1
        (by simp [CoordinatorSession.recorded, hlast'.2.2])
      rw [Coordinator.resumable, hlast, Option.bind_some, hg] at hresume
      cases hresume
  · have hany := h.finalized row hrow hphase
    rw [hkey, hgroup] at hany
    cases hany

theorem latest_append (row : CoordinatorSession) (keyRef : KeyRef) :
    ({ c with rows := c.rows ++ [row] } : Coordinator).latest keyRef =
      if row.keyRef = keyRef then some row.sessionId else c.latest keyRef := by
  unfold Coordinator.latest
  by_cases hkey : row.keyRef = keyRef <;> simp [filter_append, hkey]

/-- A new session of a key nothing is recorded and no run is going for. -/
theorem Orderly.create (h : Orderly library answers genuine c) (row : CoordinatorSession)
    (hnew : ∀ other ∈ c.rows, other.sessionId ≠ row.sessionId) (hphase : row.phase = .round1)
    (hlock : ∀ run ∈ c.runs, run.keyRef ≠ row.keyRef)
    (hunrecorded : ∀ other ∈ c.rows, other.keyRef = row.keyRef → other.recorded = false) :
    Orderly library answers genuine { c with rows := c.rows ++ [row] } where
  ids := by simpa [nodup_append, h.ids] using hnew
  locks := h.locks
  runs run hrun := by
    have hr := h.runs run hrun
    obtain ⟨other, hother, hrest⟩ := hr.row
    refine ⟨?_, ⟨other, mem_append_left _ hother, hrest⟩, hr.reached⟩
    rw [latest_append, if_neg (Ne.symm (hlock run hrun))]
    exact hr.latest
  known p hp := by
    obtain ⟨other, hother, hrest⟩ := h.known p hp
    exact ⟨other, mem_append_left _ hother, hrest⟩
  planned := h.planned
  recorded other hother hrec := by
    obtain hother | hother := mem_append.1 hother
    · rw [latest_append, if_neg]
      · exact h.recorded other hother hrec
      · intro hkey
        rw [hunrecorded other hother hkey.symm] at hrec
        cases hrec
    · obtain rfl := mem_singleton.1 hother
      simp [CoordinatorSession.recorded, hphase] at hrec
  finalized := forall_mem_append.2 ⟨h.finalized, by simp [hphase]⟩

/-- What a call that gets past its checks does. -/
theorem start_cases {idempotencyKey : String}
    (h : c.start keyRef idempotencyKey sessionId = some c') :
    (∀ run ∈ c.runs, run.keyRef ≠ keyRef) ∧ c.groupKeys.any (·.1 = keyRef) = false ∧
      ((∃ resumed g, c.resumable keyRef = some (resumed, g) ∧ c' = { c with
          runs := ⟨resumed, keyRef, .commit g 0⟩ :: c.runs
          sent := c.sent ++ [(0, .commit resumed keyRef g)] }) ∨
        (c.resumable keyRef = none ∧ (∀ row ∈ c.rows, row.sessionId ≠ sessionId) ∧ c' = { c with
          rows := c.rows ++ [⟨sessionId, keyRef, idempotencyKey, .round1, none⟩]
          runs := ⟨sessionId, keyRef, .round1 []⟩ :: c.runs
          sent := c.sent ++ [(0, .round1 sessionId keyRef 3 5)] })) := by
  unfold Coordinator.start at h
  split at h
  · cases h
  · rename_i hchecks
    simp only [not_or] at hchecks
    obtain ⟨-, -, -, -, hlock, hgroup⟩ := hchecks
    refine ⟨by simpa using hlock, Bool.eq_false_iff.2 hgroup, ?_⟩
    split at h
    · cases h
    · split at h
      · rename_i resumed g hresume
        cases h
        exact .inl ⟨resumed, g, hresume, rfl⟩
      · rename_i hresume
        simp only [Option.ite_none_left_eq_some, Option.some.injEq] at h
        obtain ⟨hnew, rfl⟩ := h
        exact .inr ⟨hresume, by simpa using hnew, rfl⟩

theorem Orderly.start {idempotencyKey : String} (h : Orderly library answers genuine c)
    (hstart : c.start keyRef idempotencyKey sessionId = some c') :
    Orderly library answers genuine c' ∧ c.Extends c' := by
  obtain ⟨hlock, hgroup, ⟨resumed, g, hresume, rfl⟩ | ⟨hresume, hnew, rfl⟩⟩ := start_cases hstart
  · obtain ⟨row, hmem, hid, hkey, hphase, hg⟩ := resumable_some hresume
    have hlatest := (h.recorded row hmem (by simp [CoordinatorSession.recorded, hphase])).1
    rw [hkey, hid] at hlatest
    exact ⟨h.push_plain ⟨resumed, keyRef, .commit g 0⟩ (some 0) _ hlock hlatest
      ⟨row, hmem, hid, hkey, hphase, hg⟩ rfl rfl le_rfl (fun p _ _ => p.2.level_le)
      (fun _ _ => trivial) fun _ => trivial, .of_rows rfl (subset_append_left ..)⟩
  · have hcreated := h.create ⟨sessionId, keyRef, idempotencyKey, .round1, none⟩ hnew rfl hlock
      fun other hother hkey => h.unrecorded hresume hgroup hother hkey
    refine ⟨hcreated.push_plain ⟨sessionId, keyRef, .round1 []⟩ (some 0) _ hlock ?_
      ⟨_, mem_append_right _ (mem_singleton_self _), rfl, rfl, rfl⟩ rfl rfl le_rfl
      (fun p hp hid => ?_) (fun _ _ => trivial) fun _ => trivial,
      subset_append_left .., fun other => ?_, fun row hrow hrec => ?_⟩
    · rw [latest_append, if_pos rfl]
    · -- The id is new, so nothing has been sent for it.
      obtain ⟨row, hmem, hrow, -⟩ := h.known p hp
      exact absurd (hrow.trans hid) (hnew row hmem)
    · have hlatest := latest_append (c := c) ⟨sessionId, keyRef, idempotencyKey, .round1, none⟩ other
      split at hlatest
      · exact .inr ⟨sessionId, hlatest, hnew⟩
      · exact .inl hlatest
    · exact ⟨row, mem_append_left _ hrow, rfl, rfl, hrec, rfl⟩

end AtlasCex.Mpc.Dkg
