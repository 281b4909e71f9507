import AtlasCex.Auth.StepUp
import Mathlib.Data.List.Perm.Subperm
/-!
# Signature counters

A finish reads the credential's row, judges the counter against what it read, and writes the new
counter back, each a step of its own and the write unconditional. `counters_advance`: as long as the
row still has, when it is written, the counter that was judged, no stored counter decreases and the
accepted assertions of a credential carry different counters, other than zero. `counter_replayed`
is a run of the code as it is.
-/
namespace AtlasCex.Auth
open List

variable {Response : Type}

def Call.concludes : Call Response → Option (Assertion Response)
  | .succeed _ assertion => some assertion
  | _ => none

/-- The assertion a step accepts: it issues a session, or stamps one. -/
def Label.accepted : Label Response → Option (Assertion Response)
  | .work call _ => call.concludes
  | _ => none

/-- Two assertions of a credential carry different counters, unless both are zero. -/
def Assertion.Differs (a b : Assertion Response) : Prop :=
  a.stored.credentialId = b.stored.credentialId → a.newSignCount ≠ 0 →
    a.newSignCount ≠ b.newSignCount

theorem Assertion.Differs.symm {a b : Assertion Response} (h : a.Differs b) : b.Differs a :=
  fun hid hne heq => h hid.symm (heq ▸ hne) heq.symm

def rowOf (rows : List Credential) (id : CredentialId) : Option Credential :=
  rows.find? (·.credentialId = id)

def State.counter (s : State Response) (id : CredentialId) : Option Nat :=
  (rowOf s.credentials id).map (·.signCount)

/-- A row is written back only while its counter is the one that was judged, and a step-up goes on
only with a row to write; and the keys of the table hold: a new row has an id and a credential
id of its own. -/
def State.Unchanged (s : State Response) : Label Response → Bool
  | .work (.recordUse _ a stored) _ =>
    s.credentials.all fun c => c.id ≠ stored.id || c.signCount = a.stored.signCount
  | .work (.reread (.stepUp _) a) _ => (s.findCredential a.stored.credentialId).isSome
  | .work (.enroll _ (credentialId, _)) answer =>
    s.credentials.all fun c => c.id ≠ answer.fresh && c.credentialId ≠ credentialId
  | _ => true

/-! ## The table -/

/-- No counter is lost and none decreases. -/
def Grows (rows rows' : List Credential) : Prop :=
  ∀ id c, rowOf rows id = some c →
    ∃ c', rowOf rows' id = some c' ∧ c'.id = c.id ∧ c.signCount ≤ c'.signCount

theorem Grows.refl (rows : List Credential) : Grows rows rows :=
  fun _ c hc => ⟨c, hc, rfl, Nat.le_refl _⟩

theorem Grows.trans {rows rows' rows'' : List Credential} (h : Grows rows rows')
    (h' : Grows rows' rows'') : Grows rows rows'' := by
  intro id c hc
  obtain ⟨c', hc', hid, hle⟩ := h id c hc
  obtain ⟨c'', hc'', hid', hle'⟩ := h' id c' hc'
  exact ⟨c'', hc'', hid'.trans hid, hle.trans hle'⟩

variable {rows rows' : List Credential}

theorem mem_of_rowOf {id : CredentialId} {c : Credential} (h : rowOf rows id = some c) :
    c ∈ rows ∧ c.credentialId = id :=
  ⟨mem_of_find?_eq_some h, by simpa using find?_some h⟩

/-- Rows changed one by one, their keys kept. -/
theorem Grows.map {f : Credential → Credential} (hf : ∀ c, (f c).credentialId = c.credentialId)
    (hid : ∀ c, (f c).id = c.id) (hle : ∀ id c, rowOf rows id = some c → c.signCount ≤ (f c).signCount) :
    Grows rows (rows.map f) := by
  intro id c hc
  refine ⟨f c, ?_, hid c, hle id c hc⟩
  rw [rowOf, find?_map]
  simp only [Function.comp_def, hf]
  exact congrArg (Option.map f) hc

theorem pairwise_map_id {f : Credential → Credential} (hf : ∀ c, (f c).id = c.id)
    (h : rows.Pairwise (·.id ≠ ·.id)) : (rows.map f).Pairwise (·.id ≠ ·.id) :=
  pairwise_map.2 (h.imp fun hne => by rwa [hf, hf])

/-! ## The invariant -/

/-- Past the library's check: the counter was judged, and the row to write is the credential's. -/
def Call.Judged (rows : List Credential) : Call Response → Prop
  | .reread _ a => detectClone a.stored.signCount a.newSignCount = false
  | .findUser a stored | .recordUse _ a stored =>
    detectClone a.stored.signCount a.newSignCount = false ∧
      ∃ c, rowOf rows a.stored.credentialId = some c ∧ c.id = stored.id
  | _ => True

theorem Call.Judged.mono {call : Call Response} (h : call.Judged rows) (hrows : Grows rows rows') :
    call.Judged rows' := by
  have hfound {id : CredentialId} {stored : Credential}
      (h : ∃ c, rowOf rows id = some c ∧ c.id = stored.id) :
      ∃ c, rowOf rows' id = some c ∧ c.id = stored.id := by
    obtain ⟨c, hc, hid⟩ := h
    obtain ⟨c', hc', hid', -⟩ := hrows _ c hc
    exact ⟨c', hc', hid'.trans hid⟩
  cases call with
  | findUser a stored => exact ⟨h.1, hfound h.2⟩
  | recordUse flow a stored => exact ⟨h.1, hfound h.2⟩
  | _ => exact h

/-- `rows` is the table, `calls` are in flight and the assertions of `log` have been accepted. -/
structure Counted (rows : List Credential) (calls : List (Call Response))
    (log : List (Assertion Response)) : Prop where
  ids : rows.Pairwise (·.id ≠ ·.id)
  judged : ∀ call ∈ calls, call.Judged rows
  written : ∀ a ∈ log ++ calls.filterMap Call.concludes,
    ∃ c, rowOf rows a.stored.credentialId = some c ∧ a.newSignCount ≤ c.signCount
  distinct : (log ++ calls.filterMap Call.concludes).Pairwise Assertion.Differs

variable {calls calls' : List (Call Response)} {log log' : List (Assertion Response)}

/-- Nothing new is accepted. -/
theorem Counted.mono (h : Counted rows calls log) (hids : rows'.Pairwise (·.id ≠ ·.id))
    (hrows : Grows rows rows')
    (hjudged : ∀ call ∈ calls', call ∈ calls ∨ call.Judged rows')
    (hlog : (log' ++ calls'.filterMap Call.concludes).Subperm
      (log ++ calls.filterMap Call.concludes)) : Counted rows' calls' log' where
  ids := hids
  judged call hcall := (hjudged call hcall).elim (fun hmem => (h.judged call hmem).mono hrows) id
  written a ha := by
    obtain ⟨c, hc, hle⟩ := h.written a (hlog.subset ha)
    obtain ⟨c', hc', -, hle'⟩ := hrows _ c hc
    exact ⟨c', hc', hle.trans hle'⟩
  distinct := by
    obtain ⟨l, hperm, hsub⟩ := hlog
    exact (hperm.pairwise_iff fun h => h.symm).1 (h.distinct.sublist hsub)

/-- An assertion is accepted: its counter is above all that the credential's row has had. -/
theorem Counted.accepts {flow : Flow} {a : Assertion Response} {c : Credential}
    (h : Counted rows calls log) (hrows : Grows rows rows') (hids : rows'.Pairwise (·.id ≠ ·.id))
    (hclone : detectClone a.stored.signCount a.newSignCount = false)
    (hc : rowOf rows a.stored.credentialId = some c) (hcount : c.signCount = a.stored.signCount)
    (hwritten : ∃ c', rowOf rows' a.stored.credentialId = some c' ∧ c'.signCount = a.newSignCount)
    (hcalls : calls' ⊆ calls) (hconcludes : (calls'.filterMap Call.concludes).Sublist
      (calls.filterMap Call.concludes)) :
    Counted rows' (.succeed flow a :: calls') log := by
  have hkept : Counted rows' calls' log := h.mono hids hrows (fun _ hm => .inl (hcalls hm))
    (hconcludes.append_left log).subperm
  have hperm : (log ++ (Call.succeed flow a :: calls').filterMap Call.concludes).Perm
      (a :: (log ++ calls'.filterMap Call.concludes)) := perm_middle
  refine ⟨hids, fun call hcall => ?_, ?_, ?_⟩
  · rcases mem_cons.1 hcall with rfl | hcall
    · trivial
    · exact hkept.judged call hcall
  · intro b hb
    rcases mem_cons.1 (hperm.mem_iff.1 hb) with rfl | hb
    · obtain ⟨c', hc', hcount'⟩ := hwritten
      exact ⟨c', hc', hcount'.ge⟩
    · exact hkept.written b hb
  · refine (hperm.pairwise_iff fun h => h.symm).2 (pairwise_cons.2 ⟨?_, hkept.distinct⟩)
    intro b hb hid hne heq
    obtain ⟨d, hd, hle⟩ := h.written b ((hconcludes.append_left log).subset hb)
    rw [← hid, hc] at hd
    cases hd
    simp [detectClone] at hclone
    omega

/-! ## Every run -/

namespace State

variable {library : Library Response} {s s' : State Response} {call : Call Response}
  {label : Label Response}

theorem findCredential_eq_some {id : CredentialId} {c : Credential}
    (h : s.findCredential id = some c) : rowOf s.credentials id = some c :=
  (Option.filter_eq_some_iff.1 h).1

/-- The row is written, and no other. -/
theorem recordUse_rows {c stored : Credential} {id : CredentialId} {count : Nat}
    (hids : s.credentials.Pairwise (·.id ≠ ·.id)) (hc : rowOf s.credentials id = some c)
    (hstored : c.id = stored.id) (hle : c.signCount ≤ count) :
    (s.recordUse stored count).credentials.Pairwise (·.id ≠ ·.id) ∧
    Grows s.credentials (s.recordUse stored count).credentials ∧
    ∃ c', rowOf (s.recordUse stored count).credentials id = some c' ∧ c'.signCount = count := by
  simp only [recordUse, ← hstored]
  refine ⟨pairwise_map_id (fun d => by split <;> rfl) hids, .map (fun d => by split <;> rfl)
    (fun d => by split <;> rfl) fun id' d hd => ?_, { c with signCount := count }, ?_, rfl⟩
  · split
    next hid =>
      cases inj_on_of_nodup_map (pairwise_map.2 hids) (mem_of_rowOf hd).1
        (mem_of_rowOf hc).1 hid
      exact hle
    next => exact Nat.le_refl _
  · rw [rowOf, find?_map]
    have hsame : ((fun d => decide (d.credentialId = id)) ∘ fun d : Credential =>
        if d.id = c.id then { d with signCount := count } else d) =
        fun d => decide (d.credentialId = id) := by
      funext d
      simp only [Function.comp_apply]
      split <;> rfl
    rw [hsame]
    exact (congrArg (Option.map _) hc).trans (by simp)

/-- A step that leaves the table and accepts nothing: the call ends, or goes on judged. -/
theorem counted_next [DecidableEq Response] {next : Option (Call Response)}
    (h : Counted s.credentials s.calls log)
    (hnext : ∀ n, next = some n → n.concludes = none ∧ n.Judged s.credentials) :
    Counted s.credentials (next.toList ++ s.calls.erase call) (log ++ []) := by
  have hnone : next.toList.filterMap Call.concludes = [] := by
    cases next with
    | none => rfl
    | some n => simp [(hnext n rfl).1]
  refine h.mono h.ids (.refl _) (fun call hcall => ?_) ?_
  · rcases mem_append.1 hcall with hcall | hcall
    · exact .inr (hnext _ (Option.mem_toList.1 hcall)).2
    · exact .inl (mem_of_mem_erase hcall)
  · rw [append_nil, filterMap_append, hnone, nil_append]
    exact ((erase_sublist.filterMap _).append_left log).subperm

variable [DecidableEq Response]

/-- The row is as it was judged: the assertion is accepted and its counter written. -/
theorem counted_writes {flow : Flow} {a : Assertion Response} {stored : Credential}
    (h : Counted s.credentials s.calls log) (hmem : .recordUse flow a stored ∈ s.calls)
    (hcount : ∀ c ∈ s.credentials, c.id = stored.id → c.signCount = a.stored.signCount) :
    Counted (s.recordUse stored a.newSignCount).credentials
        (.succeed flow a :: s.calls.erase (.recordUse flow a stored)) log ∧
      Grows s.credentials (s.recordUse stored a.newSignCount).credentials := by
  obtain ⟨hclone, c, hc, hid⟩ := h.judged _ hmem
  have hsame := hcount c (mem_of_rowOf hc).1 hid
  have hle : c.signCount ≤ a.newSignCount := by
    simp [detectClone] at hclone
    omega
  obtain ⟨hids, hgrows, hwritten⟩ := recordUse_rows h.ids hc hid hle
  exact ⟨h.accepts hgrows hids hclone hc hsame hwritten erase_subset
    (erase_sublist.filterMap _), hgrows⟩

theorem counted_work {answer : Answer} (h : Counted s.credentials s.calls log)
    (hmem : call ∈ s.calls) (hok : s.Unchanged (.work call answer))
    {t : State Response × Option (Call Response)}
    (ht : work library { s with calls := s.calls.erase call } answer call = t) :
    Counted t.1.credentials (t.2.toList ++ t.1.calls) (log ++ call.concludes.toList) ∧
      Grows s.credentials t.1.credentials := by
  subst ht
  cases call with
  | consume flow id response =>
    refine ⟨counted_next h fun n hn => ?_, .refl _⟩
    simp only [work] at hn
    split at hn
    · cases hn
    · obtain ⟨-, ⟨⟩⟩ := Option.ite_none_left_eq_some.1 hn
      exact ⟨rfl, trivial⟩
  | lookup flow id ceremony response =>
    refine ⟨counted_next h fun n hn => ?_, .refl _⟩
    obtain ⟨stored, -, rfl⟩ := Option.map_eq_some_iff.1 hn
    split <;> exact ⟨rfl, trivial⟩
  | belongs flow id ceremony response stored =>
    refine ⟨counted_next h fun n hn => ?_, .refl _⟩
    obtain ⟨_, -, rfl⟩ := Option.map_eq_some_iff.1 hn
    exact ⟨rfl, trivial⟩
  | verify flow id ceremony response stored =>
    refine ⟨counted_next h fun n hn => ?_, .refl _⟩
    obtain ⟨count, -, hn⟩ := Option.bind_eq_some_iff.1 hn
    obtain ⟨hclone, ⟨⟩⟩ := Option.ite_none_left_eq_some.1 hn
    exact ⟨rfl, by simpa [Call.Judged] using hclone⟩
  | register id response userId =>
    refine ⟨counted_next h fun n hn => ?_, .refl _⟩
    obtain ⟨ceremony, -, hn⟩ := Option.bind_eq_some_iff.1 hn
    obtain ⟨credential, -, rfl⟩ := Option.map_eq_some_iff.1 (Option.ite_none_right_eq_some.1 hn).2
    exact ⟨rfl, trivial⟩
  | reread flow a =>
    refine ⟨counted_next h fun n hn => ?_, .refl _⟩
    have hclone := h.judged _ hmem
    have hfound {stored : Credential} (hstored : s.findCredential a.stored.credentialId = some stored) :
        ∃ c, rowOf s.credentials a.stored.credentialId = some c ∧ c.id = stored.id :=
      ⟨stored, findCredential_eq_some hstored, rfl⟩
    simp only [work] at hn
    split at hn
    · obtain ⟨stored, hstored, rfl⟩ := Option.map_eq_some_iff.1 hn
      exact ⟨rfl, hclone, hfound hstored⟩
    next hstored =>
      cases hn
      exact ⟨rfl, hclone, hfound hstored⟩
    next hnone =>
      have hsome : (s.findCredential a.stored.credentialId).isSome := hok
      rw [show s.findCredential _ = none from hnone] at hsome
      cases hsome
  | findUser a stored =>
    have hjudged := h.judged _ hmem
    refine ⟨counted_next h fun n hn => ?_, .refl _⟩
    obtain ⟨-, ⟨⟩⟩ := Option.ite_none_right_eq_some.1 hn
    exact ⟨rfl, hjudged⟩
  | recordUse flow a stored =>
    rw [show Call.concludes _ = none from rfl, Option.toList_none, append_nil]
    refine counted_writes h hmem ?_
    simpa [Unchanged, ← imp_iff_not_or] using hok
  | succeed flow a =>
    have hcounted : Counted s.credentials (s.calls.erase (.succeed flow a)) (log ++ [a]) := by
      refine h.mono h.ids (.refl _) (fun _ ha => .inl (mem_of_mem_erase ha)) ?_
      rw [append_assoc]
      exact (((perm_cons_erase hmem).symm.filterMap Call.concludes).append_left log).subperm
    cases flow with
    | login => exact ⟨hcounted, .refl _⟩
    | stepUp session => exact ⟨hcounted, .refl _⟩
  | enroll userId credential =>
    obtain ⟨credentialId, publicKey, signCount⟩ := credential
    have hnew : ∀ c ∈ s.credentials, c.id ≠ answer.fresh ∧ c.credentialId ≠ credentialId := by
      simpa [Unchanged] using hok
    have hgrows (row : Credential) (hrow : row.credentialId = credentialId) :
        Grows s.credentials (row :: s.credentials) := by
      intro id c hc
      obtain ⟨hmem, hid⟩ := mem_of_rowOf hc
      refine ⟨c, ?_, rfl, Nat.le_refl _⟩
      rw [rowOf, find?_cons_of_neg (by simpa [hrow, ← hid] using (hnew c hmem).2.symm)]
      exact hc
    have hcounted (row : Credential) (hid : row.id = answer.fresh)
        (hrow : row.credentialId = credentialId) : Counted (row :: s.credentials)
          (s.calls.erase (.enroll userId (credentialId, publicKey, signCount))) (log ++ []) := by
      have hids : (row :: s.credentials).Pairwise (·.id ≠ ·.id) :=
        pairwise_cons.2 ⟨fun c hc => hid ▸ (hnew c hc).1.symm, h.ids⟩
      refine h.mono hids (hgrows row hrow) (fun _ ha => .inl (mem_of_mem_erase ha)) ?_
      rw [append_nil]
      exact ((erase_sublist.filterMap _).append_left log).subperm
    cases userId with
    | none => exact ⟨hcounted _ rfl rfl, hgrows _ rfl⟩
    | some user => exact ⟨hcounted _ rfl rfl, hgrows _ rfl⟩

theorem counted_step (h : Counted s.credentials s.calls log) (hok : s.Unchanged label)
    (hstep : step library s label = some s') :
    Counted s'.credentials s'.calls (log ++ label.accepted.toList) ∧
      Grows s.credentials s'.credentials := by
  have hcalls (calls : List (Call Response)) (hsub : calls.Sublist s.calls) :
      Counted s.credentials calls (log ++ []) := by
    refine h.mono h.ids (.refl _) (fun _ ha => .inl (hsub.subset ha)) ?_
    rw [append_nil]
    exact ((hsub.filterMap _).append_left log).subperm
  have hspawns (call : Call Response) (hnone : call.concludes = none)
      (hjudged : call.Judged s.credentials) :
      Counted s.credentials (call :: s.calls) (log ++ []) := by
    refine h.mono h.ids (.refl _) (fun c hc => ?_) ?_
    · exact (mem_cons.1 hc).elim (fun heq => .inr (heq ▸ hjudged)) .inl
    · rw [append_nil, filterMap_cons_none hnone]
  have hput (issue : Issue) (hput : s.put issue = some s') :
      Counted s'.credentials s'.calls (log ++ []) ∧ Grows s.credentials s'.credentials := by
    obtain ⟨-, ⟨⟩⟩ := Option.ite_none_right_eq_some.1 hput
    exact ⟨hcalls _ (.refl _), .refl _⟩
  cases label with
  | beginLogin id challenge => exact hput _ hstep
  | beginRegistration userId id challenge => exact hput _ hstep
  | beginStepUp session id challenge => exact hput _ (Option.ite_none_right_eq_some.1 hstep).2
  | finishLogin id response =>
    cases hstep
    exact ⟨hspawns _ rfl trivial, .refl _⟩
  | finishStepUp session id response =>
    obtain ⟨-, ⟨⟩⟩ := Option.ite_none_right_eq_some.1 hstep
    exact ⟨hspawns _ rfl trivial, .refl _⟩
  | finishRegistration id response userId =>
    cases hstep
    exact ⟨hspawns _ rfl trivial, .refl _⟩
  | work call answer =>
    obtain ⟨hmem, ⟨⟩⟩ := Option.ite_none_right_eq_some.1 hstep
    exact counted_work h hmem hok rfl
  | drop call =>
    obtain ⟨-, ⟨⟩⟩ := Option.ite_none_right_eq_some.1 hstep
    exact ⟨hcalls _ erase_sublist, .refl _⟩
  | expire id =>
    cases hstep
    exact ⟨hcalls _ (.refl _), .refl _⟩
  | revokeSession session =>
    cases hstep
    exact ⟨hcalls _ (.refl _), .refl _⟩
  | revokeCredential id =>
    cases hstep
    have hgrows : Grows s.credentials (s.credentials.map fun c =>
        if c.id = id then { c with revoked := true } else c) := by
      refine .map (fun c => by split <;> rfl) (fun c => by split <;> rfl) fun _ c _ => ?_
      split <;> exact Nat.le_refl _
    refine ⟨h.mono (pairwise_map_id (fun c => by split <;> rfl) h.ids) hgrows (fun _ => .inl) ?_,
      hgrows⟩
    exact (append_nil log).symm ▸ .refl _

theorem counted_run {run : List (Label Response)} :
    ∀ {s}, Lib.Along (step library) (fun s label => s.Unchanged label) initial run →
      Lib.exec (step library) initial run = some s →
      Counted s.credentials s.calls (run.filterMap Label.accepted) := by
  induction run using List.reverseRecOn with
  | nil =>
    rintro s - ⟨⟩
    exact ⟨.nil, nofun, nofun, .nil⟩
  | append_singleton run label ih =>
    intro s hok h
    rw [Lib.exec_concat] at h
    obtain ⟨t, ht, hlast⟩ := Option.bind_eq_some_iff.1 h
    have hstep := counted_step (ih hok.of_append ht) (hok run label t prefix_rfl ht) hlast
    rw [filterMap_append]
    cases hlabel : label.accepted <;> simpa [hlabel] using hstep.1

/-- In every run in which a row is written only while its counter is the one that was judged: no
counter decreases, and the accepted assertions of a credential carry different counters, unless
they are zero. -/
theorem counters_advance {run : List (Label Response)}
    (h : Lib.exec (step library) initial run = some s)
    (hok : Lib.Along (step library) (fun s label => s.Unchanged label) initial run) :
    (∀ earlier later t, run = earlier ++ later → Lib.exec (step library) initial earlier = some t →
      ∀ id count, t.counter id = some count →
        ∃ count', s.counter id = some count' ∧ count ≤ count') ∧
    (run.filterMap Label.accepted).Pairwise fun a b =>
      a.stored.credentialId = b.stored.credentialId → a.newSignCount ≠ 0 →
        a.newSignCount ≠ b.newSignCount := by
  refine ⟨?_, (pairwise_append.1 (counted_run hok h).distinct).1⟩
  rintro earlier later t rfl ht id count hcount
  rw [Lib.exec_append, ht, Option.bind_some] at h
  obtain ⟨-, -, hgrows⟩ := Lib.exec_inv (I := fun u : State Response =>
      ∃ log, Counted u.credentials u.calls log ∧ Grows t.credentials u.credentials)
    ⟨_, counted_run hok.of_append ht, .refl _⟩ (by
      rintro u label u' ⟨log, hcounted, hgrows⟩ hlabel hstep
      obtain ⟨hcounted', hgrows'⟩ := counted_step hcounted hlabel hstep
      exact ⟨_, hcounted', hgrows.trans hgrows'⟩) (hok.of_exec ht) h
  obtain ⟨c, hc, rfl⟩ := Option.map_eq_some_iff.1 hcount
  obtain ⟨c', hc', -, hle⟩ := hgrows id c hc
  exact ⟨_, by rw [counter, hc']; rfl, hle⟩

/-- Alice logs in with the ceremony, up to the read of the row. -/
def readsRow (id challenge : String) : List (Label SampleResponse) :=
  [.beginLogin id challenge, .finishLogin id ⟨"alice's", challenge, true⟩,
    .work (.consume .login id ⟨"alice's", challenge, true⟩) anyAnswer,
    .work (.lookup .login id ⟨.authentication, challenge, none⟩ ⟨"alice's", challenge, true⟩)
      anyAnswer]

/-- The rest of that login: the row was read with the counter `count`, and then with `found`. -/
def writesRow (id challenge : String) (count found : Nat) : List (Label SampleResponse) :=
  let stored : Credential := { credential with signCount := count }
  let again : Credential := { credential with signCount := found }
  let assertion : Assertion SampleResponse := ⟨id, ⟨.authentication, challenge, none⟩,
    ⟨"alice's", challenge, true⟩, stored, false, count + 1⟩
  [.work (.verify .login id assertion.ceremony assertion.response stored) anyAnswer,
    .work (.reread .login assertion) anyAnswer, .work (.findUser assertion again) anyAnswer,
    .work (.recordUse .login assertion again) anyAnswer, .work (.succeed .login assertion) anyAnswer]

def once : List (Label SampleResponse) :=
  enrolled "alice" "alice's" 1 "r1" "x1" ++ (readsRow "l1" "x2" ++ writesRow "l1" "x2" 0 0)

def twice : List (Label SampleResponse) := once ++ (readsRow "l2" "x3" ++ writesRow "l2" "x3" 1 1)

theorem counters_advance_twice : ∃ s t, Lib.exec (step sampleLibrary) initial twice = some s ∧
    Lib.exec (step sampleLibrary) initial once = some t ∧ t.counter "alice's" = some 1 ∧
    (∃ count, s.counter "alice's" = some count ∧ 1 ≤ count) ∧
    (twice.filterMap Label.accepted).length = 2 ∧
    (twice.filterMap Label.accepted).Pairwise fun a b =>
      a.stored.credentialId = b.stored.credentialId → a.newSignCount ≠ 0 →
        a.newSignCount ≠ b.newSignCount := by
  obtain ⟨s, hs, -⟩ : ∃ s, Lib.exec (step sampleLibrary) initial twice = some s ∧ True :=
    Lib.exec_reaches (by decide +kernel)
  obtain ⟨t, ht, hcount⟩ : ∃ t, Lib.exec (step sampleLibrary) initial once = some t ∧
      t.counter "alice's" = some 1 := Lib.exec_reaches (by decide +kernel)
  obtain ⟨hmonotone, hdistinct⟩ := counters_advance hs (by decide +kernel)
  exact ⟨s, t, hs, ht, hcount, hmonotone _ _ t rfl ht "alice's" 1 hcount, rfl, hdistinct⟩

/-- A login reads the row before two others read and write it. -/
def overtaken : List (Label SampleResponse) :=
  enrolled "alice" "alice's" 1 "r1" "x1" ++ readsRow "l1" "x2" ++
    readsRow "l2" "x3" ++ writesRow "l2" "x3" 0 0 ++ readsRow "l3" "x4" ++ writesRow "l3" "x4" 1 1

/-- It is accepted with the counter of the first of them, and puts the stored counter back. -/
theorem counter_replayed :
    (∃ s, Lib.exec (step sampleLibrary) initial overtaken = some s ∧
      s.counter "alice's" = some 2) ∧
    (∃ s, Lib.exec (step sampleLibrary) initial (overtaken ++ writesRow "l1" "x2" 0 2) = some s ∧
      s.counter "alice's" = some 1) ∧
    ((overtaken ++ writesRow "l1" "x2" 0 2).filterMap Label.accepted).map
      (fun a => (a.stored.credentialId, a.newSignCount)) =
        [("alice's", 1), ("alice's", 2), ("alice's", 1)] :=
  ⟨Lib.exec_reaches (by decide +kernel), Lib.exec_reaches (by decide +kernel), by decide⟩

end State

end AtlasCex.Auth
